import Q1n1.Verification.Glink.Intents
import Q1n1.Verification.Glink.Reassembly
import Q1n1.Verification.Glink.Transmit
import Q1n1.Verification.Glink.Servicing
import Q1n1.Verification.Ncm.Placement
import Q1n1.Verification.Ncm.Hostile
import Q1n1.Verification.Ncm.SideBuffer
import Q1n1.Verification.CallService.Latch
import Q1n1.Verification.Proxy.StrictSession
import Q1n1.Verification.Proxy.PortSessions
import Q1n1.Verification.Proxy.Checksum
import Q1n1.Verification.Xhci.Ring
import Q1n1.Verification.Nvme.CrashSafety
import Q1n1.Verification.Dwc3.Fifo
import Q1n1.Verification.Gpu.SecureMonitor
import Q1n1.Verification.Preload.Agreement
import Q1n1.Verification.Preload.Cover
import Q1n1.Verification.BootWindow.BootNext
import Q1n1.Verification.Adreno.RenderWindow
import Q1n1.Verification.Adreno.NoBypass
import Q1n1.Verification.Adreno.HfiPairing
import Q1n1.Verification.Adreno.ArenaBytes
import Q1n1.Verification.Adreno.PacketStreams
import Q1n1.Verification.Gpt.Tiling
import Q1n1.Verification.Gpt.Reads
import Q1n1.Verification.Pmic.Reading
import Q1n1.Verification.Smem.Lookup
import Q1n1.Verification.Virtio.Confinement
import Q1n1.Verification.Dart.Mapping
import Q1n1.Verification.Iodev.InOrder
import Q1n1.Verification.LiveBattery.Carry
import Q1n1.Verification.LiveBattery.Walk
import Q1n1.Verification.NvmeHash.Digest
import Q1n1.Verification.NvmeHash.Confinement
import Q1n1.Verification.CallService.Output
