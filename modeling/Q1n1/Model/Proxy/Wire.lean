import Q1n1.Library.Bytes

/-! # The proxy protocol on the wire

`platform/uefi/q1n1-proxy.c`, `proxy-asm.S` and `tools/q1n1proxy.py`. A request is 64 bytes:
its type, 56 bytes of payload and a checksum. A reply is 36 bytes: the type it answers, a
status, 24 bytes of data and a checksum. -/

namespace Q1n1.Proxy

open Bytes

def reqNop : ℕ := 0x00AA55FF
def reqProxy : ℕ := 0x01AA55FF
def reqMemread : ℕ := 0x02AA55FF
def reqMemwrite : ℕ := 0x03AA55FF
def reqBoot : ℕ := 0x04AA55FF

def reqSize : ℕ := 64
def cmdLen : ℕ := 56
def bounceBytes : ℕ := 65536

def stOk : Int := 0
def stBadcmd : Int := -1
def stXfrerr : Int := -3
def stCsumerr : Int := -4

def checksumInit : ℕ := 0xDEADBEEF
def checksumFinal : ℕ := 0xADDEDBAD
def checksumSentinel : ℕ := 0xD0DECADE
def dataEndSentinel : ℕ := 0xB0CACC10

/-- The feature bit that turns the data checksums off. -/
def disableDataCsums (features : ℕ) : ℕ := features % 2

def checksumByte (sum : ℕ) (b : UInt8) : ℕ := (sum * 31337 + (b ^^^ 0x5a).toNat) % 2 ^ 32

def checksumBlock (sum : ℕ) (bs : List UInt8) : ℕ := bs.foldl checksumByte sum

def checksum (bs : List UInt8) : ℕ := checksumBlock checksumInit bs ^^^ checksumFinal

def checksumReference (bs : List UInt8) : ℕ :=
  bs.foldl (fun value b => (value * 31337 + (b ^^^ 0x5a).toNat) &&& 0xFFFFFFFF) 0xDEADBEEF ^^^
    0xADDEDBAD

def putStatus (status : Int) : List UInt8 := putLe 4 (status % 2 ^ 32).toNat

def replyData (data : List UInt8) : List UInt8 := (data ++ List.replicate 24 0).take 24

def replyBytes (type : ℕ) (status : Int) (data : List UInt8) : List UInt8 :=
  let head := putLe 4 type ++ putStatus status ++ replyData data
  head ++ putLe 4 (checksum head)

def cmdBytes (command : ℕ) (payload : List UInt8) : List UInt8 :=
  let message := putLe 4 command ++ (payload ++ List.replicate cmdLen 0).take cmdLen
  message ++ putLe 4 (checksumReference message)

end Q1n1.Proxy
