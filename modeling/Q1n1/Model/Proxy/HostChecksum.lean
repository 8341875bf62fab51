import Q1n1.Model.Proxy.Wire

/-! # The checksums of the host

`tools/q1n1proxy.py`: `checksum_reference` and the `checksum` that takes 64 KiB blocks at once.
Every array of the latter is one of wrapping 32-bit words. -/

namespace Q1n1.Proxy

/-- `checksum_reference` from any initial value. -/
def checksumReferenceFrom (value : ℕ) (data : List UInt8) : ℕ :=
  data.foldl (fun value b => (value * 31337 + (b ^^^ 0x5a).toNat) &&& 0xFFFFFFFF) value ^^^
    0xADDEDBAD

/-- `_CHECKSUM_BLOCK`. -/
def checksumBlockBytes : ℕ := 65536

/-- `numpy.cumprod`, behind a product so far. -/
def cumprod : ℕ → List ℕ → List ℕ
  | _, [] => []
  | product, p :: ps => product * p % 2 ^ 32 :: cumprod (product * p % 2 ^ 32) ps

def checksumPowers : List ℕ := cumprod 1 (1 :: List.replicate checksumBlockBytes 31337)

def blockTotal (block : List UInt8) : ℕ :=
  let terms := List.zipWith (fun b power => (b ^^^ 0x5a).toNat * power % 2 ^ 32) block
    (checksumPowers.take block.length).reverse
  terms.foldl (fun total term => (total + term) % 2 ^ 32) 0

def checksumStep (value : ℕ) (block : List UInt8) : ℕ :=
  (value * checksumPowers.getD block.length 0 + blockTotal block) &&& 0xFFFFFFFF

def checksumNumpy (value : ℕ) (data : List UInt8) : ℕ :=
  if data.length < 4096 then checksumReferenceFrom value data
  else (Bytes.slices checksumBlockBytes data).foldl checksumStep value ^^^ 0xADDEDBAD

end Q1n1.Proxy
