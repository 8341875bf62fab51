import Q1n1.Library.Bytes

/-! # Preload manifests

The manifest is written by `manifest` of `tools/preload.py` and checked by
`q1n1_preload_manifest_valid` of `platform/uefi/preload.c`. -/

namespace Q1n1.Preload

open Bytes (putLe getLe)

def magic : ℕ := 0x31444c50314e3151
def maxFiles : ℕ := 16
def limit : ℕ := 0x100000000
def pathBytes : ℕ := 256
def fileBytes : ℕ := 296
def headerBytes : ℕ := 32

structure File where
  size : ℕ
  sha256 : List UInt8
  path : List UInt8
  deriving DecidableEq

/-! ## The firmware's side -/

def backslash : UInt8 := 0x5c
def dot : UInt8 := 0x2e

/-- A byte that no path may hold: what is not printable, and `:/*?"<>|`. -/
def forbidden (c : UInt8) : Bool :=
  c < 32 || 126 < c || c = 0x3a || c = 0x2f || c = 0x2a || c = 0x3f || c = 0x22 || c = 0x3c ||
    c = 0x3e || c = 0x7c

/-- The loop of `valid_path`: `n` more bytes from `i`, in a component that began at `start`. -/
def validPathFrom (p : List UInt8) : (n i start : ℕ) → Bool
  | 0, _, _ => false
  | n + 1, i, start =>
    let c := p.getD i 0
    if c = 0 || c = backslash then
      if i = start || (i - start = 1 && p.getD start 0 = dot) ||
          (i - start = 2 && p.getD start 0 = dot && p.getD (start + 1) 0 = dot) then false
      else if c = 0 then (p.drop (i + 1)).all (· = 0)
      else validPathFrom p n (i + 1) (i + 1)
    else if forbidden c then false
    else validPathFrom p n (i + 1) start

def validPath (p : List UInt8) : Bool := p.getD 0 0 = backslash && validPathFrom p 255 1 1

def lower (c : UInt8) : UInt8 := if 0x41 ≤ c ∧ c ≤ 0x5a then c + 0x20 else c

def samePath (a b : List UInt8) : Bool :=
  (List.range pathBytes).all fun i => lower (a.getD i 0) = lower (b.getD i 0)

def fileOf (bytes : List UInt8) : File where
  size := getLe 8 bytes
  sha256 := (bytes.drop 8).take 32
  path := (bytes.drop 40).take pathBytes

def filesOf : ℕ → List UInt8 → List File
  | 0, _ => []
  | n + 1, bytes => fileOf bytes :: filesOf n (bytes.drop fileBytes)

def countOf (bytes : List UInt8) : ℕ := getLe 8 (bytes.drop 16)

def entries (bytes : List UInt8) : List File := filesOf (countOf bytes) (bytes.drop headerBytes)

/-- The loop over the entries, behind those in `earlier`. -/
def validFiles : (earlier : List File) → (total : ℕ) → List File → Bool
  | _, _, [] => true
  | earlier, total, f :: rest =>
    if f.size = 0 || limit - total < f.size || !validPath f.path then false
    else if earlier.any fun g => samePath f.path g.path then false
    else validFiles (earlier ++ [f]) (total + f.size) rest

/-- `q1n1_preload_manifest_valid`, of a manifest that is all of the file. -/
def manifestValid (bytes : List UInt8) : Bool :=
  if bytes.length < headerBytes || getLe 8 bytes ≠ magic || getLe 8 (bytes.drop 8) ≠ 1 ||
      countOf bytes = 0 || maxFiles < countOf bytes || getLe 8 (bytes.drop 24) ≠ fileBytes ||
      bytes.length ≠ headerBytes + countOf bytes * fileBytes then false
  else validFiles [] 0 (entries bytes)

/-! ## The tool's side -/

/-- A string, as code points. -/
abbrev Str := List ℕ

/-- `'/:*?"<>|'` -/
def badChars : Str := [0x2f, 0x3a, 0x2a, 0x3f, 0x22, 0x3c, 0x3e, 0x7c]

/-- `str.encode('ascii')`. -/
def encodeAscii (s : Str) : Option (List UInt8) :=
  if s.all (· < 128) then some (s.map UInt8.ofNat) else none

/-- `bytes.ljust`, with zeros. -/
def ljust (n : ℕ) (bs : List UInt8) : List UInt8 := bs ++ List.replicate (n - bs.length) 0

def encodePath (path : Str) : Option (List UInt8) := do
  if path.head? ≠ some 0x5c || badChars.any (path.contains ·) ||
      ((path.drop 1).splitOn 0x5c).any fun part => part = [] || part = [0x2e] ||
        part = [0x2e, 0x2e] then none
  else
    let raw ← encodeAscii path
    if pathBytes ≤ raw.length || raw.any (fun c => c < 32 || 126 < c) then none
    else some (ljust pathBytes raw)

def isSpace (c : ℕ) : Bool := c = 32 || (9 ≤ c && c ≤ 13)

def hexDigit? (c : ℕ) : Option ℕ :=
  if 0x30 ≤ c ∧ c ≤ 0x39 then some (c - 0x30)
  else if 0x61 ≤ c ∧ c ≤ 0x66 then some (c - 0x61 + 10)
  else if 0x41 ≤ c ∧ c ≤ 0x46 then some (c - 0x41 + 10)
  else none

/-- `bytes.fromhex`, which skips white space between bytes. -/
def fromHex : Str → Option (List UInt8)
  | [] => some []
  | [c] => if isSpace c then some [] else none
  | c :: d :: rest =>
    if isSpace c then fromHex (d :: rest)
    else do
      let high ← hexDigit? c
      let low ← hexDigit? d
      return UInt8.ofNat (16 * high + low) :: (← fromHex rest)

/-- A file as the tool is given it: its path, its size and its digest in hexadecimal. -/
structure Source where
  path : Str
  size : ℤ
  digest : Str

def packFile (size : ℕ) (hashed raw : List UInt8) : List UInt8 := putLe 8 size ++ hashed ++ raw

def records : (seen : List (List UInt8)) → (total : ℤ) → List Source → Option (List UInt8)
  | _, _, [] => some []
  | seen, total, f :: rest => do
    let raw ← encodePath f.path
    if seen.contains (raw.map lower) || !(0 < f.size && f.size ≤ limit - total) then none
    else
      let hashed ← fromHex f.digest
      if hashed.length ≠ 32 then none
      else
        let more ← records (seen ++ [raw.map lower]) (total + f.size) rest
        return packFile f.size.toNat hashed raw ++ more

/-- `manifest`; nothing where it raises. -/
def manifest (files : List Source) : Option (List UInt8) := do
  if !(1 ≤ files.length && files.length ≤ maxFiles) then none
  else
    let table ← records [] 0 files
    return putLe 8 magic ++ putLe 8 1 ++ putLe 8 files.length ++ putLe 8 fileBytes ++ table

/-- The path, up to the first zero. -/
def File.text (f : File) : List UInt8 := f.path.takeWhile (· ≠ 0)

def hexChar (n : ℕ) : ℕ := if n < 10 then 0x30 + n else 0x61 + (n - 10)

def toHex (bs : List UInt8) : Str :=
  bs.flatMap fun b => [hexChar (b.toNat / 16), hexChar (b.toNat % 16)]

/-- The path, size and digest that an entry encodes. -/
def File.source (f : File) : Source := ⟨f.text.map UInt8.toNat, f.size, toHex f.sha256⟩

end Q1n1.Preload
