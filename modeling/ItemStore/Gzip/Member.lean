import ItemStore.Gzip.Checksum
import ItemStore.Gzip.Inflate

/-!
# Compressed files

A member is a header, compressed data, and a trailer with the checksum and the length of what the
data holds. `Gzip.unpack?` reads the member at the start of some bytes and ignores what follows it;
`Gzip.pack` writes a member whose blocks are stored as they are.
-/

namespace ItemStore.Gzip

/-! ## Reading -/

/-- A little-endian number. -/
def natOfBytes : List UInt8 → Nat
  | [] => 0
  | b :: rest => b.toNat + 256 * natOfBytes rest

/-- A little-endian number of `count` bytes. -/
def bytesOfNat : (count : Nat) → Nat → List UInt8
  | 0, _ => []
  | count + 1, n => UInt8.ofNat n :: bytesOfNat count (n / 256)

/-- Drops a text that ends in a zero byte. -/
def dropText? : List UInt8 → Option (List UInt8)
  | [] => none
  | b :: rest => if b = 0 then some rest else dropText? rest

/-- Drops a prefix of some length, which must be there. -/
def dropExactly? (count : Nat) (bytes : List UInt8) : Option (List UInt8) :=
  if count ≤ bytes.length then some (bytes.drop count) else none

/-- Drops the optional parts of a header, as its flags announce them: a field, a name, a comment,
and a checksum over the header so far. -/
def dropOptional? (flags : Nat) (all bytes : List UInt8) : Option (List UInt8) := do
  let bytes ← if flags.testBit 2 then
      (dropExactly? 2 bytes).bind fun rest => dropExactly? (natOfBytes (bytes.take 2)) rest
    else some bytes
  let bytes ← if flags.testBit 3 then dropText? bytes else some bytes
  let bytes ← if flags.testBit 4 then dropText? bytes else some bytes
  if flags.testBit 1 then
    let header := all.take (all.length - bytes.length)
    let rest ← dropExactly? 2 bytes
    if natOfBytes (bytes.take 2) = (checksum header).toNat % 65536 then some rest else none
  else some bytes

/-- Reads a header and returns what follows it. -/
def dropHeader? (bytes : List UInt8) : Option (List UInt8) :=
  match bytes with
  | 0x1F :: 0x8B :: 8 :: flags :: _ =>
    if 0x20 ≤ flags then none
    else (dropExactly? 10 bytes).bind fun rest => dropOptional? flags.toNat bytes rest
  | _ => none

/-- What the first member of some bytes holds. -/
def unpack? (bytes : List UInt8) : Option (List UInt8) := do
  let data ← dropHeader? bytes
  let (content, trailer) ← inflate? data
  if trailer.length < 8 then none
  else if natOfBytes (trailer.take 4) = (checksum content).toNat
      ∧ natOfBytes ((trailer.drop 4).take 4) = content.length % 0x100000000 then some content
  else none

/-! ## Writing -/

/-- The most bytes that one stored block can hold. -/
def storedLimit : Nat := 65535

/-- A stored block. -/
def storedBlock (final : Bool) (content : List UInt8) : List UInt8 :=
  (if final then 1 else 0) :: bytesOfNat 2 content.length ++
    bytesOfNat 2 (storedLimit - content.length) ++ content

/-- Stores bytes in blocks, as many as they need. -/
def storedBlocks (bytes : List UInt8) : List UInt8 :=
  if bytes.length ≤ storedLimit then storedBlock true bytes
  else storedBlock false (bytes.take storedLimit) ++ storedBlocks (bytes.drop storedLimit)
termination_by bytes.length
decreasing_by simp [storedLimit] at *; omega

/-- A member that holds some bytes. -/
def pack (bytes : List UInt8) : List UInt8 :=
  [0x1F, 0x8B, 8, 0, 0, 0, 0, 0, 0, 0xFF] ++ storedBlocks bytes
    ++ bytesOfNat 4 (checksum bytes).toNat ++ bytesOfNat 4 (bytes.length % 0x100000000)

end ItemStore.Gzip
