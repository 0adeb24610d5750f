/-!
# Inflating compressed blocks

Compressed data is a sequence of blocks of bits, each stored, coded with the fixed codes or coded
with codes of its own. Bits are taken from each byte lowest first. A code is given by the length of
each symbol's word: words of one length are numbered in the order of their symbols, behind all
shorter words.

- `Code.ofLengths?` builds a code and refuses one whose words overlap or leave gaps;
- `Code.read?` reads a symbol;
- `inflate?` reads blocks up to the final one.
-/

namespace ItemStore.Gzip

/-! ## Bits -/

/-- The bits of a byte, lowest first. -/
def bitsOfByte (b : UInt8) : List Bool :=
  (List.range 8).map fun i => b.toNat.testBit i

/-- The bits of bytes. -/
def bitsOfBytes (bytes : List UInt8) : List Bool :=
  bytes.flatMap bitsOfByte

/-- Reads a number of `count` bits, lowest first. -/
def readBits? : (count : Nat) → List Bool → Option (Nat × List Bool)
  | 0, bits => some (0, bits)
  | _ + 1, [] => none
  | count + 1, bit :: bits =>
    (readBits? count bits).map fun (n, rest) => (2 * n + bit.toNat, rest)

/-- Drops the bits that are left of a byte begun. -/
def alignToByte (bits : List Bool) : List Bool :=
  bits.drop (bits.length % 8)

/-- Reads whole bytes onto an output. -/
def readBytes? : (count : Nat) → Array UInt8 → List Bool → Option (Array UInt8 × List Bool)
  | 0, out, bits => some (out, bits)
  | count + 1, out, bits =>
    (readBits? 8 bits).bind fun (b, rest) => readBytes? count (out.push (UInt8.ofNat b)) rest

/-! ## Codes -/

/-- A code: for each length from one to fifteen, the symbols with words of that length. -/
structure Code where
  levels : List (List Nat)
deriving Repr

namespace Code

/-- The symbols whose words have a length. -/
def symbolsOfLength (lengths : List Nat) (length : Nat) : List Nat :=
  (lengths.zipIdx.filter fun (l, _) => l = length).map Prod.snd

/-- How much of all words of fifteen bits a code covers. -/
def coverage (levels : List (List Nat)) : Nat :=
  levels.foldl (fun total level => 2 * total + level.length) 0

/-- Builds a code. The words must cover everything exactly once; a code with at most one word may
leave gaps if `sparse`. -/
def ofLengths? (sparse : Bool) (lengths : List Nat) : Option Code :=
  let levels := (List.range 15).map fun i => symbolsOfLength lengths (i + 1)
  let used := levels.flatten.length
  -- a word of `n` bits covers `2 ^ (15 - n)` of the words of fifteen bits
  if coverage levels = 0x8000 ∨ (sparse ∧ used ≤ 1) then some ⟨levels⟩ else none

/-- Reads a word bit by bit. At each length `first` is the number of the first word of that
length. -/
def readFrom? : (word first : Nat) → List (List Nat) → List Bool → Option (Nat × List Bool)
  | _, _, [], _ => none
  | _, _, _ :: _, [] => none
  | word, first, level :: deeper, bit :: bits =>
    let word := 2 * word + bit.toNat
    let first := 2 * first
    if first ≤ word then
      match level[word - first]? with
      | some symbol => some (symbol, bits)
      | none => readFrom? word (first + level.length) deeper bits
    else none

/-- Reads a symbol. -/
def read? (code : Code) (bits : List Bool) : Option (Nat × List Bool) :=
  readFrom? 0 0 code.levels bits

end Code

/-! ## Copies -/

/-- For each length symbol from 257 on: the least length and the number of extra bits. -/
def lengthTable : List (Nat × Nat) :=
  [(3, 0), (4, 0), (5, 0), (6, 0), (7, 0), (8, 0), (9, 0), (10, 0), (11, 1), (13, 1), (15, 1),
    (17, 1), (19, 2), (23, 2),
    (27, 2), (31, 2), (35, 3), (43, 3), (51, 3), (59, 3), (67, 4), (83, 4), (99, 4), (115, 4),
    (131, 5), (163, 5), (195, 5), (227, 5), (258, 0)]

/-- For each distance symbol: the least distance and the number of extra bits. -/
def distanceTable : List (Nat × Nat) :=
  [(1, 0), (2, 0), (3, 0), (4, 0), (5, 1), (7, 1), (9, 2), (13, 2), (17, 3), (25, 3), (33, 4),
    (49, 4), (65, 5), (97, 5),
    (129, 6), (193, 6), (257, 7), (385, 7), (513, 8), (769, 8), (1025, 9), (1537, 9), (2049, 10),
    (3073, 10), (4097, 11), (6145, 11), (8193, 12), (12289, 12), (16385, 13), (24577, 13)]

/-- Reads the number that a symbol and its extra bits stand for. -/
def readScaled? (table : List (Nat × Nat)) (symbol : Nat) (bits : List Bool) :
    Option (Nat × List Bool) :=
  (table[symbol]?).bind fun (least, extra) => (readBits? extra bits).map fun (n, rest) =>
    (least + n, rest)

/-- Repeats what was written `distance` bytes ago, byte by byte. -/
def copyBack? : (length distance : Nat) → Array UInt8 → Option (Array UInt8)
  | 0, _, out => some out
  | length + 1, distance, out =>
    if distance ≤ out.size then
      (out[out.size - distance]?).bind fun b => copyBack? length distance (out.push b)
    else none

/-! ## Blocks -/

/-- Reads symbols up to the end of a block. The fuel bounds their number. -/
def readSymbols? (literals distances : Code) :
    (fuel : Nat) → Array UInt8 → List Bool → Option (Array UInt8 × List Bool)
  | 0, _, _ => none
  | fuel + 1, out, bits =>
    (literals.read? bits).bind fun (symbol, bits) =>
      -- a literal, the end of the block, or a copy
      if symbol < 256 then readSymbols? literals distances fuel (out.push (UInt8.ofNat symbol)) bits
      else if symbol = 256 then some (out, bits)
      else
        (readScaled? lengthTable (symbol - 257) bits).bind fun (length, bits) =>
          (distances.read? bits).bind fun (symbol, bits) =>
            (readScaled? distanceTable symbol bits).bind fun (distance, bits) =>
              (copyBack? length distance out).bind fun out =>
                readSymbols? literals distances fuel out bits

/-- The fixed code of literals and lengths. -/
def fixedLiterals : List Nat :=
  List.replicate 144 8 ++ List.replicate 112 9 ++ List.replicate 24 7 ++ List.replicate 8 8

/-- The order in which the lengths of the words for lengths are listed. -/
def lengthOrder : List Nat :=
  [16, 17, 18, 0, 8, 7, 9, 6, 10, 5, 11, 4, 12, 3, 13, 2, 14, 1, 15]

/-- Reads numbers of three bits each. -/
def readTriples? : (count : Nat) → List Bool → Option (List Nat × List Bool)
  | 0, bits => some ([], bits)
  | count + 1, bits =>
    (readBits? 3 bits).bind fun (n, bits) => (readTriples? count bits).map fun (ns, bits) =>
      (n :: ns, bits)

/-- Reads `wanted` lengths behind those that are there, latest first. Three symbols repeat: the last
length, or zero for a shorter or a longer while. -/
def readLengths? (code : Code) (wanted : Nat) :
    (fuel : Nat) → List Nat → List Bool → Option (List Nat × List Bool)
  | 0, _, _ => none
  | fuel + 1, lengths, bits =>
    if wanted < lengths.length then none
    else if lengths.length = wanted then some (lengths.reverse, bits)
    else
      (code.read? bits).bind fun (symbol, bits) =>
        -- a length as it is, or one of the three repetitions
        if symbol < 16 then readLengths? code wanted fuel (symbol :: lengths) bits
        else if symbol = 16 then
          match lengths with
          | [] => none
          | last :: _ =>
            (readBits? 2 bits).bind fun (n, bits) =>
              readLengths? code wanted fuel (List.replicate (3 + n) last ++ lengths) bits
        else
          (readBits? (if symbol = 17 then 3 else 7) bits).bind fun (n, bits) =>
            readLengths? code wanted fuel
              (List.replicate ((if symbol = 17 then 3 else 11) + n) 0 ++ lengths) bits

/-- Reads the codes of a block that brings its own. -/
def readCodes? (bits : List Bool) : Option (Code × Code × List Bool) := do
  let (literalCount, bits) ← readBits? 5 bits
  let (distanceCount, bits) ← readBits? 5 bits
  let (lengthCount, bits) ← readBits? 4 bits
  if 29 < literalCount ∨ 29 < distanceCount then none
  let (triples, bits) ← readTriples? (lengthCount + 4) bits
  -- the lengths of the code for lengths come in an order of their own, and may break off
  let listed := lengthOrder.zip triples
  let code ← Code.ofLengths? false ((List.range 19).map fun symbol => (listed.lookup symbol).getD 0)
  let wanted := literalCount + 257 + (distanceCount + 1)
  let (lengths, bits) ← readLengths? code wanted (wanted + 1) [] bits
  -- both codes are listed as one, so a repetition may run across the border
  let literals ← Code.ofLengths? true (lengths.take (literalCount + 257))
  let distances ← Code.ofLengths? true (lengths.drop (literalCount + 257))
  return (literals, distances, bits)

/-- Reads the content of a block of some kind. -/
def readBlock? (kind : Nat) (out : Array UInt8) (bits : List Bool) :
    Option (Array UInt8 × List Bool) :=
  match kind with
  | 0 => do
    -- a stored block: its size, the complement of the size, and the bytes
    let (length, bits) ← readBits? 16 (alignToByte bits)
    let (complement, bits) ← readBits? 16 bits
    if length + complement ≠ 0xFFFF then none
    readBytes? length out bits
  | 1 => do
    let literals ← Code.ofLengths? false fixedLiterals
    let distances ← Code.ofLengths? false (List.replicate 32 5)
    readSymbols? literals distances bits.length out bits
  | 2 => do
    let (literals, distances, bits) ← readCodes? bits
    readSymbols? literals distances bits.length out bits
  | _ => none

/-- Reads blocks up to the final one. The fuel bounds their number. -/
def readBlocks? : (fuel : Nat) → Array UInt8 → List Bool → Option (Array UInt8 × List Bool)
  | 0, _, _ => none
  | fuel + 1, out, bits =>
    (readBits? 1 bits).bind fun (final, bits) =>
      (readBits? 2 bits).bind fun (kind, bits) =>
        (readBlock? kind out bits).bind fun (out, bits) =>
          if final = 1 then some (out, bits) else readBlocks? fuel out bits

/-- Inflates the compressed data at the start of some bytes: what it holds, and the bytes behind
it. -/
def inflate? (bytes : List UInt8) : Option (List UInt8 × List UInt8) :=
  let bits := bitsOfBytes bytes
  (readBlocks? bits.length #[] bits).map fun (out, rest) =>
    (out.toList, bytes.drop (bytes.length - rest.length / 8))

end ItemStore.Gzip
