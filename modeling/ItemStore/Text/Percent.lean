import ItemStore.Text.Utf8

/-!
# Percent-encoding

A byte is written as a percent sign and two upper-case hexadecimal digits. `Percent.encodeWhere`
encodes the characters of a class, `Percent.encode` everything but letters, digits and `-`, `_`,
`.`, `~`. Decoding leaves alone every percent sign that no two hexadecimal digits follow.
-/

namespace ItemStore.Percent

/-- An upper-case hexadecimal digit. -/
def hexDigit (n : Nat) : Char :=
  if n < 10 then Char.ofNat (48 + n) else Char.ofNat (55 + n)

/-- The value of a hexadecimal digit of either case. -/
def hexValue? (c : Char) : Option Nat :=
  if '0' ≤ c ∧ c ≤ '9' then some (c.toNat - 48)
  else if 'a' ≤ c ∧ c ≤ 'f' then some (c.toNat - 87)
  else if 'A' ≤ c ∧ c ≤ 'F' then some (c.toNat - 55)
  else none

/-- A byte as a percent sign and two digits. -/
def encodeByte (b : UInt8) : List Char :=
  ['%', hexDigit (b.toNat / 16), hexDigit (b.toNat % 16)]

/-- A character as its encoded bytes. -/
def encodeChar (c : Char) : List Char :=
  (String.utf8EncodeChar c).flatMap encodeByte

/-- Encodes the characters of a class. -/
def encodeCharsWhere (p : Char → Bool) (cs : List Char) : List Char :=
  cs.flatMap fun c => if p c then encodeChar c else [c]

/-- Encodes the characters of a class in a text. -/
def encodeWhere (p : Char → Bool) (s : String) : String :=
  String.ofList (encodeCharsWhere p s.toList)

/-- Characters that never need encoding. -/
def isUnreserved (c : Char) : Bool :=
  c.isAlphanum || c = '-' || c = '_' || c = '.' || c = '~'

/-- Encodes everything but unreserved characters, as for one segment of a path or one part of a
query. -/
def encode (s : String) : String :=
  encodeWhere (fun c => !isUnreserved c) s

/-- The bytes of a text with its percent signs decoded. -/
def decodeBytes : List Char → List UInt8
  | [] => []
  | '%' :: a :: b :: rest =>
    match hexValue? a, hexValue? b with
    | some high, some low => UInt8.ofNat (16 * high + low) :: decodeBytes rest
    | _, _ => 0x25 :: decodeBytes (a :: b :: rest)
  | c :: rest => String.utf8EncodeChar c ++ decodeBytes rest

/-- Decodes a text, unless its bytes are not valid UTF-8. -/
def decode? (s : String) : Option String :=
  String.fromUTF8? (decodeBytes s.toList).toByteArray

/-- Decodes a text, with replacements where its bytes are not valid UTF-8. -/
def decodeLossy (s : String) : String :=
  Text.decodeLossy (decodeBytes s.toList).toByteArray

end ItemStore.Percent
