/-!
# UTF-8 with replacement

Bytes that are not valid UTF-8 can still be shown as text: every maximal piece that could have
started a character, and every byte that cannot start one, becomes the replacement character. Valid
bytes are read as they are.
-/

namespace ItemStore.Text

/-- The character that stands for bytes that cannot be read. -/
def replacement : Char := Char.ofNat 0xFFFD

/-- What a first byte of a longer character asks of the bytes behind it. -/
structure Lead where
  /-- How many bytes must follow. -/
  follow : Nat
  /-- The range of the first of them; the others lie between 0x80 and 0xBF. -/
  low : UInt8
  high : UInt8
  /-- The bits that the first byte contributes. -/
  bits : Nat
deriving DecidableEq, Repr

/-- Reads the first byte of a character of two to four bytes. -/
def Lead.ofByte? (b : UInt8) : Option Lead :=
  if 0xC2 ≤ b ∧ b ≤ 0xDF then some ⟨1, 0x80, 0xBF, b.toNat - 0xC0⟩
  else if b = 0xE0 then some ⟨2, 0xA0, 0xBF, 0⟩
  else if b = 0xED then some ⟨2, 0x80, 0x9F, 0xD⟩
  else if 0xE1 ≤ b ∧ b ≤ 0xEF then some ⟨2, 0x80, 0xBF, b.toNat - 0xE0⟩
  else if b = 0xF0 then some ⟨3, 0x90, 0xBF, 0⟩
  else if 0xF1 ≤ b ∧ b ≤ 0xF3 then some ⟨3, 0x80, 0xBF, b.toNat - 0xF0⟩
  else if b = 0xF4 then some ⟨3, 0x80, 0x8F, 4⟩
  else none

/-- Takes continuation bytes, `count` of them if they are there: the value collected, if all were,
and the rest. -/
def continuation :
    (count : Nat) → (low high : UInt8) → (value : Nat) → List UInt8 → Option Nat × List UInt8
  | 0, _, _, value, rest => (some value, rest)
  | _ + 1, _, _, _, [] => (none, [])
  | count + 1, low, high, value, b :: rest =>
    if low ≤ b ∧ b ≤ high then continuation count 0x80 0xBF (value * 64 + (b.toNat - 0x80)) rest
    else (none, b :: rest)

/-- Taking continuation bytes leaves no more than there was. -/
theorem length_continuation (count : Nat) (low high : UInt8) (value : Nat) (bytes : List UInt8) :
    (continuation count low high value bytes).2.length ≤ bytes.length := by
  fun_induction continuation count low high value bytes with
  | case1 => simp
  | case2 => simp
  | case3 _ _ _ _ _ _ _ ih => simp; omega
  | case4 => simp

/-- The characters of a list of bytes, with replacements. -/
def lossyChars : List UInt8 → List Char
  | [] => []
  | b :: rest =>
    if b < 0x80 then Char.ofNat b.toNat :: lossyChars rest
    else match Lead.ofByte? b with
      | none => replacement :: lossyChars rest
      | some lead =>
        have := length_continuation lead.follow lead.low lead.high lead.bits rest
        match _h : continuation lead.follow lead.low lead.high lead.bits rest with
        | (some value, after) => Char.ofNat value :: lossyChars after
        | (none, after) => replacement :: lossyChars after
termination_by bytes => bytes.length
decreasing_by all_goals simp_all; try omega

/-- Bytes as text, with replacements where they are not valid UTF-8. -/
def decodeLossy (bytes : ByteArray) : String :=
  match String.fromUTF8? bytes with
  | some s => s
  | none => String.ofList (lossyChars bytes.data.toList)

end ItemStore.Text
