import Mathlib.Algebra.Group.Nat.Defs
import ItemStore.Proofs.Json.Text
import ItemStore.Proofs.Pointer

/-!
# Positions in arrays

A token denotes a position exactly if it is the decimal numeral of the position, the position lies
in the array, and it is an unsigned 64-bit integer. So no two tokens denote the same position, and
the size of the array matters only in that the position must lie below it.

## Main results

- `Pointer.arrayIndex?_eq_some_iff`: which token denotes which position;
- `Pointer.positions_canonical`: in an array whose size is an unsigned 64-bit integer the numerals
  of the positions denote them, and nothing else denotes a position.

## Architecture

1. `Pointer.toDigits_natOfDigits`: digits without a needless zero in front are the numeral of their
   value.
2. `Pointer.wordOfDigits?_eq_some_iff`: the reading that is checked digit by digit gives the value
   of the digits, unless that value is out of range.
-/

namespace ItemStore.Pointer

/-! ## Numerals -/

private theorem toNat_of_isDigit {c : Char} (hc : c.isDigit = true) :
    48 ≤ c.toNat ∧ c.toNat ≤ 57 := by
  simpa [Char.isDigit, UInt32.le_iff_toNat_le] using hc

/-- A digit is the numeral of its own value. -/
private theorem toDigits_of_isDigit {c : Char} (hc : c.isDigit = true) :
    c.toNat - '0'.toNat < 10 ∧ Nat.toDigits 10 (c.toNat - '0'.toNat) = [c] := by
  have hrange := toNat_of_isDigit hc
  have hvalue : c.toNat - '0'.toNat < 10 := by
    show c.toNat - 48 < 10
    omega
  refine ⟨hvalue, ?_⟩
  rw [Nat.toDigits_of_lt_base hvalue, List.singleton_inj]
  apply Char.toNat_inj.mp
  rw [Nat.toNat_digitChar_of_lt_ten hvalue]
  show 48 + (c.toNat - 48) = c.toNat
  omega

/-- Digits behind the numeral of a positive number go on with that numeral. -/
private theorem toDigits_append {n : Nat} (hn : 0 < n) {digits : List Char}
    (hdigits : ∀ c ∈ digits, c.isDigit = true) :
    Nat.toDigits 10 n ++ digits =
      Nat.toDigits 10 (digits.foldl (fun n c => 10 * n + (c.toNat - '0'.toNat)) n) := by
  induction digits generalizing n with
  | nil => rw [List.append_nil, List.foldl_nil]
  | cons c digits ih =>
    obtain ⟨hc, hrest⟩ := List.forall_mem_cons.mp hdigits
    obtain ⟨hvalue, hdigit⟩ := toDigits_of_isDigit hc
    have hlonger := Nat.toDigits_append_toDigits (by decide) hn hvalue
    rw [hdigit] at hlonger
    rw [List.foldl_cons, ← ih (by omega) hrest, ← hlonger, List.append_assoc, List.singleton_append]

/-- Digits without a needless zero in front are the numeral of their value. -/
theorem toDigits_natOfDigits {c : Char} {digits : List Char}
    (hdigits : ∀ d ∈ c :: digits, d.isDigit = true) (hzero : c = '0' → digits = []) :
    Nat.toDigits 10 (natOfDigits (c :: digits)) = c :: digits := by
  obtain ⟨hc, hrest⟩ := List.forall_mem_cons.mp hdigits
  obtain ⟨-, hdigit⟩ := toDigits_of_isDigit hc
  have hvalue : natOfDigits (c :: digits) =
      digits.foldl (fun n c => 10 * n + (c.toNat - '0'.toNat)) (c.toNat - '0'.toNat) := by
    rw [natOfDigits, List.foldl_cons, Nat.mul_zero, Nat.zero_add]
  by_cases hpositive : 0 < c.toNat - '0'.toNat
  · rw [hvalue, ← toDigits_append hpositive hrest, hdigit, List.singleton_append]
  · -- only the digit zero has no value, and it stands alone
    have heq : c = '0' := by
      apply Char.toNat_inj.mp
      have hrange := toNat_of_isDigit hc
      change ¬0 < c.toNat - 48 at hpositive
      show c.toNat = 48
      omega
    rw [hvalue, hzero heq, List.foldl_nil, hdigit]

/-! ## Values of 64 bits -/

/-- Behind a value in range more digits are read up to a value in range, and not beyond. -/
private theorem foldlM_appendDigit?_eq_some_iff {n m : Nat} (hn : n < 2 ^ 64) (digits : List Char) :
    digits.foldlM Text.appendDigit? n = some m ↔
      digits.foldl (fun n c => 10 * n + (c.toNat - '0'.toNat)) n = m ∧ m < 2 ^ 64 := by
  induction digits generalizing n with
  | nil =>
    show some n = some m ↔ n = m ∧ m < 2 ^ 64
    rw [Option.some.injEq]
    constructor
    · rintro rfl
      exact ⟨rfl, hn⟩
    · exact And.left
  | cons c digits ih =>
    rw [List.foldlM_cons, List.foldl_cons]
    by_cases hnext : 10 * n + (c.toNat - '0'.toNat) < 2 ^ 64
    · rw [Text.appendDigit?_of_lt hnext]
      exact ih hnext
    · -- once out of range, the value stays so
      rw [Text.appendDigit?_of_le (Nat.le_of_not_lt hnext)]
      constructor
      · intro h
        cases h
      · rintro ⟨rfl, hlt⟩
        exact absurd (Nat.lt_of_le_of_lt (NumberParts.le_foldl_digits _ digits) hlt) hnext

/-- **Checked reading**: digits are read as their value exactly if that is an unsigned 64-bit
integer. -/
theorem wordOfDigits?_eq_some_iff {digits : List Char} {n : Nat} :
    wordOfDigits? digits = some n ↔ natOfDigits digits = n ∧ n < 2 ^ 64 :=
  foldlM_appendDigit?_eq_some_iff (by decide) digits

/-! ## Tokens -/

/-- **Positions**: a token denotes a position exactly if it is its numeral and the position lies
below the size and within 64 bits. -/
theorem arrayIndex?_eq_some_iff {token : String} {size i : Nat} :
    arrayIndex? token size = some i ↔ token = toString i ∧ i < size ∧ i < 2 ^ 64 := by
  simp only [arrayIndex?, Option.ite_none_left_eq_some, Option.filter_eq_some_iff,
    decide_eq_true_eq, wordOfDigits?_eq_some_iff]
  constructor
  · rintro ⟨hdigits, hzero, ⟨rfl, hword⟩, hlt⟩
    simp only [Bool.or_eq_true, not_or, List.isEmpty_iff, Bool.not_eq_true', Bool.not_eq_false,
      List.all_eq_true] at hdigits
    obtain ⟨c, digits, hlist⟩ := List.exists_cons_of_ne_nil hdigits.1
    rw [hlist] at hdigits hzero
    refine ⟨String.toList_injective ?_, hlt, hword⟩
    rw [NumberParts.toList_toString, hlist]
    apply (toDigits_natOfDigits hdigits.2 _).symm
    intro heq
    simpa [heq] using hzero
  · rintro ⟨rfl, hlt, hword⟩
    have hall : (Nat.toDigits 10 i).all Char.isDigit = true :=
      List.all_eq_true.mpr NumberParts.isDigit_of_mem_toDigits
    have hvalue : natOfDigits (Nat.toDigits 10 i) = i := NumberParts.natOfDigits_toDigits i
    -- the numeral of zero is a single digit, and no other one begins with a zero
    have hzero : ¬(1 < (Nat.toDigits 10 i).length && (Nat.toDigits 10 i).head? == some '0') =
        true := by
      by_cases hi : i = 0
      · simp [hi]
      · simp [Nat.head?_toDigits_ne_zero hi]
    rw [NumberParts.toList_toString]
    exact ⟨by simp [hall], by simpa using hzero, ⟨hvalue, hword⟩, hlt⟩

variable {token : String} {size i : Nat}

/-- No two tokens denote the same position. -/
theorem arrayIndex?_inj {token' : String} {size' : Nat} (h : arrayIndex? token size = some i)
    (h' : arrayIndex? token' size' = some i) : token = token' :=
  (arrayIndex?_eq_some_iff.mp h).1.trans (arrayIndex?_eq_some_iff.mp h').1.symm

/-- A position is denoted by its token in every array that is long enough. -/
theorem arrayIndex?_of_lt (h : arrayIndex? token size = some i) {size' : Nat} (hlt : i < size') :
    arrayIndex? token size' = some i := by
  obtain ⟨htoken, -, hword⟩ := arrayIndex?_eq_some_iff.mp h
  exact arrayIndex?_eq_some_iff.mpr ⟨htoken, hlt, hword⟩

/-- In a shorter array its token denotes nothing. -/
theorem arrayIndex?_of_le (h : arrayIndex? token size = some i) {size' : Nat} (hle : size' ≤ i) :
    arrayIndex? token size' = none := by
  cases hj : arrayIndex? token size' with
  | none => rfl
  | some j =>
    have hlt := lt_of_arrayIndex? h
    have hlt' := lt_of_arrayIndex? hj
    -- then the token would denote two positions in one array
    have hsame :=
      (arrayIndex?_of_lt hj (Nat.lt_trans (Nat.lt_of_lt_of_le hlt' hle) hlt)).symm.trans h
    cases hsame
    omega

/-- Digits whose value is out of the 64-bit range denote nothing, however great the array. -/
theorem arrayIndex?_eq_none_of_le (h : 2 ^ 64 ≤ natOfDigits token.toList) (size : Nat) :
    arrayIndex? token size = none := by
  cases hi : arrayIndex? token size with
  | none => rfl
  | some i =>
    obtain ⟨rfl, -, hword⟩ := arrayIndex?_eq_some_iff.mp hi
    have hvalue : natOfDigits (toString i).toList = i := by
      rw [NumberParts.toList_toString]
      exact NumberParts.natOfDigits_toDigits i
    omega

/-- **Canonical positions.** In an array whose size is an unsigned 64-bit integer, a token denotes a
position exactly if the position lies below the size and the token is its decimal numeral, without
sign or leading zeros. So two different tokens never denote the same position, not even in arrays of
different sizes, and digits whose value is out of the 64-bit range denote none. -/
theorem positions_canonical {size : Nat} (hsize : size < 2 ^ 64) :
    (∀ token i, arrayIndex? token size = some i ↔ i < size ∧ token = toString i) ∧
      (∀ token token' size' i, arrayIndex? token size = some i → arrayIndex? token' size' = some i →
        token = token') ∧
      ∀ token : String, (∀ c ∈ token.toList, c.isDigit = true) → 2 ^ 64 ≤ natOfDigits token.toList →
        ∀ size', arrayIndex? token size' = none := by
  refine ⟨fun token i => ?_, fun token token' size' i => arrayIndex?_inj,
    fun token _ => arrayIndex?_eq_none_of_le⟩
  constructor
  · intro h
    obtain ⟨htoken, hlt, -⟩ := arrayIndex?_eq_some_iff.mp h
    exact ⟨hlt, htoken⟩
  · rintro ⟨hlt, htoken⟩
    exact arrayIndex?_eq_some_iff.mpr ⟨htoken, hlt, Nat.lt_trans hlt hsize⟩

/-- In the greatest of these arrays the numerals end with the last position, a leading zero makes a
numeral denote nothing, and the first number beyond the range denotes none in a greater array
either. -/
theorem positions_canonical_of_greatest_size :
    2 ^ 64 - 1 < 2 ^ 64 ∧
      arrayIndex? "18446744073709551614" (2 ^ 64 - 1) = some (2 ^ 64 - 2) ∧
      arrayIndex? "18446744073709551615" (2 ^ 64 - 1) ≠ some (2 ^ 64 - 1) ∧
      arrayIndex? "07" (2 ^ 64 - 1) ≠ some 7 ∧
      arrayIndex? "18446744073709551616" (2 ^ 65) = none := by
  have hsize : 2 ^ 64 - 1 < 2 ^ 64 := by decide
  obtain ⟨hdenotes, hunique, hbeyond⟩ := positions_canonical hsize
  have hseven : arrayIndex? "7" (2 ^ 64 - 1) = some 7 := (hdenotes "7" 7).mpr ⟨by decide, by decide⟩
  refine ⟨hsize, (hdenotes _ _).mpr ⟨by decide, by decide⟩, fun h => ?_, fun h => ?_, ?_⟩
  · exact absurd ((hdenotes _ _).mp h).1 (Nat.lt_irrefl _)
  · exact absurd (hunique _ _ _ _ h hseven) (by decide)
  · exact hbeyond _ (List.all_eq_true.mp (by decide)) (by decide) _

end ItemStore.Pointer
