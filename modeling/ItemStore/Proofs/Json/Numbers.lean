import ItemStore.Json.Printer
import ItemStore.Proofs.Decimal.Scaling

/-!
# Numbers in texts

The text of an integer is read as that integer. The text of a binary64 number is laid out with a
point, and with an exponent if the number is very great or very small. It is read as a binary64
number too, though perhaps not as the same one, since the significand and the power of ten are
rounded apart. No number is refused, not even the greatest.

## Main results

- `Number.readAs_int`: an integer is read back from its text;
- `Number.readAs_reread`: what is written of a number is read as a number.

## Architecture

- `NumberParts.Scans`: how a text is cut into digits before the point, digits behind it, and an
  exponent;
- `NumberParts.laysOut_layout`: each of the five layouts is cut into the digits of the decimal, or
  into fewer than seventeen digits that are divided by ten;
- `NumberParts.significand_of_lt`: digits that fit into 64 bits are all significant;
- `NumberParts.exists_double?_of_laysOut`: so the parts are read as a product or quotient in range.
-/

namespace ItemStore

/-! ## Reading a number -/

/-- What is written of a number is that of a number wherever it stands, and is read as a number. -/
structure Number.ReadAs (n m : Number) : Prop where
  starts : ∃ c cs, n.text.toList = c :: cs ∧ (c.isDigit || c = '-') = true
  continues : ∀ c ∈ n.text.toList, Token.isNumberChar c = true
  denotes : (NumberParts.ofChars? n.text.toList).bind NumberParts.number? = some m

/-! ## Digits -/

theorem Text.appendDigit?_of_lt {n : Nat} {c : Char} (h : 10 * n + (c.toNat - '0'.toNat) < 2 ^ 64) :
    appendDigit? n c = some (10 * n + (c.toNat - '0'.toNat)) :=
  if_pos h

theorem Text.appendDigit?_of_le {n : Nat} {c : Char} (h : 2 ^ 64 ≤ 10 * n + (c.toNat - '0'.toNat)) :
    appendDigit? n c = none :=
  if_neg (Nat.not_lt.mpr h)

/-! ## Integers -/

theorem JsonInt.ofInt?_val (i : JsonInt) : JsonInt.ofInt? i.val = some i := by
  obtain ⟨val, lower, upper⟩ := i
  cases val with
  | ofNat n =>
    have hupper : (n : Int) < 0x10000000000000000 := upper
    exact dif_pos (by omega)
  | negSucc n =>
    exact dif_pos (by omega)

/-- The digits of a number do not start with a zero, except for zero itself. -/
theorem Nat.head?_toDigits_ne_zero {n : Nat} (h : n ≠ 0) :
    (Nat.toDigits 10 n).head? ≠ some '0' := by
  induction n using Nat.strongRecOn with
  | ind n ih =>
    rw [Nat.toDigits_eq_if (by decide)]
    split
    next => simpa using h
    next hge =>
      have hquotient := ih (n / 10) (by omega) (by omega)
      obtain ⟨c, cs, hdigits⟩ : ∃ c cs, Nat.toDigits 10 (n / 10) = c :: cs :=
        List.exists_cons_of_ne_nil Nat.toDigits_ne_nil
      rw [hdigits] at hquotient ⊢
      exact hquotient

namespace NumberParts

theorem toList_toString (n : Nat) : (toString n).toList = Nat.toDigits 10 n := by
  simp

theorem natOfDigits_toDigits (n : Nat) : natOfDigits (Nat.toDigits 10 n) = n :=
  Nat.ofDigitChars_ten_toDigits

theorem isDigit_of_mem_toDigits {n : Nat} : ∀ c ∈ Nat.toDigits 10 n, c.isDigit = true := by
  intro c hc
  exact Nat.isDigit_of_mem_toDigits (by decide) (by decide) hc

/-- The digits of a number are read as its whole part. -/
theorem ofUnsigned?_toDigits (negative : Bool) (n : Nat) :
    ofUnsigned? negative (Nat.toDigits 10 n) = some ⟨negative, Nat.toDigits 10 n, [], 0, true⟩ := by
  have htake : (Nat.toDigits 10 n).takeWhile Char.isDigit = Nat.toDigits 10 n := by
    have happend := @List.takeWhile_append_of_pos _ Char.isDigit (Nat.toDigits 10 n) []
      isDigit_of_mem_toDigits
    simpa using happend
  have hdrop : (Nat.toDigits 10 n).dropWhile Char.isDigit = [] := by
    have happend := @List.dropWhile_append_of_pos _ Char.isDigit (Nat.toDigits 10 n) []
      isDigit_of_mem_toDigits
    simpa using happend
  -- digits are refused only if there are none, or if the first of several is a zero
  have hleading : ¬((Nat.toDigits 10 n).isEmpty = true ∨
      (Nat.toDigits 10 n).head? = some '0' ∧ 1 < (Nat.toDigits 10 n).length) := by
    by_cases hn : n = 0
    · simp [hn]
    · simp [Nat.head?_toDigits_ne_zero hn]
  unfold ofUnsigned?
  simp only [htake, hdrop, if_neg hleading]
  rfl

theorem ofChars?_toDigits (n : Nat) :
    ofChars? (Nat.toDigits 10 n) = some ⟨false, Nat.toDigits 10 n, [], 0, true⟩ := by
  rw [← ofUnsigned?_toDigits]
  unfold ofChars?
  split
  next rest hdigits =>
    -- a digit is no sign
    have hdigit : '-'.isDigit = true := isDigit_of_mem_toDigits '-' (hdigits ▸ List.mem_cons_self)
    cases hdigit
  next => rfl

end NumberParts

private theorem isNumberChar_of_mem_toDigits {n : Nat} :
    ∀ c ∈ Nat.toDigits 10 n, Token.isNumberChar c = true := by
  intro c hc
  simp [Token.isNumberChar, NumberParts.isDigit_of_mem_toDigits c hc]

/-- Every integer is read back from its text. -/
theorem Number.readAs_int (i : JsonInt) : (Number.int i).ReadAs (.int i) := by
  have hval : Number.ofInt? i.val = some (.int i) := by
    rw [ofInt?, JsonInt.ofInt?_val, Option.map_some]
  by_cases hsign : 0 ≤ i.val
  · obtain ⟨n, hn⟩ := Int.eq_ofNat_of_zero_le hsign
    have htext : (Number.int i).text.toList = Nat.toDigits 10 n := by
      simp [Number.text, hn, Int.repr_eq_if]
    rw [hn] at hval
    refine ⟨?_, ?_, ?_⟩
    · obtain ⟨c, cs, hdigits⟩ : ∃ c cs, Nat.toDigits 10 n = c :: cs :=
        List.exists_cons_of_ne_nil Nat.toDigits_ne_nil
      have hdigit : c.isDigit = true :=
        NumberParts.isDigit_of_mem_toDigits c (hdigits ▸ List.mem_cons_self)
      exact ⟨c, cs, htext.trans hdigits, by simp [hdigit]⟩
    · rw [htext]
      exact isNumberChar_of_mem_toDigits
    · rw [htext, NumberParts.ofChars?_toDigits, Option.bind_some]
      simp [NumberParts.number?, NumberParts.natOfDigits_toDigits, hval]
  · obtain ⟨n, hn⟩ : ∃ n : Nat, i.val = -n := ⟨(-i.val).toNat, by omega⟩
    have hzero : n ≠ 0 := by omega
    have hrange : n ≤ 0x8000000000000000 := by have := i.lower; omega
    have htext : (Number.int i).text.toList = '-' :: Nat.toDigits 10 n := by
      simp [Number.text, hn, Int.repr_eq_if, hzero]
    rw [hn] at hval
    refine ⟨⟨'-', _, htext, by simp⟩, ?_, ?_⟩
    · rw [htext]
      exact List.forall_mem_cons.mpr ⟨by decide, isNumberChar_of_mem_toDigits⟩
    · have hparts := NumberParts.ofUnsigned?_toDigits true n
      rw [htext, NumberParts.ofChars?, hparts, Option.bind_some]
      -- minus zero and numbers below the range would be read as binary64 numbers
      have hfits : ¬((n : Int) = 0 ∨ 0x8000000000000000 < (n : Int)) := by omega
      simp only [NumberParts.number?, NumberParts.natOfDigits_toDigits, if_true, if_neg hfits, hval]

namespace NumberParts

/-! ## Digits -/

theorem natOfDigits_append (ds es : List Char) :
    natOfDigits (ds ++ es) = 10 ^ es.length * natOfDigits ds + natOfDigits es := by
  change Nat.ofDigitChars 10 (ds ++ es) 0 = _
  rw [Nat.ofDigitChars_append, Nat.ofDigitChars_eq_ofDigitChars_zero]
  rfl

theorem natOfDigits_zeros (n : Nat) : natOfDigits (List.replicate n '0') = 0 := by
  change Nat.ofDigitChars 10 (List.replicate n '0') 0 = 0
  rw [Nat.ofDigitChars_replicate_zero, Nat.mul_zero]

theorem natOfDigits_lt {ds : List Char} (h : ∀ d ∈ ds, d.isDigit = true) :
    natOfDigits ds < 10 ^ ds.length := by
  induction ds with
  | nil => decide
  | cons d ds ih =>
    obtain ⟨hd, hds⟩ := List.forall_mem_cons.mp h
    have hrest := ih hds
    have hvalue : natOfDigits (d :: ds) = 10 ^ ds.length * (d.toNat - 48) + natOfDigits ds := by
      have happend := natOfDigits_append [d] ds
      simpa [natOfDigits] using happend
    have hdigit : d.toNat - 48 ≤ 9 := by
      simp only [Char.isDigit, Bool.and_eq_true, decide_eq_true_eq, ge_iff_le,
        UInt32.le_iff_toNat_le] at hd
      have : d.toNat ≤ 57 := hd.2
      omega
    rw [hvalue, List.length_cons, pow_succ]
    have := Nat.mul_le_mul_left (10 ^ ds.length) hdigit
    omega

/-! ## Scanning -/

/-- Digits that can stand before a point: at least one, and no zero in front of others. -/
structure IsWhole (ds : List Char) : Prop where
  digits : ∀ d ∈ ds, d.isDigit = true
  ne_nil : ds ≠ []
  leading : ds.head? = some '0' → ds.length = 1

theorem isDigit_of_mem_zero : ∀ d ∈ ['0'], d.isDigit = true :=
  List.forall_mem_singleton.mpr rfl

theorem isWhole_zero : IsWhole ['0'] :=
  ⟨isDigit_of_mem_zero, List.cons_ne_nil _ _, fun _ => rfl⟩

/-- What can stand behind the digits, with the exponent that it denotes. -/
structure IsTail (tail : List Char) (exponent : Int) (plain : Bool) : Prop where
  denotes : exponentOf? tail = some (exponent, plain)
  continues : ∀ c ∈ tail, Token.isNumberChar c = true
  ends : ∀ c cs, tail = c :: cs → c.isDigit = false ∧ c ≠ '.'

/-- The text is cut into these digits before and behind the point and this exponent, and it goes on
as numbers do. -/
structure Scans (text whole fraction : List Char) (exponent : Int) : Prop where
  starts : ∃ c cs, text = c :: cs ∧ c.isDigit = true
  continues : ∀ c ∈ text, Token.isNumberChar c = true
  parts : ∀ negative, ofUnsigned? negative text = some ⟨negative, whole, fraction, exponent, false⟩

theorem isNumberChar_of_isDigit {c : Char} (h : c.isDigit = true) :
    Token.isNumberChar c = true := by
  simp [Token.isNumberChar, h]

theorem takeWhile_dropWhile_digits {ds rest : List Char} (h : ∀ d ∈ ds, d.isDigit = true)
    (hrest : ∀ c cs, rest = c :: cs → c.isDigit = false) :
    (ds ++ rest).takeWhile Char.isDigit = ds ∧ (ds ++ rest).dropWhile Char.isDigit = rest := by
  rw [List.takeWhile_append_of_pos h, List.dropWhile_append_of_pos h]
  cases rest with
  | nil => simp
  | cons c cs =>
    have hc : ¬c.isDigit = true := by simp [hrest c cs rfl]
    rw [List.takeWhile_cons_of_neg hc, List.dropWhile_cons_of_neg hc, List.append_nil]
    exact ⟨rfl, rfl⟩

theorem IsWhole.not_refused {ds : List Char} (h : IsWhole ds) :
    ¬(ds.isEmpty = true ∨ ds.head? = some '0' ∧ 1 < ds.length) := by
  rintro (hempty | ⟨hzero, hlength⟩)
  · exact h.ne_nil (List.isEmpty_iff.mp hempty)
  · have := h.leading hzero
    omega

theorem IsWhole.starts {ds : List Char} (h : IsWhole ds) (rest : List Char) :
    ∃ c cs, ds ++ rest = c :: cs ∧ c.isDigit = true := by
  obtain ⟨c, cs, rfl⟩ := List.exists_cons_of_ne_nil h.ne_nil
  exact ⟨c, cs ++ rest, rfl, h.digits c List.mem_cons_self⟩

/-- A text with a point. -/
theorem scans_point {whole fraction tail : List Char} {exponent : Int} {plain : Bool}
    (hwhole : IsWhole whole) (hfraction : ∀ d ∈ fraction, d.isDigit = true) (hne : fraction ≠ [])
    (htail : IsTail tail exponent plain) :
    Scans (whole ++ '.' :: (fraction ++ tail)) whole fraction exponent := by
  refine ⟨hwhole.starts _, ?_, fun negative => ?_⟩
  · intro c hc
    simp only [List.mem_append, List.mem_cons] at hc
    rcases hc with hc | rfl | hc | hc
    · exact isNumberChar_of_isDigit (hwhole.digits c hc)
    · decide
    · exact isNumberChar_of_isDigit (hfraction c hc)
    · exact htail.continues c hc
  · have hpoint : ∀ c cs, '.' :: (fraction ++ tail) = c :: cs → c.isDigit = false := by
      intro c cs heq
      cases heq
      decide
    obtain ⟨htake, hdrop⟩ := takeWhile_dropWhile_digits hwhole.digits hpoint
    obtain ⟨htake', hdrop'⟩ := takeWhile_dropWhile_digits hfraction fun c cs heq =>
      (htail.ends c cs heq).1
    have hempty : ¬fraction.isEmpty = true := fun h => hne (List.isEmpty_iff.mp h)
    unfold ofUnsigned?
    simp only [htake, hdrop, if_neg hwhole.not_refused, htake', hdrop', if_neg hempty,
      htail.denotes]
    rfl

/-- A text without a point but with an exponent. -/
theorem scans_exponent {whole tail : List Char} {exponent : Int} (hwhole : IsWhole whole)
    (htail : IsTail tail exponent false) :
    Scans (whole ++ tail) whole [] exponent := by
  refine ⟨hwhole.starts _, ?_, fun negative => ?_⟩
  · intro c hc
    exact (List.mem_append.mp hc).elim (fun hc => isNumberChar_of_isDigit (hwhole.digits c hc))
      (htail.continues c)
  · obtain ⟨htake, hdrop⟩ := takeWhile_dropWhile_digits hwhole.digits fun c cs heq =>
      (htail.ends c cs heq).1
    unfold ofUnsigned?
    simp only [htake, hdrop, if_neg hwhole.not_refused]
    split
    next more => exact absurd rfl (htail.ends '.' more rfl).2
    next =>
      rw [htail.denotes]
      rfl

theorem isTail_nil : IsTail [] 0 true :=
  ⟨rfl, nofun, nofun⟩

/-- An exponent is written with its sign. -/
theorem isTail_exponent (e : Int) :
    IsTail ('e' :: (if e < 0 then '-' else '+') :: Nat.toDigits 10 e.natAbs) e false := by
  have hdigits : ¬((Nat.toDigits 10 e.natAbs).isEmpty = true ∨
      (!(Nat.toDigits 10 e.natAbs).all Char.isDigit) = true) := by
    have hall : (Nat.toDigits 10 e.natAbs).all Char.isDigit = true :=
      List.all_eq_true.mpr isDigit_of_mem_toDigits
    simp [hall]
  refine ⟨?_, ?_, ?_⟩
  · by_cases hsign : e < 0
    · rw [if_pos hsign, exponentOf?, if_pos (.inl rfl)]
      simp only [if_neg hdigits, natOfDigits_toDigits, if_true]
      congr 2
      omega
    · rw [if_neg hsign, exponentOf?, if_pos (.inl rfl)]
      simp only [if_neg hdigits, natOfDigits_toDigits, Bool.false_eq_true, if_false]
      congr 2
      omega
  · intro c hc
    simp only [List.mem_cons] at hc
    rcases hc with rfl | rfl | hc
    · decide
    · split <;> decide
    · exact isNumberChar_of_isDigit (isDigit_of_mem_toDigits c hc)
  · intro c cs heq
    cases heq
    decide

/-! ## Layouts -/

theorem toList_digitsText (n : Nat) : (Decimal.digitsText n).toList = Nat.toDigits 10 n := by
  simp [Decimal.digitsText]

theorem isWhole_of_head {ds : List Char} (hdigits : ∀ d ∈ ds, d.isDigit = true) (hne : ds ≠ [])
    (hhead : ds.head? ≠ some '0') :
    IsWhole ds :=
  ⟨hdigits, hne, fun hzero => absurd hzero hhead⟩

/-- The text is cut into the digits of `n` with an exponent, or into at most seventeen digits that
are divided by ten. -/
def LaysOut (text : List Char) (n : Nat) (exponent : Int) : Prop :=
  ∃ whole fraction e, Scans text whole fraction e ∧
    ((natOfDigits (whole ++ fraction) = n ∧ e - (fraction.length : Int) = exponent) ∨
      (natOfDigits (whole ++ fraction) ≤ 10 ^ 17 ∧ e - (fraction.length : Int) = -1))

/-- Zeros stand behind the point, before the digits. -/
theorem laysOut_small (n zeros : Nat) :
    LaysOut ('0' :: '.' :: (List.replicate zeros '0' ++ Nat.toDigits 10 n)) n
      (-(zeros : Int) - (Nat.toDigits 10 n).length) := by
  have hfraction : ∀ d ∈ List.replicate zeros '0' ++ Nat.toDigits 10 n, d.isDigit = true := by
    intro d hd
    rcases List.mem_append.mp hd with hd | hd
    · rw [List.eq_of_mem_replicate hd]
      decide
    · exact isDigit_of_mem_toDigits d hd
  have hscans := scans_point isWhole_zero hfraction (by simp [Nat.toDigits_ne_nil]) isTail_nil
  rw [List.append_nil] at hscans
  have hdigits : natOfDigits (['0'] ++ (List.replicate zeros '0' ++ Nat.toDigits 10 n)) = n := by
    rw [natOfDigits_append, natOfDigits_append, natOfDigits_toDigits, natOfDigits_zeros]
    simp [natOfDigits]
  refine ⟨['0'], _, 0, hscans, .inl ⟨hdigits, ?_⟩⟩
  rw [List.length_append, List.length_replicate]
  omega

section Layouts

variable {n : Nat} (hn : n ≠ 0)
include hn

theorem isWhole_digits : IsWhole (Nat.toDigits 10 n) :=
  isWhole_of_head isDigit_of_mem_toDigits Nat.toDigits_ne_nil (Nat.head?_toDigits_ne_zero hn)

theorem isWhole_take {k : Nat} (hk : 0 < k) : IsWhole ((Nat.toDigits 10 n).take k) := by
  refine isWhole_of_head (fun d hd => isDigit_of_mem_toDigits d (List.mem_of_mem_take hd)) ?_ ?_
  · simp [Nat.toDigits_ne_nil, hk.ne']
  · rw [List.head?_take, if_neg hk.ne']
    exact Nat.head?_toDigits_ne_zero hn

/-- A whole number is filled up with zeros. -/
theorem laysOut_whole (zeros : Nat) (hlength : (Nat.toDigits 10 n).length + zeros ≤ 16) :
    LaysOut (Nat.toDigits 10 n ++ List.replicate zeros '0' ++ ['.', '0']) n zeros := by
  have hwhole : IsWhole (Nat.toDigits 10 n ++ List.replicate zeros '0') := by
    refine isWhole_of_head (fun d hd => ?_) (by simp [Nat.toDigits_ne_nil]) ?_
    · rcases List.mem_append.mp hd with hd | hd
      · exact isDigit_of_mem_toDigits d hd
      · rw [List.eq_of_mem_replicate hd]
        decide
    · rw [List.head?_append_of_ne_nil _ Nat.toDigits_ne_nil]
      exact Nat.head?_toDigits_ne_zero hn
  have hdigits : natOfDigits (Nat.toDigits 10 n ++ List.replicate zeros '0' ++ ['0']) =
      10 ^ zeros * n * 10 := by
    rw [natOfDigits_append, natOfDigits_append, natOfDigits_toDigits, natOfDigits_zeros]
    simp [natOfDigits, Nat.mul_comm]
  have hle : 10 ^ zeros * n ≤ 10 ^ 16 := by
    have hn' : n < 10 ^ (Nat.toDigits 10 n).length := by
      simpa [natOfDigits_toDigits] using natOfDigits_lt (isDigit_of_mem_toDigits (n := n))
    calc 10 ^ zeros * n ≤ 10 ^ zeros * 10 ^ (Nat.toDigits 10 n).length :=
      Nat.mul_le_mul_left _ hn'.le
      _ = 10 ^ (zeros + (Nat.toDigits 10 n).length) := (pow_add ..).symm
      _ ≤ 10 ^ 16 := Nat.pow_le_pow_right (by decide) (by omega)
  refine ⟨_, ['0'], 0, scans_point hwhole isDigit_of_mem_zero (by decide) isTail_nil,
    .inr ⟨?_, rfl⟩⟩
  rw [hdigits, pow_succ]
  exact Nat.mul_le_mul_right 10 hle

/-- The point stands between two digits, with an exponent or without. -/
theorem laysOut_split {k : Nat} (hk : 0 < k) (hlt : k < (Nat.toDigits 10 n).length)
    {tail : List Char} {e : Int} {plain : Bool} (htail : IsTail tail e plain) :
    LaysOut ((Nat.toDigits 10 n).take k ++ '.' :: ((Nat.toDigits 10 n).drop k ++ tail)) n
      (e + k - (Nat.toDigits 10 n).length) := by
  have hfraction : ∀ d ∈ (Nat.toDigits 10 n).drop k, d.isDigit = true :=
    fun d hd => isDigit_of_mem_toDigits d (List.mem_of_mem_drop hd)
  have hne : (Nat.toDigits 10 n).drop k ≠ [] := by simpa using hlt
  refine ⟨_, _, e, scans_point (isWhole_take hn hk) hfraction hne htail, .inl ⟨?_, ?_⟩⟩
  · rw [List.take_append_drop, natOfDigits_toDigits]
  · rw [List.length_drop, Nat.cast_sub hlt.le, sub_sub_eq_add_sub]

/-- The digits are followed by an exponent only. -/
theorem laysOut_exponent (e : Int) :
    LaysOut (Nat.toDigits 10 n ++ 'e' :: (if e < 0 then '-' else '+') :: Nat.toDigits 10 e.natAbs) n
      e := by
  refine ⟨_, [], e, scans_exponent (isWhole_digits hn) (isTail_exponent e), .inl ⟨?_, ?_⟩⟩
  · rw [List.append_nil, natOfDigits_toDigits]
  · rw [List.length_nil, Nat.cast_zero, sub_zero]

/-- **Every layout** holds the digits of the decimal, or these with zeros behind them. -/
theorem laysOut_layout (k : Int) :
    LaysOut (Decimal.layout (Decimal.digitsText n) k).toList n
      (k - (Decimal.digitsText n).length) := by
  have hlength : (Decimal.digitsText n).length = (Nat.toDigits 10 n).length := by
    rw [← String.length_toList, toList_digitsText]
  have hpos : 0 < (Nat.toDigits 10 n).length := List.length_pos_iff.mpr Nat.toDigits_ne_nil
  unfold Decimal.layout
  rw [hlength]
  dsimp only
  split
  next hplain =>
    split
    next hwhole =>
      have hzeros : (k - (Nat.toDigits 10 n).length : Int) =
          ((k.toNat - (Nat.toDigits 10 n).length : Nat) : Int) := by omega
      have hlays := laysOut_whole hn (k.toNat - (Nat.toDigits 10 n).length) (by omega)
      rw [hzeros]
      simpa [toList_digitsText, Decimal.zeros] using hlays
    next hsplit =>
      have hlays := laysOut_split hn (by omega : 0 < k.toNat) (not_le.mp hsplit) isTail_nil
      have hk : (0 : Int) + k.toNat = k := by omega
      rw [hk] at hlays
      simpa [toList_digitsText] using hlays
  next =>
    split
    next hsmall =>
      have hlays := laysOut_small n (-k).toNat
      have hk : -((-k).toNat : Int) = k := by omega
      rw [hk] at hlays
      simpa [toList_digitsText, Decimal.zeros] using hlays
    next =>
      have hsign : (if k < 1 then "-" else "+").toList = [if k < 1 then '-' else '+'] := by
        split <;> rfl
      split
      next hone =>
        have hlays := laysOut_exponent hn (k - 1)
        have hk : k - ((Nat.toDigits 10 n).length : Int) = k - 1 := by omega
        rw [hk]
        simpa [toList_digitsText, hsign] using hlays
      next hmore =>
        have hlays := laysOut_split hn Nat.one_pos (not_le.mp hmore) (isTail_exponent (k - 1))
        have hk : k - 1 + ((1 : Nat) : Int) = k := by omega
        rw [hk] at hlays
        simpa [toList_digitsText, hsign] using hlays

end Layouts

/-- So has the text of a decimal. -/
theorem laysOut_text {d : Decimal} (h : d.digits ≠ 0) :
    LaysOut d.text.toList d.digits d.exponent := by
  have hlays := laysOut_layout h (d.exponent + (Decimal.digitsText d.digits).length)
  rw [Decimal.text, if_neg h]
  simpa using hlays

/-! ## Significands -/

/-- More digits make no value smaller. -/
theorem le_foldl_digits (n : Nat) (digits : List Char) :
    n ≤ digits.foldl (fun n c => 10 * n + (c.toNat - '0'.toNat)) n := by
  induction digits generalizing n with
  | nil => exact Nat.le_refl n
  | cons c digits ih =>
    have hnext : n ≤ 10 * n + (c.toNat - '0'.toNat) := by omega
    exact Nat.le_trans hnext (ih _)

/-- Digits that fit into 64 bits are all taken. -/
theorem takeDigits_of_lt {n : Nat} {digits : List Char}
    (h : digits.foldl (fun n c => 10 * n + (c.toNat - '0'.toNat)) n < 2 ^ 64) :
    takeDigits n digits = (digits.foldl (fun n c => 10 * n + (c.toNat - '0'.toNat)) n, []) := by
  induction digits generalizing n with
  | nil => rfl
  | cons c digits ih =>
    rw [List.foldl_cons] at h
    have hlt : 10 * n + (c.toNat - '0'.toNat) < 2 ^ 64 :=
      Nat.lt_of_le_of_lt (le_foldl_digits _ digits) h
    rw [takeDigits, Text.appendDigit?_of_lt hlt, Option.elim_some, ih h, List.foldl_cons]

/-- **Digits that fit into 64 bits are all significant.** -/
theorem significand_of_lt {p : NumberParts} (h : natOfDigits (p.whole ++ p.fraction) < 2 ^ 64) :
    p.significand = (natOfDigits (p.whole ++ p.fraction), p.exponent - p.fraction.length) := by
  rw [natOfDigits, List.foldl_append] at h ⊢
  rw [significand, takeDigits_of_lt (Nat.lt_of_le_of_lt (le_foldl_digits _ p.fraction) h)]
  dsimp only
  rw [takeDigits_of_lt h]
  simp

/-! ## Products and quotients -/

open Rounding (IsTame isTame_ofNat Machine)

/-- A product or quotient in range is read as a number. -/
theorem exists_double?_of_isTame {p : NumberParts} {n : Nat} {e : Int} {f : Float}
    (hp : p.significand = (n, e)) (hscale : scale? (Float.ofNat n) e = some f) {k : Nat}
    (hf : IsTame k f) : ∃ x, p.double? = some x := by
  rw [double?, hp]
  dsimp only
  rw [hscale, Option.bind_some]
  split
  next => exact hf.neg.exists_ofFloat?
  next => exact hf.exists_ofFloat?

/-- With a negative exponent the number is a quotient. -/
theorem exists_double?_of_neg {p : NumberParts} {n : Nat} {e : Int} (hp : p.significand = (n, e))
    (hn : n ≤ 2 ^ 64) (he : e < 0) : ∃ x, p.double? = some x := by
  obtain ⟨places, rfl⟩ := Int.eq_negSucc_of_lt_zero he
  exact exists_double?_of_isTame hp rfl (isTame_shrink (by decide) (isTame_ofNat hn) (places + 1))

/-- **The text of a machine number is not refused.** -/
theorem exists_double?_of_laysOut {x : Binary} (hx : Machine x) {p : NumberParts}
    (h : (natOfDigits (p.whole ++ p.fraction) = x.shortest.digits ∧
      p.exponent - p.fraction.length = x.shortest.exponent) ∨
      (natOfDigits (p.whole ++ p.fraction) ≤ 10 ^ 17 ∧ p.exponent - p.fraction.length = -1)) :
      ∃ y, p.double? = some y := by
  have hle : natOfDigits (p.whole ++ p.fraction) ≤ 10 ^ 17 :=
    h.elim (fun h => h.1.trans_le hx.digits_shortest_le) And.left
  have hp := significand_of_lt (hle.trans_lt (by decide))
  rcases h with ⟨hdigits, hexponent⟩ | ⟨-, hexponent⟩
  · obtain ⟨f, hscale, hf⟩ := exists_scale?_shortest hx
    rw [hdigits, hexponent] at hp
    exact exists_double?_of_isTame hp hscale hf
  · rw [hexponent] at hp
    exact exists_double?_of_neg hp (hle.trans (by decide)) (by decide)

end NumberParts

/-! ## Binary64 numbers -/

namespace Double

open NumberParts

/-- The text of a number without its sign is cut into parts that are read as a number. -/
theorem exists_scans_text (x : Double) :
    ∃ whole fraction e, Scans (Binary.ofBits x.magnitude).shortest.text.toList whole fraction e ∧
      ∀ negative, ∃ y, double? ⟨negative, whole, fraction, e, false⟩ = some y := by
  by_cases h : x.magnitude = 0
  · rw [h]
    refine ⟨['0'], ['0'], 0, scans_point isWhole_zero isDigit_of_mem_zero (by decide) isTail_nil,
      fun negative => ?_⟩
    have hzero : natOfDigits (['0'] ++ ['0']) = 0 := by decide
    exact exists_double?_of_neg (significand_of_lt (hzero.trans_lt (by decide)))
      (hzero.trans_le (Nat.zero_le _)) neg_one_lt_zero
  · have hmachine := machine h
    obtain ⟨whole, fraction, e, hscans, hparts⟩ :=
      laysOut_text (Binary.digits_shortest_ne_zero hmachine.pos.ne')
    exact ⟨whole, fraction, e, hscans, fun negative => exists_double?_of_laysOut hmachine hparts⟩

end Double

namespace Number

open NumberParts

/-- A binary64 number is read as one. -/
theorem exists_readAs_double (x : Double) : ∃ y, (Number.double x).ReadAs (.double y) := by
  obtain ⟨whole, fraction, e, hscans, hdouble⟩ := x.exists_scans_text
  obtain ⟨y, hy⟩ := hdouble x.isNegative
  refine ⟨y, ?_⟩
  obtain ⟨c, cs, hfirst, hdigit⟩ := hscans.starts
  have hparts (negative : Bool) : number? ⟨negative, whole, fraction, e, false⟩ =
      (double? ⟨negative, whole, fraction, e, false⟩).map .double := rfl
  cases hsign : x.isNegative with
  | true =>
    have htext : (Number.double x).text.toList =
        '-' :: (Binary.ofBits x.magnitude).shortest.text.toList := by
      simp [Number.text, Double.text, hsign]
    rw [hsign] at hy
    refine ⟨⟨'-', _, htext, by simp⟩, ?_, ?_⟩
    · rw [htext]
      exact List.forall_mem_cons.mpr ⟨by decide, hscans.continues⟩
    · rw [htext, NumberParts.ofChars?, hscans.parts, Option.bind_some, hparts, hy]
      rfl
  | false =>
    have htext : (Number.double x).text.toList =
        (Binary.ofBits x.magnitude).shortest.text.toList := by
      simp [Number.text, Double.text, hsign]
    rw [hsign] at hy
    -- a digit is no sign
    have hunsigned : NumberParts.ofChars? (Binary.ofBits x.magnitude).shortest.text.toList =
        ofUnsigned? false (Binary.ofBits x.magnitude).shortest.text.toList := by
      rw [hfirst]
      unfold NumberParts.ofChars?
      split
      next heq =>
        cases heq
        cases hdigit
      next => rfl
    refine ⟨⟨c, cs, htext.trans hfirst, by simp [hdigit]⟩, ?_, ?_⟩
    · rw [htext]
      exact hscans.continues
    · rw [htext, hunsigned, hscans.parts, Option.bind_some, hparts, hy]
      rfl

/-! ## What is read -/

/-- The number that is read from what is written of a number. -/
def reread (n : Number) : Number :=
  ((NumberParts.ofChars? n.text.toList).bind NumberParts.number?).getD n

theorem ReadAs.reread_eq {n m : Number} (h : n.ReadAs m) : n.reread = m := by
  rw [reread, h.denotes, Option.getD_some]

theorem reread_int (i : JsonInt) : (Number.int i).reread = .int i :=
  (readAs_int i).reread_eq

/-- **What is written of a number is read as a number.** -/
theorem readAs_reread (n : Number) : n.ReadAs n.reread := by
  cases n with
  | int i =>
    rw [reread_int]
    exact readAs_int i
  | double x =>
    obtain ⟨y, hy⟩ := exists_readAs_double x
    rw [hy.reread_eq]
    exact hy

end Number

end ItemStore
