import ItemStore.Proofs.Decimal.Machine

/-!
# Sums of integers as machine numbers

Integers of a document are no greater than `2 ^ 64`, and neither are the machine numbers next to
them. So the sum of two of them is far from the end of the range: it is always a finite number
(`Double.exists_ofFloat?_add`). The bound that carries this from the terms to the sum is `IsTame`: a
machine number of that kind is finite and at most a given power of two.
-/

namespace ItemStore

open Float.Model Float.Model.UnpackedFloat

namespace Rounding

variable {v : ℚ} {r : Nat} {t : Int} {k : Nat}

/-- A value up to a power of two has 53 bits up to there, unless the exponent is the least one. -/
theorem Rounds.exponent_le (h : Rounds v r t) (hv : v ≤ 2 ^ k) : t = -1074 ∨ t + 52 ≤ k := by
  refine h.normal.imp_right fun hnormal => ?_
  have hle : (2 : ℚ) ^ (t + 52) ≤ 2 ^ (k : Int) := by
    rw [zpow_natCast]
    exact hnormal.trans hv
  exact (zpow_le_zpow_iff_right₀ (by norm_num)).mp hle

/-- Rounding does not pass a power of two. -/
theorem Rounds.le (h : Rounds v r t) (hv : v ≤ 2 ^ k) : (r : ℚ) * 2 ^ t ≤ 2 ^ k := by
  have hunit : (0 : ℚ) < 2 ^ t := by positivity
  have ht : t ≤ k := by
    have := h.exponent_le hv
    omega
  obtain ⟨n, hn⟩ : ∃ n : Nat, (k : Int) = n + t := ⟨(k - t).toNat, by omega⟩
  have hpow : (2 : ℚ) ^ k = 2 ^ n * 2 ^ t := by
    rw [← zpow_natCast, hn, zpow_add₀ (by norm_num), zpow_natCast]
  -- the power is a whole number of units, so the nearest one is not above it
  have hscaled : v / 2 ^ t ≤ 2 ^ n := by
    rw [div_le_iff₀ hunit, ← hpow]
    exact hv
  have hr : (r : ℚ) < ((2 ^ n + 1 : Nat) : ℚ) := by
    push_cast
    linarith [h.nearest.sub_le]
  have hr' : (r : ℚ) ≤ 2 ^ n := by exact_mod_cast Nat.le_of_lt_succ (by exact_mod_cast hr)
  rw [hpow]
  exact mul_le_mul_of_nonneg_right hr' hunit.le

/-- What a value is rounded to is a number of the machine, unless it is zero or too great. -/
theorem Rounds.exists_machine (h : Rounds v r t) (hr : r ≠ 0)
    (hlt : (r : ℚ) * 2 ^ t < 2 ^ (1024 : Int)) (s : Sign) :
    ∃ (x : Binary) (hx : Machine x), x.value = r * 2 ^ t ∧
      settle s r t = .finite s x.mantissa x.exponent hx.pos := by
  have hleast := h.least
  have hunit : (0 : ℚ) < 2 ^ t := by positivity
  -- the bits of the mantissa and the exponent together are no more than 1024
  have hbits {k : Nat} (hk : 2 ^ k ≤ r) : t + k < 1024 := by
    have hle : (2 : ℚ) ^ (t + (k : Int)) ≤ r * 2 ^ t := by
      rw [zpow_add₀ (by norm_num), zpow_natCast, mul_comm]
      exact mul_le_mul_of_nonneg_right (by exact_mod_cast hk) hunit.le
    exact (zpow_lt_zpow_iff_right₀ (by norm_num)).mp (hle.trans_lt hlt)
  rcases h.le_two_pow.lt_or_eq with hr53 | rfl
  · have hgreatest : t ≤ 971 := by
      rcases h.two_pow_le with hmin | hmantissa
      · omega
      · have := hbits hmantissa
        omega
    have hx : Machine ⟨r, t, r = 2 ^ 52 ∧ -1074 < t⟩ :=
      ⟨Nat.pos_of_ne_zero hr, hr53, hleast, hgreatest, h.two_pow_le, by simp⟩
    exact ⟨_, hx, rfl, by rw [settle_of_lt hr53, dif_neg hr]⟩
  -- one of 54 bits is halved
  · have hgreatest : t + 1 ≤ 971 := by
      have := hbits (k := 53) le_rfl
      omega
    have hx : Machine ⟨2 ^ 52, t + 1, true⟩ :=
      ⟨Nat.two_pow_pos 52, Nat.pow_lt_pow_right (by decide) (by decide), by dsimp only; omega,
        hgreatest, .inr le_rfl, by simp; omega⟩
    refine ⟨_, hx, ?_, settle_two_pow s t⟩
    rw [Binary.value, zpow_add_one₀ (by norm_num)]
    push_cast
    ring

/-- An unpacked float that is zero, or a finite machine number no greater than `2 ^ k`. -/
inductive Tame (k : Nat) : UnpackedFloat → Prop where
  | zero (s : Sign) : Tame k (.zero s)
  | finite (s : Sign) {x : Binary} (hx : Machine x) (hle : x.value ≤ 2 ^ k) : Tame k
      (.finite s x.mantissa x.exponent hx.pos)

/-- What a value is rounded to is tame if it is in range. -/
theorem Rounds.tame_of_le (h : Rounds v r t) (hle : (r : ℚ) * 2 ^ t ≤ 2 ^ k)
    (hlt : (r : ℚ) * 2 ^ t < 2 ^ (1024 : Int)) (s : Sign) : Tame k (settle s r t) := by
  by_cases hzero : r = 0
  · subst hzero
    exact .zero s
  · obtain ⟨x, hx, hvalue, heq⟩ := h.exists_machine hzero hlt s
    rw [heq]
    exact .finite s hx (hvalue.trans_le hle)

/-- A moderate value is rounded to a tame number. -/
theorem Rounds.tame (h : Rounds v r t) (hv : v ≤ 2 ^ k) (hk : k ≤ 1023) (s : Sign) :
    Tame k (settle s r t) := by
  refine h.tame_of_le (h.le hv) ((h.le hv).trans_lt ?_) s
  rw [← zpow_natCast]
  exact zpow_lt_zpow_right₀ (by norm_num) (by omega)

namespace Tame

variable {u w : UnpackedFloat}

theorem unpack_pack (h : Tame k u) : (Float.Model.pack u).unpack = u := by
  cases h with
  | zero s => cases s <;> rfl
  | finite s hx => exact hx.unpack_pack s

theorem neg (h : Tame k u) : Tame k (UnpackedFloat.neg u) := by
  cases h with
  | zero s => exact .zero (-s)
  | finite s hx hle => exact .finite (-s) hx hle

theorem mono (h : Tame k u) {l : Nat} (hkl : k ≤ l) : Tame l u := by
  cases h with
  | zero s => exact .zero s
  | finite s hx hle => exact .finite s hx (hle.trans (pow_le_pow_right₀ (by norm_num) hkl))

/-- Tame floats have finite bits. -/
theorem exists_ofFloat? (h : Tame k u) : ∃ x, Double.ofFloat? (.ofModel (.pack u)) = some x := by
  have hbits : (UnpackedFloat.pack Format.binary64 u).toNat / 2 ^ 52 % 2 ^ 11 ≠ 2047 := by
    cases h with
    | zero s => cases s <;> decide
    | @finite s x hx hle =>
      have hexponent := hx.greatest
      have hmantissa := hx.lt_two_pow
      rw [hx.toNat_pack]
      split <;> omega
  have hfinite : ((UInt64.ofBitVec (UnpackedFloat.pack Format.binary64 u)) >>> 52) &&& 0x7FF ≠
      0x7FF := fun heq =>
    hbits ((Double.toNat_exponentField _).symm.trans (congrArg UInt64.toNat heq))
  exact ⟨_, dif_pos hfinite⟩

end Tame

/-! ## Adding -/

/-- A sum of two signed naturals at a common exponent. -/
private theorem tame_normalize {m : Int} {e : Int} (hm : |(m : ℚ)| * 2 ^ e ≤ 2 ^ k)
    (hk : k ≤ 1023) :
    Tame k (UnpackedFloat.normalize Format.binary64 m e .positive) := by
  rw [UnpackedFloat.normalize]
  rcases lt_trichotomy m 0 with h | h | h
  · rw [compare_lt_iff_lt.mpr h]
    obtain ⟨r, t, hrounds, heq⟩ := exists_rounds_round (show (-m).toNat ≠ 0 by omega) e .negative
    have habs : (((-m).toNat : Nat) : ℚ) = |(m : ℚ)| := by
      rw [abs_of_neg (by exact_mod_cast h)]
      exact_mod_cast Int.toNat_of_nonneg (by omega : 0 ≤ -m)
    rw [habs] at hrounds
    simp only [heq]
    exact hrounds.tame hm hk .negative
  · rw [compare_eq_iff_eq.mpr h]
    exact .zero .positive
  · rw [compare_gt_iff_gt.mpr h]
    obtain ⟨r, t, hrounds, heq⟩ := exists_rounds_round (show m.toNat ≠ 0 by omega) e .positive
    have habs : ((m.toNat : Nat) : ℚ) = |(m : ℚ)| := by
      rw [abs_of_pos (by exact_mod_cast h)]
      exact_mod_cast Int.toNat_of_nonneg h.le
    rw [habs] at hrounds
    simp only [heq]
    exact hrounds.tame hm hk .positive

/-- Decreasing an exponent keeps the value, if the exponent is not below the new one. -/
private theorem decreaseExponent_value (m : Nat) {e target : Int} (h : target ≤ e) :
    ((decreaseExponent m e target).1 : ℚ) * 2 ^ target = m * 2 ^ e := by
  obtain ⟨n, rfl⟩ : ∃ n : Nat, e = target + n := ⟨(e - target).toNat, by omega⟩
  have hshift : (target + (n : Int) - target).toNat = n := by omega
  rw [decreaseExponent, hshift, Nat.shiftLeft_eq, zpow_add₀ (by norm_num), zpow_natCast]
  push_cast
  ring

private theorem abs_apply (s : Sign) (m : Nat) : |((s.apply m : Int) : ℚ)| = m := by
  cases s <;> simp [Sign.apply]

theorem Tame.add {u w : UnpackedFloat} (hu : Tame k u) (hw : Tame k w) (hk : k + 1 ≤ 1023) :
    Tame (k + 1) (UnpackedFloat.add Format.binary64 u w) := by
  cases hu with
  | zero s =>
    cases hw with
    | zero s' => cases s <;> cases s' <;> exact .zero _
    | finite s' hx' hle' => exact (Tame.finite s' hx' hle').mono (Nat.le_succ k)
  | @finite s x hx hle =>
    cases hw with
    | zero s' => exact (Tame.finite s hx hle).mono (Nat.le_succ k)
    | @finite s' x' hx' hle' =>
      refine tame_normalize ?_ hk
      have hunit : (0 : ℚ) < 2 ^ (min x.exponent x'.exponent) := by positivity
      calc |(((s.apply (decreaseExponent x.mantissa x.exponent (min x.exponent x'.exponent)).1 +
              s'.apply (decreaseExponent x'.mantissa x'.exponent (min x.exponent x'.exponent)).1 :
              Int)) : ℚ)| *
              2 ^ (min x.exponent x'.exponent)
          ≤ ((decreaseExponent x.mantissa x.exponent (min x.exponent x'.exponent)).1 +
              (decreaseExponent x'.mantissa x'.exponent (min x.exponent x'.exponent)).1) *
              2 ^ (min x.exponent x'.exponent) := by
            refine mul_le_mul_of_nonneg_right ?_ hunit.le
            rw [Int.cast_add]
            exact (abs_add_le _ _).trans_eq (by rw [abs_apply, abs_apply])
        _ = x.value + x'.value := by
            rw [add_mul, decreaseExponent_value _ (min_le_left _ _),
              decreaseExponent_value _ (min_le_right _ _)]
            rfl
        _ ≤ 2 ^ (k + 1) := by
            rw [pow_succ]
            linarith

/-! ## Floats -/

/-- A float that is zero, or a finite machine number no greater than `2 ^ k`. -/
def IsTame (k : Nat) (f : Float) : Prop :=
  ∃ u, Tame k u ∧ f = .ofModel (.pack u)

namespace IsTame

variable {f g : Float}

theorem mono (h : IsTame k f) {l : Nat} (hkl : k ≤ l) : IsTame l f := by
  obtain ⟨u, hu, heq⟩ := h
  exact ⟨u, hu.mono hkl, heq⟩

theorem exists_ofFloat? (h : IsTame k f) : ∃ x, Double.ofFloat? f = some x := by
  obtain ⟨u, hu, rfl⟩ := h
  exact hu.exists_ofFloat?

theorem neg (h : IsTame k f) : IsTame k (-f) := by
  obtain ⟨u, hu, rfl⟩ := h
  refine ⟨UnpackedFloat.neg u, hu.neg, ?_⟩
  change Float.ofModel (.pack (UnpackedFloat.neg (Float.Model.pack u).unpack)) = _
  rw [hu.unpack_pack]

theorem add (hf : IsTame k f) (hg : IsTame k g) (hk : k + 1 ≤ 1023) : IsTame (k + 1) (f + g) := by
  obtain ⟨u, hu, rfl⟩ := hf
  obtain ⟨w, hw, rfl⟩ := hg
  refine ⟨UnpackedFloat.add Format.binary64 u w, hu.add hw hk, ?_⟩
  change Float.ofModel (.pack (UnpackedFloat.add Format.binary64
    (Float.Model.pack u).unpack (Float.Model.pack w).unpack)) = _
  rw [hu.unpack_pack, hw.unpack_pack]

end IsTame

/-! ## Integers -/

/-- The machine number next to an integer of a document. -/
theorem isTame_ofNat {n : Nat} (h : n ≤ 2 ^ 64) : IsTame 64 (Float.ofNat n) := by
  by_cases hn : n = 0
  · subst hn
    exact ⟨.zero .positive, .zero _, rfl⟩
  · have hn' : (1 : ℚ) ≤ n := by exact_mod_cast Nat.pos_of_ne_zero hn
    have hle : (n : ℚ) * 10 ^ (0 : Int) ≤ 2 ^ 64 := by
      rw [zpow_zero, mul_one]
      exact_mod_cast h
    have hlow : (2 : ℚ) ^ (-2000 : Int) ≤ n * 10 ^ (0 : Int) := by
      rw [zpow_zero, mul_one]
      exact (zpow_le_one_of_nonpos₀ (by norm_num) (by decide)).trans hn'
    have hhigh : (n : ℚ) * 10 ^ (0 : Int) ≤ 2 ^ (2000 : Int) := by
      refine hle.trans ?_
      rw [← zpow_natCast]
      exact zpow_le_zpow_right₀ (by norm_num) (by decide)
    obtain ⟨r, t, hrounds, heq⟩ := ofScientific_eq_pack hn hlow hhigh
    exact ⟨_, hrounds.tame hle (by decide) .positive, heq⟩

theorem isTame_ofInt {i : Int} (h : |i| ≤ 2 ^ 64) : IsTame 64 (Float.ofInt i) := by
  cases i with
  | ofNat n =>
    exact isTame_ofNat (by simpa using h)
  | negSucc n =>
    have hle : n + 1 ≤ 2 ^ 64 := by
      rw [Int.abs_eq_natAbs, Int.natAbs_negSucc] at h
      omega
    exact (isTame_ofNat hle).neg

end Rounding

/-- **The sum of two integers is never too great for a machine number.** -/
theorem Double.exists_ofFloat?_add (i j : JsonInt) :
    ∃ x, Double.ofFloat? (Float.ofInt i.val + Float.ofInt j.val) = some x := by
  have habs (i : JsonInt) : |i.val| ≤ 2 ^ 64 := by
    have := i.lower
    have := i.upper
    rw [abs_le]
    omega
  exact ((Rounding.isTame_ofInt (habs i)).add (Rounding.isTame_ofInt (habs j))
    (by decide)).exists_ofFloat?

end ItemStore
