import ItemStore.Json.Parser
import ItemStore.Proofs.Decimal.Digits
import ItemStore.Proofs.Decimal.Sum

/-!
# Significands and powers of ten

A decimal is read by rounding its significand, rounding a power of ten, and rounding their product
or quotient once more. That may miss the nearest number. It does not leave the range, if the decimal
is the one that a machine number is printed as.

## Main results

- `NumberParts.isTame_shrink`: a quotient is never too great;
- `NumberParts.isTame_mul_tenTo`: a product is not, if the significand has seventeen digits and
  belongs to a machine number.

## Architecture

1. `Rounding.Rounds.le_mul` bounds the error of one rounding.
2. `NumberParts.exists_isMachine_tenTo` applies it to powers of ten.
3. Products at the very end of the range are told apart by their exponent: with `10 ^ 292` there is
   less than one unit between the last significand that can be printed and the first one whose
   product is infinite.
-/

namespace ItemStore

open Float.Model Float.Model.UnpackedFloat

namespace Rounding

variable {v w : ℚ} {r : Nat} {t : Int} {k : Nat}

/-! ## One rounding -/

/-- From here on a value is rounded to infinity: halfway between the greatest machine number and the
next power of two. -/
def overflow : ℚ :=
  2 ^ (1024 : Int) - 2 ^ (970 : Int)

/-- It lies half a unit below the next power of two. -/
theorem overflow_eq : overflow = (2 ^ 53 - 1 / 2) * 2 ^ (971 : Int) := by
  rw [overflow, show (1024 : Int) = 53 + 971 from rfl, zpow_add₀ (by norm_num), sub_mul,
    show (970 : Int) = 971 - 1 from rfl, zpow_sub_one₀ (by norm_num), mul_comm (1 / 2), one_div]
  rfl

/-- Below that point no power of two is reached. -/
theorem Rounds.lt_of_lt_overflow (h : Rounds v r t) (hv : v < overflow) :
    (r : ℚ) * 2 ^ t < 2 ^ (1024 : Int) := by
  have hunit : (0 : ℚ) < 2 ^ t := by positivity
  have hrange : v < 2 ^ (1024 : Int) := hv.trans (sub_lt_self _ (by positivity))
  have ht : t ≤ 971 := by
    rcases h.normal with hmin | hnormal
    · omega
    · have := (zpow_lt_zpow_iff_right₀ (by norm_num : (1 : ℚ) < 2)).mp (hnormal.trans_lt hrange)
      omega
  rcases ht.lt_or_eq with hlt | rfl
  · have hr : (r : ℚ) ≤ 2 ^ 53 := by exact_mod_cast h.le_two_pow
    calc (r : ℚ) * 2 ^ t ≤ 2 ^ 53 * 2 ^ t := mul_le_mul_of_nonneg_right hr hunit.le
      _ = 2 ^ (t + 53) := by
        rw [zpow_add₀ (by norm_num), mul_comm]
        rfl
      _ < 2 ^ (1024 : Int) := zpow_lt_zpow_right₀ (by norm_num) (by omega)
  · have hscaled : v / 2 ^ (971 : Int) < 2 ^ 53 - 1 / 2 := by
      rw [div_lt_iff₀ hunit, ← overflow_eq]
      exact hv
    have hr : (r : ℚ) < 2 ^ 53 := by linarith [h.nearest.sub_le]
    calc (r : ℚ) * 2 ^ (971 : Int) < 2 ^ 53 * 2 ^ (971 : Int) := mul_lt_mul_of_pos_right hr hunit
      _ = 2 ^ (1024 : Int) := by
        rw [← zpow_natCast, ← zpow_add₀ (by norm_num)]
        rfl

/-- A value from one on has an exponent that is not the least one. -/
theorem Rounds.unit_le (h : Rounds v r t) (hv : 1 ≤ v) : (2 : ℚ) ^ t ≤ v / 2 ^ 52 := by
  have hnormal : (2 : ℚ) ^ (t + 52) ≤ v := by
    refine h.normal.elim (fun hmin => ?_) id
    rw [hmin]
    exact (zpow_le_one_of_nonpos₀ (by norm_num) (by decide)).trans hv
  rw [le_div_iff₀ (by positivity)]
  rwa [zpow_add₀ (by norm_num)] at hnormal

/-- Rounding adds half a unit in the last place at most. -/
theorem Rounds.le_mul (h : Rounds v r t) (hv : 1 ≤ v) : (r : ℚ) * 2 ^ t ≤ v * (1 + 1 / 2 ^ 53) := by
  have hunit : (0 : ℚ) < 2 ^ t := by positivity
  have hnear : (r : ℚ) * 2 ^ t ≤ v + 1 / 2 * 2 ^ t := by
    have hsub := mul_le_mul_of_nonneg_right h.nearest.sub_le hunit.le
    rw [div_mul_cancel₀ _ hunit.ne'] at hsub
    linarith
  have := h.unit_le hv
  linarith

/-- Rounding does not pass one. -/
theorem Rounds.one_le (h : Rounds v r t) (hv : 1 ≤ v) : 1 ≤ (r : ℚ) * 2 ^ t := by
  have hunit : (0 : ℚ) < 2 ^ t := by positivity
  by_cases ht : 0 < t
  · have hr : (1 : ℚ) ≤ r := by
      have hmantissa : 2 ^ 52 ≤ r := h.two_pow_le.resolve_left (by omega)
      exact_mod_cast (Nat.one_le_two_pow (n := 52)).trans hmantissa
    exact one_le_mul_of_one_le_of_one_le hr (one_le_zpow₀ (by norm_num) ht.le)
  · -- one is a whole number of units, so the nearest one is not below it
    obtain ⟨n, rfl⟩ : ∃ n : Nat, t = -(n : Int) := ⟨(-t).toNat, by omega⟩
    rw [zpow_neg, zpow_natCast] at hunit ⊢
    have hscaled : (2 : ℚ) ^ n ≤ v / 2 ^ (-(n : Int)) := by
      rw [zpow_neg, zpow_natCast, div_inv_eq_mul]
      exact le_mul_of_one_le_left (by positivity) hv
    have hr : 2 ^ n ≤ r := by
      have hlt : ((2 ^ n : Nat) : ℚ) < ((r + 1 : Nat) : ℚ) := by
        push_cast
        linarith [h.nearest.le_add]
      exact Nat.le_of_lt_succ (by exact_mod_cast hlt)
    rw [← div_eq_mul_inv, one_le_div (by positivity)]
    exact_mod_cast hr

/-! ## Floats -/

/-- The float is this positive machine number. -/
structure IsMachine (f : Float) (x : Binary) : Prop where
  machine : Machine x
  eq : f = .ofModel (.pack (.finite .positive x.mantissa x.exponent machine.pos))

variable {f g : Float} {x y : Binary}

theorem IsMachine.unpack (h : IsMachine f x) :
    f.toModel.unpack = .finite .positive x.mantissa x.exponent h.machine.pos := by
  obtain ⟨hx, rfl⟩ := h
  exact hx.unpack_pack .positive

/-- A whole decimal in range is read as the machine number that its value is rounded to. -/
theorem exists_isMachine_ofScientific {n places : Nat} (hn : n ≠ 0)
    (hlt : (n : ℚ) * 10 ^ places < overflow) :
    ∃ x, IsMachine (Float.ofScientific n false places) x ∧
      ∃ r t, Rounds ((n : ℚ) * 10 ^ places) r t ∧ x.value = r * 2 ^ t := by
  have hone : (1 : ℚ) ≤ n * 10 ^ places :=
    one_le_mul_of_one_le_of_one_le (by exact_mod_cast Nat.pos_of_ne_zero hn)
      (one_le_pow₀ (by norm_num))
  have hlow : (2 : ℚ) ^ (-2000 : Int) ≤ n * 10 ^ (places : Int) := by
    rw [zpow_natCast]
    exact (zpow_le_one_of_nonpos₀ (by norm_num) (by decide)).trans hone
  have hhigh : (n : ℚ) * 10 ^ (places : Int) ≤ 2 ^ (2000 : Int) := by
    rw [zpow_natCast]
    exact (hlt.le.trans (sub_le_self _ (by positivity))).trans
      (zpow_le_zpow_right₀ (by norm_num) (by decide))
  obtain ⟨r, t, hrounds, heq⟩ := ofScientific_eq_pack hn hlow hhigh
  rw [zpow_natCast] at hrounds
  have hr : r ≠ 0 := by
    rintro rfl
    have := hrounds.one_le hone
    norm_num at this
  obtain ⟨x, hx, hvalue, hsettle⟩ :=
    hrounds.exists_machine hr (hrounds.lt_of_lt_overflow hlt) .positive
  refine ⟨x, ⟨hx, ?_⟩, r, t, hrounds, hvalue⟩
  have hsign : decide ((places : Int) < 0) = false := by simp
  rw [hsign, Int.natAbs_natCast, hsettle] at heq
  exact heq

/-- A number from one on has all 53 bits. -/
theorem Machine.two_pow_le_mantissa (hx : Machine x) (hone : 1 ≤ x.value) :
    2 ^ 52 ≤ x.mantissa := by
  refine hx.normal.resolve_left fun hmin => ?_
  have hmantissa : (x.mantissa : ℚ) < 2 ^ 53 := by exact_mod_cast hx.lt_two_pow
  have hlt : x.value < 1 := by
    rw [Binary.value, hmin]
    calc (x.mantissa : ℚ) * 2 ^ (-1074 : Int) < 2 ^ 53 * 2 ^ (-1074 : Int) :=
          mul_lt_mul_of_pos_right hmantissa (by positivity)
      _ = 2 ^ (-1021 : Int) := by
        rw [← zpow_natCast, ← zpow_add₀ (by norm_num)]
        rfl
      _ ≤ 1 := zpow_le_one_of_nonpos₀ (by norm_num) (by decide)
  exact absurd hone (not_le.mpr hlt)

/-- A product in range. -/
theorem IsMachine.isTame_mul (hf : IsMachine f x) (hg : IsMachine g y) (hone : 1 ≤ x.value)
    (hlt : x.value * y.value < overflow) : IsTame 1024 (f * g) := by
  have hroom : 2 ^ 52 ≤ x.mantissa * y.mantissa :=
    (hf.machine.two_pow_le_mantissa hone).trans (Nat.le_mul_of_pos_right _ hg.machine.pos)
  obtain ⟨r, t, hrounds, heq⟩ :=
    exists_rounds_mul hroom x.exponent y.exponent .positive .positive hf.machine.pos hg.machine.pos
  have hrange := hrounds.lt_of_lt_overflow hlt
  refine ⟨_, hrounds.tame_of_le ?_ hrange .positive, ?_⟩
  · rw [← zpow_natCast]
    exact hrange.le
  · change Float.ofModel
      (.pack (UnpackedFloat.mul Format.binary64 f.toModel.unpack g.toModel.unpack)) = _
    rw [hf.unpack, hg.unpack, heq]
    rfl

/-- A quotient by a number from one on. -/
theorem IsTame.div (hf : IsTame k f) (hg : IsMachine g y) (hone : 1 ≤ y.value) (hk : k ≤ 1023) :
    IsTame k (f / g) := by
  obtain ⟨u, hu, rfl⟩ := hf
  refine ⟨UnpackedFloat.div Format.binary64 u
    (.finite .positive y.mantissa y.exponent hg.machine.pos), ?_, ?_⟩
  · cases hu with
    | zero s => exact .zero _
    | @finite s x hx hle =>
      obtain ⟨r, t, hrounds, heq⟩ :=
        exists_rounds_div x.exponent y.exponent s .positive hx.pos hg.machine.pos
      rw [heq]
      have hpos : 0 ≤ x.value := by
        rw [Binary.value]
        positivity
      exact hrounds.tame ((div_le_self hpos hone).trans hle) hk _
  · change Float.ofModel
      (.pack (UnpackedFloat.div Format.binary64 (Float.Model.pack u).unpack g.toModel.unpack)) = _
    rw [hu.unpack_pack, hg.unpack]

end Rounding

namespace NumberParts

open Rounding

/-! ## Powers of ten -/

theorem ten_pow_lt_overflow : (10 : ℚ) ^ 308 < overflow := by
  have hlt : 10 ^ 308 + 2 ^ 970 < 2 ^ 1024 := by decide +kernel
  rw [overflow, lt_sub_iff_add_lt]
  exact_mod_cast hlt

/-- A power of ten up to the last that is finite. -/
theorem exists_isMachine_tenTo {places : Nat} (h : places ≤ 308) :
    ∃ x, IsMachine (tenTo places) x ∧ 1 ≤ x.value ∧ x.value ≤ 10 ^ places * (1 + 1 / 2 ^ 53) := by
  have hlt : ((1 : Nat) : ℚ) * 10 ^ places < overflow := by
    rw [Nat.cast_one, one_mul]
    exact (pow_le_pow_right₀ (by norm_num) h).trans_lt ten_pow_lt_overflow
  have hone : (1 : ℚ) ≤ ((1 : Nat) : ℚ) * 10 ^ places := by
    rw [Nat.cast_one, one_mul]
    exact one_le_pow₀ (by norm_num)
  obtain ⟨x, hx, r, t, hrounds, hvalue⟩ := exists_isMachine_ofScientific one_ne_zero hlt
  refine ⟨x, hx, hvalue ▸ hrounds.one_le hone, ?_⟩
  have hle := hrounds.le_mul hone
  rwa [← hvalue, Nat.cast_one, one_mul] at hle

/-- **A quotient by a power of ten** stays below the bound of the dividend. -/
theorem isTame_shrink {k : Nat} (hk : k ≤ 1023) {x : Float} (hx : IsTame k x) (places : Nat) :
    IsTame k (shrink x places) := by
  fun_induction shrink x places with
  | case1 x places hle =>
    obtain ⟨y, hy, hone, -⟩ := exists_isMachine_tenTo hle
    exact hx.div hy hone hk
  | case2 => exact hx
  | case3 x places _ _ ih =>
    obtain ⟨y, hy, hone, -⟩ := exists_isMachine_tenTo (le_refl 308)
    exact ih (hx.div hy hone hk)

/-! ## Products -/

/-- The greatest significand that is printed with `10 ^ 292` is rounded down, to an even number. -/
theorem rounds_last {n r : Nat} {t : Int} (h : Rounds n r t) (hn : n ≤ 17976931348623157) :
    (r : ℚ) * 2 ^ t ≤ 17976931348623156 := by
  have hn' : (n : ℚ) ≤ 17976931348623157 := by exact_mod_cast hn
  have ht : t ≤ 1 := by
    rcases h.normal with hmin | hnormal
    · omega
    · have hlt : (2 : ℚ) ^ (t + 52) < 2 ^ (54 : Int) := by
        refine hnormal.trans_lt (hn'.trans_lt ?_)
        norm_num
      have := (zpow_lt_zpow_iff_right₀ (by norm_num)).mp hlt
      omega
  rcases ht.lt_or_eq with hlt | rfl
  · have hr : (r : ℚ) ≤ 2 ^ 53 := by exact_mod_cast h.le_two_pow
    have hunit : (2 : ℚ) ^ t ≤ 1 := zpow_le_one_of_nonpos₀ (by norm_num) (by omega)
    calc (r : ℚ) * 2 ^ t ≤ 2 ^ 53 * 1 := mul_le_mul hr hunit (by positivity) (by positivity)
      _ ≤ 17976931348623156 := by norm_num
  · -- with a unit of two the significand lies halfway between two neighbours
    have hr : r ≤ 8988465674311578 := by
      by_contra hgreat
      have hr' : (8988465674311579 : ℚ) ≤ r := by exact_mod_cast not_le.mp hgreat
      have hnear := h.nearest.above
      rw [zpow_one] at hnear
      rcases hnear with hlt | ⟨heven, heq⟩
      · linarith
      · have hodd : r = 8988465674311579 := by
          exact_mod_cast (by linarith : (r : ℚ) = 8988465674311579)
        omega
    have hr' : (r : ℚ) ≤ 8988465674311578 := by exact_mod_cast hr
    rw [zpow_one]
    linarith

/-- The greatest decimal in range that has sixteen digits. -/
def lastOfSixteen : Nat :=
  1797693134862315 * 10 ^ 293

/-- Up to it the two roundings do not lead out of range. -/
theorem mul_lt_overflow {a b : ℚ} (hle : a * b ≤ lastOfSixteen) :
    a * (1 + 1 / 2 ^ 53) * (b * (1 + 1 / 2 ^ 53)) < overflow := by
  have hconst : lastOfSixteen * (2 ^ 53 + 1) ^ 2 + 2 ^ 970 * 2 ^ 106 < 2 ^ 1024 * 2 ^ 106 := by
    decide +kernel
  have hfactor : a * (1 + 1 / 2 ^ 53) * (b * (1 + 1 / 2 ^ 53)) =
      a * b * (2 ^ 53 + 1) ^ 2 / 2 ^ 106 := by
    field_simp
  rw [hfactor, overflow, div_lt_iff₀ (by positivity), sub_mul, lt_sub_iff_add_lt]
  refine (add_le_add_left (mul_le_mul_of_nonneg_right hle (by positivity)) _).trans_lt ?_
  exact_mod_cast hconst

/-- A decimal in range that is not one of the last is bounded by the last with sixteen digits. -/
theorem le_lastOfSixteen {n places : Nat} (hdigits : n ≤ 10 ^ 17)
    (hlt : n * 10 ^ places + 2 ^ 970 < 2 ^ 1024) (hlast : places ≠ 292) :
    n * 10 ^ places ≤ lastOfSixteen := by
  rcases Nat.lt_or_gt_of_ne hlast with hsmall | hgreat
  · calc n * 10 ^ places ≤ 10 ^ 17 * 10 ^ 291 :=
          Nat.mul_le_mul hdigits (Nat.pow_le_pow_right (by decide) (Nat.le_of_lt_succ hsmall))
      _ ≤ lastOfSixteen := by decide +kernel
  · obtain ⟨k, rfl⟩ : ∃ k, places = k + 293 := ⟨places - 293, by omega⟩
    obtain ⟨unit, hunit⟩ : ∃ unit, unit = 10 ^ 293 := ⟨_, rfl⟩
    have hconst : 2 ^ 1024 ≤ 1797693134862316 * unit + 2 ^ 970 := by
      rw [hunit]
      decide +kernel
    rw [pow_add, ← mul_assoc, ← hunit] at hlt
    rw [lastOfSixteen, pow_add, ← mul_assoc, ← hunit]
    refine Nat.mul_le_mul_right _ (Nat.le_of_lt_succ (not_le.mp fun hnext => ?_))
    exact absurd hlt
      (not_lt.mpr (hconst.trans (Nat.add_le_add_right (Nat.mul_le_mul_right _ hnext) _)))

/-- The last product with `10 ^ 292` stays in range as well. -/
theorem last_mul_lt_overflow {a b : ℚ} (hb : 0 ≤ b) (ha : a ≤ 17976931348623156)
    (hle : b ≤ 10 ^ 292 * (1 + 1 / 2 ^ 53)) :
    a * b < overflow := by
  have hconst : 17976931348623156 * 10 ^ 292 * (2 ^ 53 + 1) + 2 ^ 970 * 2 ^ 53 <
      2 ^ 1024 * 2 ^ 53 := by decide +kernel
  have hfactor (c : ℚ) : 17976931348623156 * (c * (1 + 1 / 2 ^ 53)) =
      17976931348623156 * c * (2 ^ 53 + 1) / 2 ^ 53 := by
    field_simp
  refine (mul_le_mul ha hle hb (by norm_num)).trans_lt ?_
  rw [hfactor, overflow, div_lt_iff₀ (by positivity), sub_mul, lt_sub_iff_add_lt]
  exact_mod_cast hconst

/-- The power of ten of a decimal in range is finite. -/
theorem places_le {n places : Nat} (hn : n ≠ 0) (hlt : n * 10 ^ places + 2 ^ 970 < 2 ^ 1024) :
    places ≤ 308 := by
  by_contra hgreat
  obtain ⟨k, rfl⟩ : ∃ k, places = 309 + k := ⟨places - 309, by omega⟩
  obtain ⟨unit, hunit⟩ : ∃ unit, unit = 10 ^ 309 := ⟨_, rfl⟩
  have hconst : 2 ^ 1024 ≤ unit := by
    rw [hunit]
    decide +kernel
  have hle : unit ≤ n * 10 ^ (309 + k) := by
    rw [pow_add, ← hunit, ← mul_assoc, mul_right_comm]
    exact Nat.le_mul_of_pos_left _ (Nat.mul_pos (Nat.pos_of_ne_zero hn) (Nat.pow_pos (by decide)))
  exact absurd hlt (not_lt.mpr (Nat.le_add_right_of_le (hconst.trans hle)))

/-- **A product with a power of ten** is in range, if the decimal is in range, has no more than
seventeen digits, and is not one of the last before the end. -/
theorem isTame_mul_tenTo {n places : Nat} (hn : n ≠ 0) (hdigits : n ≤ 10 ^ 17)
    (hlt : (n : ℚ) * 10 ^ places < overflow) (hlast : places = 292 → n ≤ 17976931348623157) :
    places ≤ 308 ∧ IsTame 1024 (Float.ofNat n * tenTo places) := by
  have hone : (1 : ℚ) ≤ n := by exact_mod_cast Nat.pos_of_ne_zero hn
  have hnat : n * 10 ^ places + 2 ^ 970 < 2 ^ 1024 := by
    rw [overflow, lt_sub_iff_add_lt] at hlt
    exact_mod_cast hlt
  have hplaces := places_le hn hnat
  refine ⟨hplaces, ?_⟩
  obtain ⟨y, hy, hyone, hyle⟩ := exists_isMachine_tenTo hplaces
  have hnlt : (n : ℚ) * 10 ^ 0 < overflow := by
    refine lt_of_le_of_lt ?_ hlt
    exact mul_le_mul_of_nonneg_left (pow_le_pow_right₀ (by norm_num) (Nat.zero_le _))
      (by positivity)
  obtain ⟨x, hx, r, t, hrounds, hvalue⟩ := exists_isMachine_ofScientific hn hnlt
  rw [pow_zero, mul_one] at hrounds
  refine IsMachine.isTame_mul hx hy (hvalue ▸ hrounds.one_le hone) ?_
  by_cases heq : places = 292
  · subst heq
    have hxle : x.value ≤ 17976931348623156 := hvalue ▸ rounds_last hrounds (hlast rfl)
    exact last_mul_lt_overflow (by linarith) hxle hyle
  · have hxle : x.value ≤ n * (1 + 1 / 2 ^ 53) := hvalue ▸ hrounds.le_mul hone
    have hbound : (n : ℚ) * 10 ^ places ≤ lastOfSixteen := by
      exact_mod_cast le_lastOfSixteen hdigits hnat heq
    exact (mul_le_mul hxle hyle (by linarith) (by positivity)).trans_lt (mul_lt_overflow hbound)

/-! ## Printed numbers -/

/-- Halfway to the number above, in units of the greatest machine numbers. -/
theorem upper_le {x : Binary} (hx : Machine x) {m : Nat} (hm : x.mantissa ≤ m) :
    x.upper ≤ (m + 1 / 2) * 2 ^ (971 : Int) := by
  rw [Binary.upper]
  have hm' : (x.mantissa : ℚ) ≤ m := by exact_mod_cast hm
  exact mul_le_mul (by linarith) (zpow_le_zpow_right₀ (by norm_num) hx.greatest) (by positivity)
    (by positivity)

/-- A value that a machine number stands for is in range. -/
theorem lt_overflow_of_standsFor {x : Binary} (hx : Machine x) {v : ℚ} (h : x.StandsFor v) :
    v < overflow := by
  have hlt := hx.lt_two_pow
  have hunit : (0 : ℚ) < 2 ^ (971 : Int) := by positivity
  rw [overflow_eq]
  rcases h.below with hbelow | ⟨heven, rfl⟩
  · have hupper := upper_le hx (m := 2 ^ 53 - 1) (by omega)
    refine hbelow.trans_le (hupper.trans_eq ?_)
    norm_num
  · -- the greatest mantissa is odd
    have hupper := upper_le hx (m := 2 ^ 53 - 2) (by omega)
    exact hupper.trans_lt (mul_lt_mul_of_pos_right (by norm_num) hunit)

/-- The greatest machine number is printed with the significand that is rounded down. -/
theorem shortest_greatest :
    (Binary.mk 9007199254740991 971 false).shortest = ⟨17976931348623157, 292⟩ := by
  decide +kernel

/-- The others stay below the next significand. -/
theorem upper_le_of_ne_greatest {x : Binary} (hx : Machine x)
    (h : ¬(x.mantissa = 9007199254740991 ∧ x.exponent = 971)) :
    x.upper ≤ (2 ^ 53 - 3 / 2) * 2 ^ (971 : Int) := by
  have hlt := hx.lt_two_pow
  have hgreatest := hx.greatest
  by_cases hexponent : x.exponent = 971
  · have hupper := upper_le hx (m := 2 ^ 53 - 2) (by omega)
    refine hupper.trans_eq ?_
    norm_num
  · -- the exponent is less by one at least, which halves the value
    have hmantissa : (x.mantissa : ℚ) ≤ 2 ^ 53 := by exact_mod_cast hlt.le
    have hhalf : (2 : ℚ) ^ x.exponent ≤ 1 / 2 * 2 ^ (971 : Int) := by
      have hle : (2 : ℚ) ^ x.exponent ≤ 2 ^ (971 - 1 : Int) :=
        zpow_le_zpow_right₀ (by norm_num) (by omega)
      rwa [zpow_sub_one₀ (by norm_num), mul_comm, ← one_div] at hle
    calc x.upper ≤ (2 ^ 53 + 1 / 2) * (1 / 2 * 2 ^ (971 : Int)) :=
          mul_le_mul (by linarith) hhalf (by positivity) (by norm_num)
      _ ≤ (2 ^ 53 - 3 / 2) * 2 ^ (971 : Int) := by
        rw [← mul_assoc]
        exact mul_le_mul_of_nonneg_right (by norm_num) (by positivity)

/-- The last significand that is printed with `10 ^ 292`. -/
theorem digits_shortest_le_last {x : Binary} (hx : Machine x) (h : x.shortest.exponent = 292) :
    x.shortest.digits ≤ 17976931348623157 := by
  by_cases hmax : x.mantissa = 9007199254740991 ∧ x.exponent = 971
  · have hnarrow : x.narrowBelow = false := by
      cases hnarrow : x.narrowBelow with
      | false => rfl
      | true =>
        have := (hx.narrow_iff.mp hnarrow).1
        omega
    obtain ⟨m, e, b⟩ := x
    obtain ⟨rfl, rfl⟩ := hmax
    obtain rfl : b = false := hnarrow
    rw [shortest_greatest]
  · have hle : x.shortest.value ≤ (2 ^ 53 - 3 / 2) * 2 ^ (971 : Int) :=
      ((Binary.standsFor_shortest hx.pos.ne').below.elim le_of_lt fun h => h.2.le).trans
        (upper_le_of_ne_greatest hx hmax)
    obtain ⟨unit, hunit⟩ : ∃ unit : Nat, unit = 10 ^ 292 := ⟨_, rfl⟩
    have hconst : (2 ^ 54 - 3) * 2 ^ 970 < 17976931348623158 * unit := by
      rw [hunit]
      decide +kernel
    have hunit' : (10 : ℚ) ^ (292 : Int) = unit := by
      rw [hunit, Nat.cast_pow, Nat.cast_ofNat]
      exact zpow_natCast 10 292
    have hhalf (k : Nat) : (2 ^ 53 - 3 / 2 : ℚ) * 2 ^ ((k : Int) + 1) =
        ((2 ^ 54 - 3) * 2 ^ k : Nat) := by
      rw [zpow_add_one₀ (by norm_num), zpow_natCast]
      push_cast
      ring
    rw [Decimal.value, h, hunit'] at hle
    have hle' : x.shortest.digits * unit ≤ (2 ^ 54 - 3) * 2 ^ 970 := by
      exact_mod_cast hle.trans_eq (hhalf 970)
    exact Nat.le_of_lt_succ (Nat.lt_of_mul_lt_mul_right (hle'.trans_lt hconst))

/-- **The significand and the power of ten that a machine number is printed with** have a product or
quotient in range. -/
theorem exists_scale?_shortest {x : Binary} (hx : Machine x) :
    ∃ f, scale? (Float.ofNat x.shortest.digits) x.shortest.exponent = some f ∧ IsTame 1024 f := by
  have hdigits := hx.digits_shortest_le
  cases hexponent : x.shortest.exponent with
  | ofNat places =>
    have hstands := Binary.standsFor_shortest hx.pos.ne'
    have hne := Binary.digits_shortest_ne_zero hx.pos.ne'
    have hlt := lt_overflow_of_standsFor hx hstands
    rw [Decimal.value, hexponent, Int.ofNat_eq_natCast, zpow_natCast] at hlt
    have hlast : places = 292 → x.shortest.digits ≤ 17976931348623157 := by
      rintro rfl
      exact digits_shortest_le_last hx hexponent
    obtain ⟨hplaces, htame⟩ := isTame_mul_tenTo hne hdigits hlt hlast
    exact ⟨_, if_pos hplaces, htame⟩
  | negSucc places =>
    have htame : IsTame 64 (Float.ofNat x.shortest.digits) :=
      isTame_ofNat (hdigits.trans (by decide))
    exact ⟨_, rfl, (isTame_shrink (by decide) htame _).mono (by decide)⟩

end NumberParts

end ItemStore
