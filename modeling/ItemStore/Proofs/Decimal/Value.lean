import ItemStore.Decimal.Shortest
import Mathlib.Algebra.Order.Field.Power
import Mathlib.Algebra.Order.Field.Rat
import Mathlib.Data.Nat.Cast.Order.Ring
import Mathlib.Tactic.FieldSimp
import Mathlib.Tactic.Linarith
import Mathlib.Tactic.Positivity
import Mathlib.Tactic.Ring

/-!
# The decimal of a binary number stands for it

A finite binary64 number stands for an interval of rationals, and the search of `Binary.shortest`
stays inside that interval. The search compares products of naturals; here they are compared as
rationals.

## Main results

- `Binary.readsBack_iff`: the search tests whether a decimal's value lies in the interval;
- `Binary.standsFor_shortest`: the value of the shortest decimal does.
-/

namespace ItemStore

/-! ## Values -/

/-- The value of a decimal. -/
def Decimal.value (d : Decimal) : ℚ :=
  d.digits * 10 ^ d.exponent

namespace Binary

/-- The value of a binary number. -/
def value (x : Binary) : ℚ :=
  x.mantissa * 2 ^ x.exponent

/-- Halfway to the number below. -/
def lower (x : Binary) : ℚ :=
  (if x.narrowBelow then (x.mantissa : ℚ) - 1 / 4 else x.mantissa - 1 / 2) * 2 ^ x.exponent

/-- Halfway to the number above. -/
def upper (x : Binary) : ℚ :=
  (x.mantissa + 1 / 2) * 2 ^ x.exponent

/-- The binary number stands for `v`: this lies between halfway to the number below and halfway to
the number above, ends included exactly when the mantissa is even. -/
structure StandsFor (x : Binary) (v : ℚ) : Prop where
  above : x.lower < v ∨ x.mantissa % 2 = 0 ∧ x.lower = v
  below : v < x.upper ∨ x.mantissa % 2 = 0 ∧ v = x.upper

end Binary

/-! ## Comparing -/

theorem compare_natCast (a b : Nat) : compare a b = compare (a : ℚ) b := by
  rcases lt_trichotomy a b with h | rfl | h
  · rw [compare_lt_iff_lt.mpr h, compare_lt_iff_lt.mpr (Nat.cast_lt.mpr h)]
  · rw [compare_eq_iff_eq.mpr rfl, compare_eq_iff_eq.mpr rfl]
  · rw [compare_gt_iff_gt.mpr h, compare_gt_iff_gt.mpr (Nat.cast_lt.mpr h)]

/-- A common positive factor has no say in a comparison. -/
theorem compare_mul_right {c : ℚ} (hc : 0 < c) (a b : ℚ) :
    compare (a * c) (b * c) = compare a b := by
  rcases lt_trichotomy a b with h | rfl | h
  · rw [compare_lt_iff_lt.mpr h, compare_lt_iff_lt.mpr (mul_lt_mul_of_pos_right h hc)]
  · rw [compare_eq_iff_eq.mpr rfl, compare_eq_iff_eq.mpr rfl]
  · rw [compare_gt_iff_gt.mpr h, compare_gt_iff_gt.mpr (mul_lt_mul_of_pos_right h hc)]

/-- A power with the part of its exponent below zero made up for. -/
theorem zpow_mul_pow_toNat {base : ℚ} (hbase : base ≠ 0) (i : Int) :
    base ^ i * base ^ (-i).toNat = base ^ i.toNat := by
  rw [← zpow_natCast, ← zpow_natCast, ← zpow_add₀ hbase]
  congr 1
  omega

/-- The comparison of products of naturals is one of rationals. -/
theorem compareScaled_eq (a : Nat) (i : Int) (n : Nat) (j : Int) :
    compareScaled a i n j = compare ((a : ℚ) * 10 ^ i) (n * 2 ^ j) := by
  have hfactor : (0 : ℚ) < 10 ^ (-i).toNat * 2 ^ (-j).toNat := by positivity
  have hleft : ((a * Nat.pow 10 i.toNat * Nat.pow 2 (-j).toNat : Nat) : ℚ) =
      (a : ℚ) * 10 ^ i * (10 ^ (-i).toNat * 2 ^ (-j).toNat) := by
    push_cast [Nat.pow_eq]
    rw [← zpow_mul_pow_toNat (by norm_num) i]
    ring
  have hright : ((n * Nat.pow 2 j.toNat * Nat.pow 10 (-i).toNat : Nat) : ℚ) =
      (n : ℚ) * 2 ^ j * (10 ^ (-i).toNat * 2 ^ (-j).toNat) := by
    push_cast [Nat.pow_eq]
    rw [← zpow_mul_pow_toNat (by norm_num) j]
    ring
  rw [compareScaled, compare_natCast, hleft, hright, compare_mul_right hfactor]

namespace Binary

variable {x : Binary}

/-- Quarters of a unit in the last place. -/
private theorem quarters (n : ℚ) (e : Int) : n * 2 ^ (e - 2) = n / 4 * 2 ^ e := by
  rw [zpow_sub₀ (by norm_num)]
  ring

/-- **The test of the search**: a decimal reads back exactly if the binary number stands for its
value. -/
theorem readsBack_iff (hx : x.mantissa ≠ 0) (d : Decimal) :
    x.readsBack d = true ↔ x.StandsFor d.value := by
  have hlow : (((if x.narrowBelow then 4 * x.mantissa - 1 else 4 * x.mantissa - 2 : Nat) : ℚ)) *
      2 ^ (x.exponent - 2) =
      x.lower := by
    rw [quarters, lower]
    split
    · rw [Nat.cast_sub (by omega)]
      push_cast
      ring
    · rw [Nat.cast_sub (by omega)]
      push_cast
      ring
  have hhigh : ((4 * x.mantissa + 2 : Nat) : ℚ) * 2 ^ (x.exponent - 2) = x.upper := by
    rw [quarters, upper]
    push_cast
    ring
  have hvalue : (d.digits : ℚ) * 10 ^ d.exponent = d.value := rfl
  rw [readsBack]
  simp only [compareScaled_eq, hlow, hhigh, hvalue, Bool.and_eq_true, Bool.or_eq_true, beq_iff_eq,
    compare_gt_iff_gt, compare_lt_iff_lt, compare_eq_iff_eq]
  rw [eq_comm (a := d.value) (b := x.lower)]
  exact ⟨fun ⟨h, h'⟩ => ⟨h, h'⟩, fun h => ⟨h.above, h.below⟩⟩

theorem lower_lt_value (x : Binary) : x.lower < x.value := by
  rw [lower, value]
  refine mul_lt_mul_of_pos_right ?_ (by positivity)
  split <;> linarith

/-- A binary number stands for its own value. -/
theorem standsFor_value (x : Binary) : x.StandsFor x.value := by
  refine ⟨.inl x.lower_lt_value, .inl ?_⟩
  rw [upper, value]
  exact mul_lt_mul_of_pos_right (by linarith) (by positivity)

theorem StandsFor.pos (hx : x.mantissa ≠ 0) {v : ℚ} (h : x.StandsFor v) : 0 < v := by
  have hunit : (0 : ℚ) < 2 ^ x.exponent := by positivity
  have hmantissa : (1 : ℚ) ≤ x.mantissa := by exact_mod_cast Nat.one_le_iff_ne_zero.mpr hx
  have hlower : 0 < x.lower := by
    rw [lower]
    refine mul_pos ?_ hunit
    split <;> linarith
  rcases h.above with hlt | ⟨-, heq⟩
  · exact hlower.trans hlt
  · exact hlower.trans_eq heq

/-! ## The search -/

/-- What is found on a grid is one of two neighbours, and it reads back. -/
theorem readsBack_of_onGrid? {place : Int} {d : Decimal} (h : x.onGrid? place = some d) :
    x.readsBack d = true := by
  rw [onGrid?] at h
  generalize x.neighbours place = pair at h
  obtain ⟨below, above⟩ := pair
  dsimp only at h
  split at h
  next hbelow habove =>
    cases h
    unfold nearer
    split
    · exact hbelow
    · exact habove
    · split
      · exact hbelow
      · exact habove
  next hbelow _ =>
    cases h
    exact hbelow
  next _ habove =>
    cases h
    exact habove
  next => cases h

theorem value_exact (x : Binary) : x.exact.value = x.value := by
  unfold exact Decimal.value value
  split
  next hexponent =>
    dsimp only
    push_cast [Nat.pow_eq]
    rw [mul_one, ← zpow_natCast, Int.toNat_of_nonneg hexponent]
  next hexponent =>
    -- a negative power of two is a power of five over one of ten
    have hnegative : x.exponent = -((-x.exponent).toNat : Int) := by omega
    dsimp only
    push_cast [Nat.pow_eq]
    rw [hnegative, neg_neg, Int.toNat_natCast, zpow_neg, zpow_neg, zpow_natCast, zpow_natCast,
      show (10 : ℚ) = 2 * 5 by norm_num, mul_pow]
    field_simp

end Binary

theorem Decimal.value_stripZeros (fuel : Nat) (d : Decimal) :
    (d.stripZeros fuel).value = d.value := by
  induction fuel generalizing d with
  | zero => rfl
  | succ fuel ih =>
    rw [stripZeros]
    split
    next h =>
      have hdigits : (d.digits : ℚ) = (d.digits / 10 : Nat) * 10 := by
        exact_mod_cast (Nat.div_mul_cancel (Nat.dvd_of_mod_eq_zero h.2)).symm
      rw [ih, value, value, hdigits, zpow_add₀ (by norm_num)]
      ring
    next => rfl

/-- **The shortest decimal of a binary number reads back as it.** -/
theorem Binary.standsFor_shortest {x : Binary} (hx : x.mantissa ≠ 0) :
    x.StandsFor x.shortest.value := by
  rw [shortest, if_neg hx]
  dsimp only
  rw [Decimal.value_stripZeros]
  cases hfound : (List.range 17).findSome? fun (n : Nat) =>
    x.onGrid? (x.scale - ((n : Int) + 1)) with
  | none =>
    rw [Option.getD_none, value_exact]
    exact x.standsFor_value
  | some best =>
    obtain ⟨n, -, hgrid⟩ := List.exists_of_findSome?_eq_some hfound
    exact (readsBack_iff hx best).mp (readsBack_of_onGrid? hgrid)

theorem Binary.digits_shortest_ne_zero {x : Binary} (hx : x.mantissa ≠ 0) :
    x.shortest.digits ≠ 0 := by
  intro hzero
  have hpos := (standsFor_shortest hx).pos hx
  rw [Decimal.value, hzero, Nat.cast_zero, zero_mul] at hpos
  exact lt_irrefl _ hpos

end ItemStore
