import ItemStore.Proofs.Decimal.Rounding

/-!
# Seventeen digits are enough

The search for the shortest decimal of a machine number tries grids that are finer and finer, up to
the one with seventeen digits. That grid is finer than the gaps between machine numbers, so one of
the two neighbours on it reads back, and the search never has to fall back on the exact value.

## Main results

- `Binary.scale_bounds`: the search starts at the first digit;
- `Rounding.Machine.digits_shortest_le`: the shortest decimal has at most seventeen digits.
-/

namespace ItemStore

/-! ## The first digit -/

/-- The digits of a number are as many as its greatest power of ten says. -/
theorem exists_digitCount_eq {n : Nat} (hn : n ≠ 0) :
    ∃ k, digitCount n = k + 1 ∧ 10 ^ k ≤ n ∧ n < 10 ^ (k + 1) := by
  induction n using Nat.strongRecOn with
  | ind n ih =>
    rw [digitCount, if_neg hn]
    by_cases hsmall : n / 10 = 0
    · refine ⟨0, ?_, by omega, by omega⟩
      rw [hsmall, digitCount, if_pos rfl]
    · obtain ⟨k, hcount, hlow, hhigh⟩ := ih (n / 10) (by omega) hsmall
      refine ⟨k + 1, by rw [hcount], ?_, ?_⟩
      · rw [pow_succ]
        omega
      · rw [pow_succ]
        omega

namespace Binary

variable {x : Binary}

/-- A number without its negative powers of two. -/
theorem value_mul_pow (x : Binary) :
    x.value * 2 ^ (-x.exponent).toNat = x.mantissa * 2 ^ x.exponent.toNat := by
  rw [value, mul_assoc, zpow_mul_pow_toNat (by norm_num)]

/-- **The place of the first digit**: the number lies between two powers of ten. -/
theorem scale_bounds (hx : x.mantissa ≠ 0) :
    (10 : ℚ) ^ (x.scale - 1) ≤ x.value ∧ x.value < 10 ^ x.scale := by
  obtain ⟨top, htop⟩ : ∃ top, x.mantissa * Nat.pow 2 x.exponent.toNat = top := ⟨_, rfl⟩
  obtain ⟨bottom, hbottom⟩ : ∃ bottom, Nat.pow 2 (-x.exponent).toNat = bottom := ⟨_, rfl⟩
  have hbottomPos : 0 < bottom := hbottom ▸ Nat.two_pow_pos _
  have htopPos : 0 < top := by
    rw [← htop]
    exact Nat.mul_pos (Nat.pos_of_ne_zero hx) (Nat.two_pow_pos _)
  have hunit : (0 : ℚ) < bottom := by exact_mod_cast hbottomPos
  have hvalue : x.value * bottom = top := by
    rw [← htop, ← hbottom]
    push_cast [Nat.pow_eq]
    exact x.value_mul_pow
  rw [scale]
  simp only [htop, hbottom]
  split
  next hone =>
    -- the whole part has the digits before the point
    obtain ⟨k, hcount, hlow, hhigh⟩ := exists_digitCount_eq (Nat.div_pos hone hbottomPos).ne'
    have hfloor : 10 ^ k * bottom ≤ top :=
      (Nat.mul_le_mul_right _ hlow).trans (Nat.div_mul_le_self _ _)
    have hceil : top < 10 ^ (k + 1) * bottom := (Nat.div_lt_iff_lt_mul hbottomPos).mp hhigh
    rw [hcount, Nat.cast_add_one, add_sub_cancel_right, ← Nat.cast_add_one, zpow_natCast,
      zpow_natCast]
    constructor
    · refine le_of_mul_le_mul_right ?_ hunit
      rw [hvalue]
      exact_mod_cast hfloor
    · refine lt_of_mul_lt_mul_right ?_ hunit.le
      rw [hvalue]
      exact_mod_cast hceil
  next hone =>
    -- the reciprocal has as many digits as there are zeros behind the point
    have hquotient : 0 < (bottom - 1) / top := Nat.div_pos (by omega) htopPos
    obtain ⟨k, hcount, hlow, hhigh⟩ := exists_digitCount_eq hquotient.ne'
    have hfloor : 10 ^ k * top < bottom := by
      have := (Nat.mul_le_mul_right top hlow).trans (Nat.div_mul_le_self _ _)
      omega
    have hceil : bottom ≤ 10 ^ (k + 1) * top := by
      have := (Nat.div_lt_iff_lt_mul htopPos).mp hhigh
      omega
    have hpow (n : Nat) : (0 : ℚ) < 10 ^ n := by positivity
    have hplace : (1 - ((k + 1 : Nat) : Int)) = -(k : Int) := by omega
    rw [hcount, hplace, zpow_neg, zpow_natCast,
      show -(k : Int) - 1 = -((k + 1 : Nat) : Int) by omega, zpow_neg, zpow_natCast]
    constructor
    · rw [← one_div, div_le_iff₀ (hpow _)]
      refine le_of_mul_le_mul_right ?_ hunit
      rw [one_mul, mul_right_comm, hvalue, mul_comm]
      exact_mod_cast hceil
    · rw [← one_div, lt_div_iff₀ (hpow _)]
      refine lt_of_mul_lt_mul_right ?_ hunit.le
      rw [one_mul, mul_right_comm, hvalue, mul_comm]
      exact_mod_cast hfloor

/-! ## Grids -/

/-- The two neighbours on a grid are next to each other, with the number between them. -/
theorem exists_neighbours_eq (x : Binary) (place : Int) :
    ∃ n : Nat, x.neighbours place = (⟨n, place⟩, ⟨n + 1, place⟩) ∧
      (n : ℚ) * 10 ^ place ≤ x.value ∧ x.value < (n + 1) * 10 ^ place := by
  obtain ⟨top, htop⟩ : ∃ top,
    x.mantissa * Nat.pow 2 x.exponent.toNat * Nat.pow 10 (-place).toNat = top := ⟨_, rfl⟩
  obtain ⟨bottom, hbottom⟩ : ∃ bottom,
    Nat.pow 2 (-x.exponent).toNat * Nat.pow 10 place.toNat = bottom := ⟨_, rfl⟩
  have hbottomPos : 0 < bottom := by
    rw [← hbottom]
    exact Nat.mul_pos (Nat.two_pow_pos _) (Nat.pow_pos (by decide))
  have hscale : (0 : ℚ) < 2 ^ (-x.exponent).toNat * 10 ^ (-place).toNat := by positivity
  have hvalue : x.value * (2 ^ (-x.exponent).toNat * 10 ^ (-place).toNat) = top := by
    rw [← mul_assoc, value_mul_pow, ← htop]
    push_cast [Nat.pow_eq]
    rfl
  have hgrid (n : ℚ) :
      n * 10 ^ place * (2 ^ (-x.exponent).toNat * 10 ^ (-place).toNat) = n * bottom := by
    rw [← hbottom]
    push_cast [Nat.pow_eq]
    rw [← zpow_mul_pow_toNat (by norm_num) place]
    ring
  refine ⟨top / bottom, by rw [neighbours, htop, hbottom], ?_, ?_⟩
  · refine le_of_mul_le_mul_right ?_ hscale
    rw [hgrid, hvalue]
    exact_mod_cast Nat.div_mul_le_self top bottom
  · refine lt_of_mul_lt_mul_right ?_ hscale.le
    rw [hgrid, hvalue]
    exact_mod_cast (Nat.div_lt_iff_lt_mul hbottomPos).mp (Nat.lt_succ_self (top / bottom))

/-- What is found on a grid has no more digits than the number has places on it. -/
theorem digits_le_of_onGrid? {place : Int} {d : Decimal} (h : x.onGrid? place = some d) {l : Nat}
    (hlt : x.value < 10 ^ (place + (l : Int))) : d.digits ≤ 10 ^ l := by
  obtain ⟨n, hneighbours, hbelow, -⟩ := x.exists_neighbours_eq place
  have hn : n < 10 ^ l := by
    have hunit : (0 : ℚ) < 10 ^ place := by positivity
    have hlt' : (n : ℚ) * 10 ^ place < 10 ^ l * 10 ^ place := by
      rw [add_comm, zpow_add₀ (by norm_num), zpow_natCast] at hlt
      exact hbelow.trans_lt hlt
    exact_mod_cast lt_of_mul_lt_mul_right hlt' hunit.le
  have hneighbour : d = ⟨n, place⟩ ∨ d = ⟨n + 1, place⟩ := by
    rw [onGrid?, hneighbours] at h
    dsimp only at h
    split at h
    next =>
      cases h
      unfold nearer
      split
      · exact .inl rfl
      · exact .inr rfl
      · split
        · exact .inl rfl
        · exact .inr rfl
    next => exact .inl (Option.some.inj h).symm
    next => exact .inr (Option.some.inj h).symm
    next => cases h
  rcases hneighbour with rfl | rfl
  · exact hn.le
  · exact hn

theorem onGrid?_isSome {place : Int} {n : Nat}
    (hneighbours : x.neighbours place = (⟨n, place⟩, ⟨n + 1, place⟩))
    (h : x.readsBack ⟨n, place⟩ = true ∨ x.readsBack ⟨n + 1, place⟩ = true) :
    (x.onGrid? place).isSome = true := by
  rw [onGrid?, hneighbours]
  dsimp only
  rcases h with h | h
  · rw [h]
    split <;> trivial
  · rw [h]
    split <;> trivial

end Binary

theorem Decimal.digits_stripZeros_le (fuel : Nat) (d : Decimal) :
    (d.stripZeros fuel).digits ≤ d.digits := by
  induction fuel generalizing d with
  | zero => exact Nat.le_refl _
  | succ fuel ih =>
    rw [stripZeros]
    split
    next => exact (ih _).trans (Nat.div_le_self ..)
    next => exact Nat.le_refl _

/-! ## The finest grid -/

namespace Rounding

open Binary

variable {x : Binary}

/-- **One of two neighbours reads back**, if they are less than a unit in the last place apart, and
less than half of one if the gap below the number is narrow. -/
theorem readsBack_neighbour (hx : x.mantissa ≠ 0) {n : Nat} {place : Int}
    (hbelow : (n : ℚ) * 10 ^ place ≤ x.value) (habove : x.value < (n + 1) * 10 ^ place)
    (hwide : (10 : ℚ) ^ place < 2 ^ x.exponent)
    (hnarrow : x.narrowBelow = true → (10 : ℚ) ^ place < 1 / 2 * 2 ^ x.exponent) :
    x.readsBack ⟨n, place⟩ = true ∨ x.readsBack ⟨n + 1, place⟩ = true := by
  have hunit : (0 : ℚ) < 2 ^ x.exponent := by positivity
  have hupper : x.upper = x.value + 1 / 2 * 2 ^ x.exponent := by rw [upper, value, add_mul]
  have hnext : (⟨n + 1, place⟩ : Decimal).value = (n + 1) * 10 ^ place := by
    rw [Decimal.value, Nat.cast_add_one]
  rw [readsBack_iff hx, readsBack_iff hx]
  by_cases hnear : ((n : ℚ) + 1) * 10 ^ place < x.upper
  · refine .inr ⟨.inl ?_, .inl (hnext ▸ hnear)⟩
    rw [hnext]
    exact x.lower_lt_value.trans habove
  · -- the upper one is too far away, so the lower one is near
    rw [add_one_mul, hupper] at hnear
    refine .inl ⟨.inl ?_, .inl ?_⟩
    · cases hgap : x.narrowBelow with
      | true => linarith [hnarrow hgap]
      | false =>
        have hlower : x.lower = x.value - 1 / 2 * 2 ^ x.exponent := by
          rw [lower, hgap, value, ← sub_mul]
          rfl
        rw [hlower, Decimal.value]
        linarith
    · rw [hupper, Decimal.value]
      linarith

namespace Machine

/-- The grid with seventeen digits is fine enough. -/
theorem onGrid?_isSome (hx : Machine x) : (x.onGrid? (x.scale - 17)).isSome = true := by
  have hunit : (0 : ℚ) < 2 ^ x.exponent := by positivity
  obtain ⟨n, hneighbours, hbelow, habove⟩ := x.exists_neighbours_eq (x.scale - 17)
  have hspacing : (10 : ℚ) ^ (x.scale - 17) * 10 ^ 16 ≤ x.mantissa * 2 ^ x.exponent := by
    have hlow := (scale_bounds hx.pos.ne').1
    rwa [show x.scale - 1 = x.scale - 17 + (16 : Nat) by omega, zpow_add₀ (by norm_num),
      zpow_natCast] at hlow
  refine Binary.onGrid?_isSome hneighbours
    (readsBack_neighbour hx.pos.ne' hbelow habove ?_ fun hnarrow => ?_)
  · have hmantissa : (x.mantissa : ℚ) * 2 ^ x.exponent < 2 ^ 53 * 2 ^ x.exponent :=
      mul_lt_mul_of_pos_right (by exact_mod_cast hx.lt_two_pow) hunit
    linarith
  · have hmantissa : (x.mantissa : ℚ) = 2 ^ 52 := by exact_mod_cast (hx.narrow_iff.mp hnarrow).1
    rw [hmantissa] at hspacing
    linarith

/-- **Seventeen digits are enough** for every machine number. -/
theorem digits_shortest_le (hx : Machine x) : x.shortest.digits ≤ 10 ^ 17 := by
  rw [shortest, if_neg hx.pos.ne']
  dsimp only
  refine (Decimal.digits_stripZeros_le ..).trans ?_
  cases hfound : (List.range 17).findSome? fun (n : Nat) =>
    x.onGrid? (x.scale - ((n : Int) + 1)) with
  | none =>
    have hfinest := List.findSome?_eq_none_iff.mp hfound 16 (by decide)
    have hsome := hx.onGrid?_isSome
    rw [show (((16 : Nat) : Int) + 1) = 17 from rfl] at hfinest
    rw [hfinest] at hsome
    cases hsome
  | some best =>
    obtain ⟨n, hn, hgrid⟩ := List.exists_of_findSome?_eq_some hfound
    have hlt : x.value < 10 ^ (x.scale - ((n : Int) + 1) + ((n + 1 : Nat) : Int)) := by
      rw [Nat.cast_add_one, sub_add_cancel]
      exact (scale_bounds hx.pos.ne').2
    exact (digits_le_of_onGrid? hgrid hlt).trans
      (Nat.pow_le_pow_right (by decide) (List.mem_range.mp hn))

end Machine

end Rounding

end ItemStore
