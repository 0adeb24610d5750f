import ItemStore.Proofs.Decimal.Value

/-!
# Rounding to binary64

Machine arithmetic computes a mantissa with two bits that say how the exact value lies to it, shifts
it to 53 bits, and rounds once. This module says which number comes out, for any exact rational
value.

## Main results

- `Rounding.exists_rounds`: a value with enough bits is rounded to the nearest multiple of a power
  of two, the even one of two;
- `Rounding.Rounds.settle_of_standsFor`: if a number of the machine stands for the value, that
  number comes out.

## Architecture

1. `Rounding.Nearest` is rounding to a natural number, and `Rounding.Describes` the meaning of the
   two bits.
2. `Rounding.Rounds` is the choice of the power of two: the least one allowed, or the one that
   leaves 53 bits.
3. A mantissa that is rounded up to 54 bits is halved again, which `Rounding.settle` does.
4. `Rounding.exists_rounds_round`, `Rounding.exists_rounds_mul` and `Rounding.exists_rounds_div`:
   sums, products and quotients are computed with enough bits.
-/

namespace ItemStore.Rounding

open Float.Model Float.Model.UnpackedFloat

/-! ## Naturals -/

/-- `n` is the natural number nearest to `x`, and the even one of two. -/
structure Nearest (n : Nat) (x : ℚ) : Prop where
  above : (n : ℚ) - 1 / 2 < x ∨ n % 2 = 0 ∧ (n : ℚ) - 1 / 2 = x
  below : x < n + 1 / 2 ∨ n % 2 = 0 ∧ x = n + 1 / 2

namespace Nearest

variable {n k : Nat} {x : ℚ}

theorem sub_le (h : Nearest n x) : (n : ℚ) - 1 / 2 ≤ x :=
  h.above.elim le_of_lt fun h => h.2.le

theorem le_add (h : Nearest n x) : x ≤ n + 1 / 2 :=
  h.below.elim le_of_lt fun h => h.2.le

private theorem not_lt (hn : Nearest n x) (hk : Nearest k x) : ¬n < k := by
  intro hlt
  -- both are at distance one half, so they are neighbours, and one is odd
  have hnext : (n : ℚ) + 1 ≤ k := by exact_mod_cast hlt
  have hx : x = n + 1 / 2 := le_antisymm hn.le_add (by linarith [hk.sub_le])
  have hx' : x = k - 1 / 2 := le_antisymm (by linarith [hn.le_add]) hk.sub_le
  have hkn : k = n + 1 := by exact_mod_cast (by linarith : (k : ℚ) = n + 1)
  have heven : n % 2 = 0 := (hn.below.resolve_left (by linarith)).1
  have heven' : k % 2 = 0 := (hk.above.resolve_left (by linarith)).1
  omega

theorem unique (hn : Nearest n x) (hk : Nearest k x) : n = k :=
  Nat.le_antisymm (Nat.le_of_not_lt (hk.not_lt hn)) (Nat.le_of_not_lt (hn.not_lt hk))

end Nearest

/-! ## Mantissas with two more bits -/

/-- The mantissa is the integral part of `x`. The round bit says whether the rest is one half at
least, and the sticky bit whether it is neither nothing nor one half. -/
def Describes (em : ExtendedMantissa) (x : ℚ) : Prop :=
  match em.roundBit, em.stickyBit with
  | false, false => x = em.mantissa
  | false, true => em.mantissa < x ∧ x < em.mantissa + 1 / 2
  | true, false => x = em.mantissa + 1 / 2
  | true, true => em.mantissa + 1 / 2 < x ∧ x < em.mantissa + 1

namespace Describes

variable {em : ExtendedMantissa} {x : ℚ}

theorem exact (m : Nat) : Describes (.ofMantissaAndAccuracy m .exact) m := rfl

theorem mantissa_le (h : Describes em x) : em.mantissa ≤ x := by
  obtain ⟨m, r, s⟩ := em
  cases r <;> cases s <;> simp only [Describes] at h <;> linarith

theorem lt_mantissa_add (h : Describes em x) : x < em.mantissa + 1 := by
  obtain ⟨m, r, s⟩ := em
  cases r <;> cases s <;> simp only [Describes] at h <;> linarith

/-- The mantissa is rounded to the nearest natural number. -/
theorem nearest (h : Describes em x) : Nearest em.roundedMantissa x := by
  obtain ⟨m, r, s⟩ := em
  cases r <;> cases s <;>
    simp only [Describes, ExtendedMantissa.roundedMantissa, ExtendedMantissa.accuracy,
      Accuracy.roundToNearestEven] at h ⊢
  · exact ⟨.inl (by linarith), .inl (by linarith)⟩
  · exact ⟨.inl (by linarith), .inl (by linarith)⟩
  · -- a tie goes to the even one of two neighbours
    obtain hm | hm : m % 2 = 0 ∨ m % 2 = 1 := by omega
    · rw [hm, Nat.add_zero]
      exact ⟨.inl (by linarith), .inr ⟨hm, h⟩⟩
    · rw [hm]
      refine ⟨.inr ⟨by omega, ?_⟩, .inl ?_⟩ <;> push_cast <;> linarith
  · refine ⟨.inl ?_, .inl ?_⟩ <;> push_cast <;> linarith

theorem shiftRightOne (h : Describes em x) : Describes em.shiftRightOne (x / 2) := by
  obtain ⟨m, r, s⟩ := em
  obtain ⟨k, rfl | rfl⟩ := Nat.even_or_odd' m
  · have hhalf : 2 * k / 2 = k := by omega
    have hbit : 2 * k % 2 = 0 := by omega
    cases r <;> cases s <;> simp [Describes, ExtendedMantissa.shiftRightOne, hhalf, hbit] at h ⊢ <;>
      (try constructor) <;> linarith
  · have hhalf : (2 * k + 1) / 2 = k := by omega
    have hbit : (2 * k + 1) % 2 = 1 := by omega
    cases r <;> cases s <;> simp [Describes, ExtendedMantissa.shiftRightOne, hhalf, hbit] at h ⊢ <;>
      (try constructor) <;> linarith

theorem shiftRight (h : Describes em x) (n : Nat) : Describes (em >>> n) (x / 2 ^ n) := by
  induction n with
  | zero =>
    rw [pow_zero, div_one]
    exact h
  | succ n ih =>
    rw [pow_succ, ← div_div]
    exact ih.shiftRightOne

end Describes

/-! ## The power of two -/

/-- The value `v` is rounded to `r · 2 ^ t`. The power is the least one allowed, or `v` has 53 bits
before it. -/
structure Rounds (v : ℚ) (r : Nat) (t : Int) : Prop where
  least : -1074 ≤ t
  below : v < 2 ^ (t + 53)
  normal : t = -1074 ∨ 2 ^ (t + 52) ≤ v
  nearest : Nearest r (v / 2 ^ t)

/-- The number `r · 2 ^ t`, with one bit less if there are 54. -/
def settle (s : Sign) (r : Nat) (t : Int) : UnpackedFloat :=
  if hzero : r = 0 then .zero s
  else if r = 2 ^ 53 then .finite s (2 ^ 52) (t + 1) (by decide)
  else .finite s r t (Nat.pos_of_ne_zero hzero)

theorem settle_two_pow (s : Sign) (t : Int) :
    settle s (2 ^ 53) t = .finite s (2 ^ 52) (t + 1) (by decide) := rfl

theorem settle_of_lt {r : Nat} (hr : r < 2 ^ 53) (s : Sign) (t : Int) :
    settle s r t = if hzero : r = 0 then .zero s else .finite s r t (Nat.pos_of_ne_zero hzero) :=
  dite_congr rfl (fun _ => rfl) fun _ => if_neg hr.ne

namespace Rounds

variable {v : ℚ} {r : Nat} {t : Int}

/-- There are 54 bits at most, and then all of them but the first are zero. -/
theorem le_two_pow (h : Rounds v r t) : r ≤ 2 ^ 53 := by
  have hunit : (0 : ℚ) < 2 ^ t := by positivity
  have hbelow : v / 2 ^ t < 2 ^ 53 := by
    rw [div_lt_iff₀ hunit, ← zpow_natCast, ← zpow_add₀ (by norm_num), add_comm]
    exact h.below
  have hr : (r : ℚ) < 2 ^ 53 + 1 := by linarith [h.nearest.sub_le]
  exact Nat.le_of_lt_succ (by exact_mod_cast hr)

/-- There are 53 bits at least, unless the power is the least one. -/
theorem two_pow_le (h : Rounds v r t) : t = -1074 ∨ 2 ^ 52 ≤ r := by
  refine h.normal.imp_right fun hnormal => ?_
  have hunit : (0 : ℚ) < 2 ^ t := by positivity
  have habove : 2 ^ 52 ≤ v / 2 ^ t := by
    rw [le_div_iff₀ hunit, ← zpow_natCast, ← zpow_add₀ (by norm_num), add_comm]
    exact hnormal
  have hr : (2 : ℚ) ^ 52 < r + 1 := by linarith [h.nearest.le_add]
  exact Nat.le_of_lt_succ (by exact_mod_cast hr)

end Rounds

theorem targetExponent_eq (m : Nat) (e : Int) :
    Format.binary64.targetExponent (totalExponent m e) =
      max ((m.log2 : Int) + 1 + e - 53) (-1074) := rfl

/-- A mantissa of 53 bits stays as it is. -/
theorem shiftToTargetExponent_of_lt {r : Nat} {t : Int} (hr : r < 2 ^ 53) (ht : -1074 ≤ t) :
    shiftToTargetExponent Format.binary64 r t .exact = (⟨r, false, false⟩, t) := by
  have hlog : r.log2 < 53 := by
    by_cases hzero : r = 0
    · simp [hzero]
    · exact (Nat.log2_lt hzero).mpr hr
  have hshift : (max ((r.log2 : Int) + 1 + t - 53) (-1074) - t).toNat = 0 := by omega
  rw [shiftToTargetExponent, targetExponent_eq, shiftToExponent]
  simp only [hshift]
  rw [Int.natCast_zero, add_zero]
  rfl

/-- One of 54 bits loses the last. -/
theorem shiftToTargetExponent_two_pow {t : Int} (ht : -1074 ≤ t) :
    shiftToTargetExponent Format.binary64 (2 ^ 53) t .exact = (⟨2 ^ 52, false, false⟩, t + 1) := by
  have hshift : (max (((2 ^ 53).log2 : Int) + 1 + t - 53) (-1074) - t).toNat = 1 := by
    rw [Nat.log2_two_pow]
    omega
  rw [shiftToTargetExponent, targetExponent_eq, shiftToExponent]
  simp only [hshift]
  rfl

theorem mantissa_ofMantissaAndAccuracy (m : Nat) (acc : Accuracy) :
    (ExtendedMantissa.ofMantissaAndAccuracy m acc).mantissa = m := by
  cases acc with
  | exact => rfl
  | inexact o => cases o <;> rfl

/-- The shift of a mantissa with enough bits selects the power of two. -/
theorem exists_shiftToTargetExponent {m : Nat} {e : Int} {acc : Accuracy} {x : ℚ}
    (hx : Describes (.ofMantissaAndAccuracy m acc) x) (hroom : e ≤ -1074 ∨ 2 ^ 52 ≤ m) :
    ∃ em t, shiftToTargetExponent Format.binary64 m e acc = (em, t) ∧
    Rounds (x * 2 ^ e) em.roundedMantissa t := by
  obtain ⟨t, ht⟩ : ∃ t, max ((m.log2 : Int) + 1 + e - 53) (-1074) = t := ⟨_, rfl⟩
  have hleast : -1074 ≤ t := ht ▸ le_max_right _ _
  have het : e ≤ t := by
    rcases hroom with he | hm
    · exact he.trans hleast
    · have hlog : 52 ≤ m.log2 := (Nat.le_log2 (by omega)).mpr hm
      omega
  obtain ⟨n, rfl⟩ : ∃ n : Nat, t = e + n := ⟨(t - e).toNat, by omega⟩
  have hunit : (0 : ℚ) < 2 ^ e := by positivity
  refine ⟨ExtendedMantissa.ofMantissaAndAccuracy m acc >>> n, e + n, ?_, hleast, ?_, ?_, ?_⟩
  · have hshift : (max ((m.log2 : Int) + 1 + e - 53) (-1074) - e).toNat = n := by omega
    rw [shiftToTargetExponent, targetExponent_eq, shiftToExponent]
    simp only [hshift]
  · have hxm : x < 2 ^ (m.log2 + 1) := by
      refine hx.lt_mantissa_add.trans_le ?_
      rw [mantissa_ofMantissaAndAccuracy]
      exact_mod_cast Nat.succ_le_of_lt Nat.lt_log2_self
    calc x * 2 ^ e < 2 ^ (m.log2 + 1) * 2 ^ e := mul_lt_mul_of_pos_right hxm hunit
      _ = 2 ^ ((m.log2 : Int) + 1 + e) := by
        rw [← zpow_natCast, ← zpow_add₀ (by norm_num)]
        push_cast
        rfl
      _ ≤ 2 ^ (e + n + 53) := zpow_le_zpow_right₀ (by norm_num) (by omega)
  · by_cases hmin : e + n = -1074
    · exact .inl hmin
    -- the mantissa is not zero, since it has enough bits
    · have hm : m ≠ 0 := by
        rintro rfl
        simp only [Nat.log2_zero] at ht
        omega
      have hmx : (2 : ℚ) ^ m.log2 ≤ x := by
        refine le_trans ?_ hx.mantissa_le
        rw [mantissa_ofMantissaAndAccuracy]
        exact_mod_cast Nat.log2_self_le hm
      refine .inr ?_
      calc (2 : ℚ) ^ (e + n + 52) = 2 ^ m.log2 * 2 ^ e := by
            rw [← zpow_natCast, ← zpow_add₀ (by norm_num)]
            congr 1
            omega
        _ ≤ x * 2 ^ e := mul_le_mul_of_nonneg_right hmx hunit.le
  · have hscaled : x * 2 ^ e / 2 ^ (e + (n : Int)) = x / 2 ^ n := by
      rw [zpow_add₀ (by norm_num), zpow_natCast]
      field_simp
    rw [hscaled]
    exact (hx.shiftRight n).nearest

/-- **Rounding**: a mantissa with enough bits is rounded to the nearest multiple of a power of
two. -/
theorem exists_rounds {m : Nat} {e : Int} {acc : Accuracy} {x : ℚ}
    (hx : Describes (.ofMantissaAndAccuracy m acc) x) (hroom : e ≤ -1074 ∨ 2 ^ 52 ≤ m) (s : Sign) :
    ∃ r t, Rounds (x * 2 ^ e) r t ∧ roundWithAccuracy Format.binary64 s m e acc = settle s r t := by
  obtain ⟨em, t, hfirst, hrounds⟩ := exists_shiftToTargetExponent hx hroom
  refine ⟨em.roundedMantissa, t, hrounds, ?_⟩
  rw [roundWithAccuracy, hfirst]
  dsimp only
  rcases hrounds.le_two_pow.lt_or_eq with hlt | heq
  · rw [shiftToTargetExponent_of_lt hlt hrounds.least]
    exact (settle_of_lt hlt s t).symm
  · rw [heq, shiftToTargetExponent_two_pow hrounds.least]
    rfl

/-! ## Operations -/

/-- Rounding a mantissa that may have too few bits. -/
theorem exists_rounds_round {m : Nat} (hm : m ≠ 0) (e : Int) (s : Sign) :
    ∃ r t, Rounds (m * 2 ^ e) r t ∧ UnpackedFloat.round Format.binary64 s m e = settle s r t := by
  obtain ⟨n, hn⟩ : ∃ n, (e - max ((m.log2 : Int) + 1 + e - 53) (-1074)).toNat = n := ⟨_, rfl⟩
  have hvalue : ((m <<< n : Nat) : ℚ) * 2 ^ (e - (n : Int)) = m * 2 ^ e := by
    rw [Nat.shiftLeft_eq, zpow_sub₀ (by norm_num), zpow_natCast]
    push_cast
    field_simp
  have hroom : e - (n : Int) ≤ -1074 ∨ 2 ^ 52 ≤ m <<< n := by
    by_cases hlog : m.log2 + n < 52
    · exact .inl (by omega)
    · refine .inr ?_
      calc 2 ^ 52 ≤ 2 ^ (m.log2 + n) := Nat.pow_le_pow_right (by decide) (not_lt.mp hlog)
        _ = 2 ^ m.log2 * 2 ^ n := pow_add ..
        _ ≤ m <<< n := by
          rw [Nat.shiftLeft_eq]
          exact Nat.mul_le_mul_right _ (Nat.log2_self_le hm)
  obtain ⟨r, t, hrounds, heq⟩ := exists_rounds (Describes.exact (m <<< n)) hroom s
  refine ⟨r, t, hvalue ▸ hrounds, ?_⟩
  rw [UnpackedFloat.round, targetExponent_eq, decreaseExponent]
  simp only [hn, heq]

/-- A product is rounded once, if its factors have enough bits. -/
theorem exists_rounds_mul {m m' : Nat} (hroom : 2 ^ 52 ≤ m * m') (e e' : Int) (s s' : Sign)
    (hm : 0 < m) (hm' : 0 < m') :
    ∃ r t, Rounds (m * 2 ^ e * (m' * 2 ^ e')) r t ∧
      UnpackedFloat.mul Format.binary64 (.finite s m e hm) (.finite s' m' e' hm') =
        settle (s * s') r t := by
  obtain ⟨r, t, hrounds, heq⟩ :=
    exists_rounds (Describes.exact (m * m')) (.inr hroom : e + e' ≤ -1074 ∨ _) (s * s')
  refine ⟨r, t, ?_, heq⟩
  have hvalue : ((m * m' : Nat) : ℚ) * 2 ^ (e + e') = m * 2 ^ e * (m' * 2 ^ e') := by
    rw [zpow_add₀ (by norm_num)]
    push_cast
    ring
  exact hvalue ▸ hrounds

/-- A remainder tells how a quotient lies to its integral part. -/
theorem Describes.div (m : Nat) {k : Nat} (hk : 0 < k) :
    Describes (.ofMantissaAndAccuracy (m / k) (accuracyOfFraction (m % k) k)) ((m : ℚ) / k) := by
  have hunit : (0 : ℚ) < k := by exact_mod_cast hk
  have hlt : ((m % k : Nat) : ℚ) < k := by exact_mod_cast Nat.mod_lt m hk
  have hquotient : (m : ℚ) / k = ((m / k : Nat) : ℚ) + ((m % k : Nat) : ℚ) / k := by
    rw [eq_comm, ← eq_sub_iff_add_eq, ← sub_div, eq_div_iff hunit.ne', eq_sub_iff_add_eq]
    exact_mod_cast Nat.div_add_mod' m k
  have hrest : ((m % k : Nat) : ℚ) / k < 1 := (div_lt_one hunit).mpr hlt
  rw [hquotient, accuracyOfFraction]
  split
  next hzero =>
    rw [hzero, Nat.cast_zero, zero_div, add_zero]
    exact .exact _
  next hne =>
    have hpos : (0 : ℚ) < ((m % k : Nat) : ℚ) / k :=
      div_pos (by exact_mod_cast Nat.pos_of_ne_zero hne) hunit
    rcases lt_trichotomy (2 * (m % k)) k with h | h | h
    · have hhalf : ((m % k : Nat) : ℚ) / k < 1 / 2 := by
        rw [div_lt_div_iff₀ hunit (by norm_num)]
        exact_mod_cast (by omega : m % k * 2 < 1 * k)
      rw [compare_lt_iff_lt.mpr h]
      exact ⟨lt_add_of_pos_right _ hpos, by
        simpa [ExtendedMantissa.ofMantissaAndAccuracy] using hhalf⟩
    · have hhalf : ((m % k : Nat) : ℚ) / k = 1 / 2 := by
        rw [div_eq_div_iff hunit.ne' (by norm_num)]
        exact_mod_cast (by omega : m % k * 2 = 1 * k)
      rw [compare_eq_iff_eq.mpr h, hhalf]
      rfl
    · have hhalf : 1 / 2 < ((m % k : Nat) : ℚ) / k := by
        rw [div_lt_div_iff₀ (by norm_num) hunit]
        exact_mod_cast (by omega : 1 * k < m % k * 2)
      rw [compare_gt_iff_gt.mpr h]
      exact ⟨by simpa [ExtendedMantissa.ofMantissaAndAccuracy] using hhalf,
        by simpa [ExtendedMantissa.ofMantissaAndAccuracy] using hrest⟩

/-- So is a quotient, whatever its parts are. -/
theorem exists_rounds_div {m m' : Nat} (e e' : Int) (s s' : Sign) (hm : 0 < m) (hm' : 0 < m') :
    ∃ r t, Rounds (m * 2 ^ e / (m' * 2 ^ e')) r t ∧
      UnpackedFloat.div Format.binary64 (.finite s m e hm) (.finite s' m' e' hm') =
        settle (s / s') r t := by
  -- the dividend is shifted so far that the quotient has enough bits
  obtain ⟨target, htarget⟩ : ∃ target, min (e - e')
      (max ((m.log2 : Int) + 1 + e - ((m'.log2 : Int) + 1 + e') - 53) (-1074)) = target := ⟨_, rfl⟩
  obtain ⟨n, hn⟩ : ∃ n, (e - e' - target).toNat = n := ⟨_, rfl⟩
  have hdivCore : divCore Format.binary64 m e m' e' =
      ((m <<< n) / m', target, accuracyOfFraction ((m <<< n) % m') m') := by
    rw [← hn, ← htarget]
    rfl
  have hroom : target ≤ -1074 ∨ 2 ^ 52 ≤ (m <<< n) / m' := by
    by_cases hlog : m'.log2 + 53 ≤ m.log2 + n
    · refine .inr ((Nat.le_div_iff_mul_le hm').mpr ?_)
      calc 2 ^ 52 * m' ≤ 2 ^ 52 * 2 ^ (m'.log2 + 1) := Nat.mul_le_mul_left _ Nat.lt_log2_self.le
        _ = 2 ^ (m'.log2 + 53) := by rw [← pow_add, show 52 + (m'.log2 + 1) = m'.log2 + 53 by omega]
        _ ≤ 2 ^ (m.log2 + n) := Nat.pow_le_pow_right (by decide) hlog
        _ = 2 ^ m.log2 * 2 ^ n := pow_add ..
        _ ≤ m <<< n := by
          rw [Nat.shiftLeft_eq]
          exact Nat.mul_le_mul_right _ (Nat.log2_self_le hm.ne')
    · exact .inl (by omega)
  obtain ⟨r, t, hrounds, heq⟩ := exists_rounds (Describes.div (m <<< n) hm') hroom (s / s')
  refine ⟨r, t, ?_, ?_⟩
  · have hshift : e - e' = target + n := by omega
    have hvalue : ((m <<< n : Nat) : ℚ) / m' * 2 ^ target = m * 2 ^ e / (m' * 2 ^ e') := by
      rw [show e = target + n + e' by omega, zpow_add₀ (by norm_num), zpow_add₀ (by norm_num),
        zpow_natCast, Nat.shiftLeft_eq]
      push_cast
      field_simp
    exact hvalue ▸ hrounds
  · let q := divCore Format.binary64 m e m' e'
    change roundWithAccuracy Format.binary64 (s / s') q.1 q.2.1 q.2.2 = _
    rw [show q = _ from hdivCore]
    exact heq

/-! ## The result -/

/-- A positive finite number as machines hold it: 53 bits, or the least exponent. -/
structure Machine (x : Binary) : Prop where
  pos : 0 < x.mantissa
  lt_two_pow : x.mantissa < 2 ^ 53
  least : -1074 ≤ x.exponent
  greatest : x.exponent ≤ 971
  normal : x.exponent = -1074 ∨ 2 ^ 52 ≤ x.mantissa
  narrow_iff : x.narrowBelow = true ↔ x.mantissa = 2 ^ 52 ∧ -1074 < x.exponent

variable {x : Binary} {v : ℚ}

/-- Seen from its own power of two a number is the nearest one, unless it is narrow and the value
lies below it. -/
theorem nearest_of_standsFor (h : x.StandsFor v) (hwide : x.narrowBelow = true → x.value ≤ v) :
    Nearest x.mantissa (v / 2 ^ x.exponent) := by
  have hunit : (0 : ℚ) < 2 ^ x.exponent := by positivity
  constructor
  · cases hnarrow : x.narrowBelow with
    | true =>
      have hv : (x.mantissa : ℚ) ≤ v / 2 ^ x.exponent := by
        rw [le_div_iff₀ hunit]
        exact hwide hnarrow
      exact .inl (by linarith)
    | false =>
      rw [lt_div_iff₀ hunit, eq_div_iff hunit.ne']
      simpa [Binary.lower, hnarrow] using h.above
  · rw [div_lt_iff₀ hunit, div_eq_iff hunit.ne']
    exact h.below

namespace Machine

theorem value_narrow (hx : Machine x) (hnarrow : x.narrowBelow = true) :
    x.value = 2 ^ (x.exponent + 52) := by
  have hmantissa : (x.mantissa : ℚ) = 2 ^ 52 := by exact_mod_cast (hx.narrow_iff.mp hnarrow).1
  rw [Binary.value, hmantissa, zpow_add₀ (by norm_num), mul_comm]
  rfl

theorem lower_narrow (hx : Machine x) (hnarrow : x.narrowBelow = true) :
    x.lower = (((2 ^ 53 : Nat) : ℚ) - 1 / 2) * 2 ^ (x.exponent - 1) := by
  have hmantissa : (x.mantissa : ℚ) = 2 ^ 52 := by exact_mod_cast (hx.narrow_iff.mp hnarrow).1
  have hdouble : (2 : ℚ) ^ x.exponent = 2 ^ (x.exponent - 1) * 2 := by
    rw [← zpow_add_one₀ (by norm_num), Int.sub_add_cancel]
  rw [Binary.lower, if_pos hnarrow, hmantissa, hdouble]
  push_cast
  ring

/-- A value below a narrow number is seen from the next smaller power of two. -/
theorem nearest_narrow (hx : Machine x) (h : x.StandsFor v) (hnarrow : x.narrowBelow = true)
    (hv : v < x.value) :
    Nearest (2 ^ 53) (v / 2 ^ (x.exponent - 1)) := by
  have hunit : (0 : ℚ) < 2 ^ (x.exponent - 1) := by positivity
  have hvalue : x.value = ((2 ^ 53 : Nat) : ℚ) * 2 ^ (x.exponent - 1) := by
    rw [hx.value_narrow hnarrow, show x.exponent + 52 = (x.exponent - 1) + 53 by omega,
      zpow_add₀ (by norm_num), mul_comm]
    norm_num
  constructor
  · rw [lt_div_iff₀ hunit, eq_div_iff hunit.ne', ← hx.lower_narrow hnarrow]
    exact h.above.imp_right fun h => ⟨by decide, h.2⟩
  · rw [div_lt_iff₀ hunit]
    rw [hvalue] at hv
    exact .inl (hv.trans (mul_lt_mul_of_pos_right (by linarith) hunit))

theorem lt_of_standsFor (hx : Machine x) (h : x.StandsFor v) : v < 2 ^ (x.exponent + 53) := by
  have hunit : (0 : ℚ) < 2 ^ x.exponent := by positivity
  have hmantissa : (x.mantissa : ℚ) + 1 ≤ 2 ^ 53 := by exact_mod_cast hx.lt_two_pow
  have hupper : x.upper < 2 ^ (x.exponent + 53) := by
    rw [Binary.upper, zpow_add₀ (by norm_num), mul_comm]
    refine mul_lt_mul_of_pos_left ?_ hunit
    rw [show (2 : ℚ) ^ (53 : Int) = 2 ^ 53 from rfl]
    linarith
  exact (h.below.elim le_of_lt fun h => h.2.le).trans_lt hupper

/-- Values that a normal number stands for have as many bits, unless they lie below a narrow one. -/
theorem le_of_standsFor (hx : Machine x) (h : x.StandsFor v)
    (hwide : x.narrowBelow = true → x.value ≤ v) (hexponent : x.exponent ≠ -1074) :
    2 ^ (x.exponent + 52) ≤ v := by
  cases hnarrow : x.narrowBelow with
  | true => exact (hx.value_narrow hnarrow).symm.le.trans (hwide hnarrow)
  | false =>
    have hunit : (0 : ℚ) < 2 ^ x.exponent := by positivity
    have hleast := hx.least
    have hnormal := hx.normal.resolve_left hexponent
    have hne : x.mantissa ≠ 2 ^ 52 := fun heq => by
      rw [hx.narrow_iff.mpr ⟨heq, by omega⟩] at hnarrow
      cases hnarrow
    have hmantissa : (2 : ℚ) ^ 52 + 1 ≤ x.mantissa := by
      exact_mod_cast Nat.lt_of_le_of_ne hnormal hne.symm
    have hlower : 2 ^ (x.exponent + 52) ≤ x.lower := by
      rw [Binary.lower, hnarrow, zpow_add₀ (by norm_num), mul_comm]
      refine mul_le_mul_of_nonneg_right ?_ hunit.le
      rw [show (2 : ℚ) ^ (52 : Int) = 2 ^ 52 from rfl]
      simp only [Bool.false_eq_true, if_false]
      linarith
    exact hlower.trans (h.above.elim le_of_lt fun h => h.2.le)

end Machine

/-- **Reading back**: if a binary number stands for the value, it is what the value is rounded
to. -/
theorem Rounds.settle_of_standsFor (hx : Machine x) (h : x.StandsFor v) {r : Nat} {t : Int}
    (hrounds : Rounds v r t) (s : Sign) :
    settle s r t = .finite s x.mantissa x.exponent hx.pos := by
  have hpow {i j : Int} (hlt : (2 : ℚ) ^ i < 2 ^ j) : i < j :=
    (zpow_lt_zpow_iff_right₀ (by norm_num)).mp hlt
  have hleast := hrounds.least
  have hmachine := hx.least
  by_cases hbelow : x.narrowBelow = true ∧ v < x.value
  · obtain ⟨hnarrow, hv⟩ := hbelow
    obtain ⟨hmantissa, hexponent⟩ := hx.narrow_iff.mp hnarrow
    have ht : t = x.exponent - 1 := by
      refine le_antisymm ?_ ?_
      · rcases hrounds.normal with hmin | hnormal
        · omega
        · have hlt := hpow (hnormal.trans_lt (hv.trans_eq (hx.value_narrow hnarrow)))
          omega
      · have hlower : (2 : ℚ) ^ (x.exponent + 51) < v := by
          refine lt_of_lt_of_le ?_ (h.above.elim le_of_lt fun h => h.2.le)
          rw [hx.lower_narrow hnarrow, show x.exponent + 51 = 52 + (x.exponent - 1) by omega,
            zpow_add₀ (by norm_num)]
          exact mul_lt_mul_of_pos_right (by norm_num) (by positivity)
        have hlt := hpow (hlower.trans hrounds.below)
        omega
    have hr : r = 2 ^ 53 := hrounds.nearest.unique (ht ▸ hx.nearest_narrow h hnarrow hv)
    rw [hr, ht, settle_two_pow]
    exact (finite.injEq ..).mpr ⟨rfl, hmantissa.symm, Int.sub_add_cancel ..⟩
  · have hwide : x.narrowBelow = true → x.value ≤ v :=
      fun hnarrow => not_lt.mp fun hv => hbelow ⟨hnarrow, hv⟩
    have ht : t = x.exponent := by
      refine le_antisymm ?_ ?_
      · rcases hrounds.normal with hmin | hnormal
        · omega
        · have hlt := hpow (hnormal.trans_lt (hx.lt_of_standsFor h))
          omega
      · by_cases hexponent : x.exponent = -1074
        · omega
        · have hlt := hpow ((hx.le_of_standsFor h hwide hexponent).trans_lt hrounds.below)
          omega
    have hr : r = x.mantissa := hrounds.nearest.unique (ht ▸ nearest_of_standsFor h hwide)
    rw [hr, ht, settle_of_lt hx.lt_two_pow, dif_neg hx.pos.ne']

end ItemStore.Rounding
