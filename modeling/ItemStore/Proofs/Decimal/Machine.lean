import ItemStore.Json.Basic
import ItemStore.Proofs.Decimal.Rounding
import Mathlib.Tactic.IntervalCases

/-!
# Machine numbers

The bits of a finite machine number hold a mantissa and an exponent, and a float that is made of a
decimal has its value, rounded.

## Main results

- `Rounding.Machine.unpack_pack`: what was packed into bits is found in them again;
- `Rounding.ofScientific_eq_pack`: the value of a decimal is rounded once;
- `Double.machine`: what the printer finds in the bits of a number is a machine number.
-/

namespace ItemStore

open Float.Model Float.Model.UnpackedFloat

namespace Rounding

/-! ## Packing -/

theorem toNat_packComponents (s : Sign) (e : BitVec 11) (m : BitVec 52) :
    (packComponents Format.binary64 s e m).toNat =
      s.toBitVec.toNat * 2 ^ 63 + e.toNat * 2 ^ 52 + m.toNat := by
  have happend {k l : Nat} (a : BitVec k) (b : BitVec l) : (a ++ b).toNat =
      a.toNat * 2 ^ l + b.toNat := by
    rw [BitVec.toNat_append, ← Nat.shiftLeft_add_eq_or_of_lt b.isLt, Nat.shiftLeft_eq]
  have htotal : (packComponents Format.binary64 s e m).toNat =
      (s.toBitVec.toNat * 2 ^ 11 + e.toNat) * 2 ^ 52 + m.toNat := by
    rw [← happend, ← happend]
    rfl
  rw [htotal]
  omega

theorem log2_add_one_eq_iff {m : Nat} (hm : m < 2 ^ 53) : m.log2 + 1 = 53 ↔ 2 ^ 52 ≤ m := by
  by_cases hzero : m = 0
  · simp [hzero]
  · have hlog : m.log2 < 53 := (Nat.log2_lt hzero).mpr hm
    rw [← Nat.le_log2 hzero]
    omega

variable {x : Binary}

/-- The biased exponent of a machine number fits into its eleven bits. -/
private theorem biased (hx : Machine x) : ¬2 ^ 11 ≤ (x.exponent + 1023 + 52).toNat + 1 := by
  have := hx.greatest
  omega

theorem Machine.pack_of_le (hx : Machine x) (s : Sign) (h : 2 ^ 52 ≤ x.mantissa) :
    UnpackedFloat.pack Format.binary64 (.finite s x.mantissa x.exponent hx.pos) =
      packComponents Format.binary64 s (BitVec.ofNat 11 (x.exponent + 1075).toNat)
        (BitVec.ofNat 52 x.mantissa) := by
  have hlog : x.mantissa.log2 + 1 = 53 := (log2_add_one_eq_iff hx.lt_two_pow).mpr h
  have hbias : x.exponent + 1023 + 52 = x.exponent + 1075 := by omega
  unfold UnpackedFloat.pack
  rw [← hbias]
  exact (if_neg (biased hx)).trans (if_pos hlog)

theorem Machine.pack_of_lt (hx : Machine x) (s : Sign) (h : x.mantissa < 2 ^ 52) :
    UnpackedFloat.pack Format.binary64 (.finite s x.mantissa x.exponent hx.pos) =
      packComponents Format.binary64 s 0 (BitVec.ofNat 52 x.mantissa) := by
  have hlog : ¬x.mantissa.log2 + 1 = 53 := fun hlog => by
    have := (log2_add_one_eq_iff hx.lt_two_pow).mp hlog
    omega
  unfold UnpackedFloat.pack
  exact (if_neg (biased hx)).trans (if_neg hlog)

/-- The bits of a machine number. -/
theorem Machine.toNat_pack (hx : Machine x) (s : Sign) :
    (UnpackedFloat.pack Format.binary64 (.finite s x.mantissa x.exponent hx.pos)).toNat =
      s.toBitVec.toNat * 2 ^ 63 +
        if 2 ^ 52 ≤ x.mantissa then (x.exponent + 1074).toNat * 2 ^ 52 + x.mantissa
          else x.mantissa := by
  have hleast := hx.least
  have hgreatest := hx.greatest
  have hlt := hx.lt_two_pow
  by_cases h : 2 ^ 52 ≤ x.mantissa
  · rw [if_pos h, hx.pack_of_le s h, toNat_packComponents, BitVec.toNat_ofNat, BitVec.toNat_ofNat]
    omega
  · rw [if_neg h, hx.pack_of_lt s (not_le.mp h), toNat_packComponents, BitVec.toNat_ofNat]
    simp only [BitVec.ofNat_eq_ofNat, BitVec.toNat_ofNat]
    omega

/-! ## Unpacking -/

theorem unpackSign_packComponents (s : Sign) (e : BitVec 11) (m : BitVec 52) :
    Sign.ofBitVec (@unpackSign Format.binary64 (packComponents Format.binary64 s e m)) = s := by
  have hsign : @unpackSign Format.binary64 (packComponents Format.binary64 s e m) = s.toBitVec := by
    have htoNat (b : BitVec 64) : (@unpackSign Format.binary64 b).toNat = b.toNat / 2 ^ 63 % 2 := by
      rw [← Nat.shiftRight_eq_div_pow]
      exact BitVec.extractLsb_toNat ..
    refine BitVec.eq_of_toNat_eq ?_
    rw [htoNat, toNat_packComponents]
    omega
  rw [hsign]
  cases s <;> rfl

/-- Bits whose exponent is between the extremes stand for a number with a leading one before its
mantissa. -/
theorem unpack_of_normal {s : Sign} {e : BitVec 11} {m : BitVec 52} (hinfinite : e ≠ -1#11)
    (hzero : e ≠ 0#11) (hpos : 0 < x.mantissa) (hmantissa : (1#1 ++ m).toNat = x.mantissa)
    (hexponent : (e.toNat : Int) - 1075 = x.exponent) :
    UnpackedFloat.unpack Format.binary64 (packComponents Format.binary64 s e m) =
      .finite s x.mantissa x.exponent hpos := by
  have hs := unpackSign_packComponents s e m
  have he : @unpackExponent Format.binary64 (packComponents Format.binary64 s e m) = e :=
    unpackExponent_packComponents
  have hm : @unpackMantissa Format.binary64 (packComponents Format.binary64 s e m) = m :=
    unpackMantissa_packComponents
  generalize packComponents Format.binary64 s e m = b at hs he hm ⊢
  subst hs he hm
  refine (if_neg hinfinite).trans ((if_neg hzero).trans ?_)
  exact (finite.injEq ..).mpr ⟨rfl, hmantissa, hexponent⟩

/-- Bits whose exponent is zero stand for a number with a zero before its mantissa. -/
theorem unpack_of_subnormal {s : Sign} {m : BitVec 52} (hne : m ≠ 0#52) (hpos : 0 < x.mantissa)
    (hmantissa : m.toNat = x.mantissa) (hexponent : -1074 = x.exponent) :
    UnpackedFloat.unpack Format.binary64 (packComponents Format.binary64 s 0 m) =
      .finite s x.mantissa x.exponent hpos := by
  have hs := unpackSign_packComponents s 0 m
  have he : @unpackExponent Format.binary64 (packComponents Format.binary64 s 0 m) = 0#11 :=
    unpackExponent_packComponents
  have hm : @unpackMantissa Format.binary64 (packComponents Format.binary64 s 0 m) = m :=
    unpackMantissa_packComponents
  generalize packComponents Format.binary64 s 0 m = b at hs he hm ⊢
  subst hs hm
  have hfinite : @unpackExponent Format.binary64 b ≠ -1#11 := by
    rw [he]
    decide
  refine (if_neg hfinite).trans ((if_pos he).trans ((dif_neg hne).trans ?_))
  refine (finite.injEq ..).mpr ⟨rfl, hmantissa, ?_⟩
  rw [he]
  exact hexponent

/-- What was packed is unpacked. -/
theorem Machine.unpack_pack (hx : Machine x) (s : Sign) :
    UnpackedFloat.unpack Format.binary64
      (UnpackedFloat.pack Format.binary64 (.finite s x.mantissa x.exponent hx.pos)) =
      .finite s x.mantissa x.exponent hx.pos := by
  have hleast := hx.least
  have hgreatest := hx.greatest
  have hlt := hx.lt_two_pow
  by_cases hnormal : 2 ^ 52 ≤ x.mantissa
  · have hexponent : (BitVec.ofNat 11 (x.exponent + 1075).toNat).toNat =
        (x.exponent + 1075).toNat := by
      rw [BitVec.toNat_ofNat, Nat.mod_eq_of_lt (by omega)]
    have hinfinite : BitVec.ofNat 11 (x.exponent + 1075).toNat ≠ -1#11 := fun heq => by
      have htoNat := congrArg BitVec.toNat heq
      rw [hexponent] at htoNat
      have : (-1#11).toNat = 2047 := rfl
      omega
    have hzero : BitVec.ofNat 11 (x.exponent + 1075).toNat ≠ 0#11 := fun heq => by
      have htoNat := congrArg BitVec.toNat heq
      rw [hexponent] at htoNat
      have : (0#11).toNat = 0 := rfl
      omega
    have hmantissa : (1#1 ++ BitVec.ofNat 52 x.mantissa).toNat = x.mantissa := by
      have hlow : (BitVec.ofNat 52 x.mantissa).toNat = x.mantissa % 2 ^ 52 := BitVec.toNat_ofNat ..
      rw [BitVec.toNat_append, ← Nat.shiftLeft_add_eq_or_of_lt (BitVec.isLt _), hlow,
        Nat.shiftLeft_eq]
      have : (1#1).toNat = 1 := rfl
      omega
    have hbias : ((BitVec.ofNat 11 (x.exponent + 1075).toNat).toNat : Int) - 1075 = x.exponent := by
      rw [hexponent]
      omega
    rw [hx.pack_of_le s hnormal]
    exact unpack_of_normal hinfinite hzero hx.pos hmantissa hbias
  · have hexponent : x.exponent = -1074 := hx.normal.resolve_right hnormal
    have hmantissa : (BitVec.ofNat 52 x.mantissa).toNat = x.mantissa := by
      rw [BitVec.toNat_ofNat, Nat.mod_eq_of_lt (not_le.mp hnormal)]
    have hne : BitVec.ofNat 52 x.mantissa ≠ 0#52 := fun heq => by
      have htoNat := congrArg BitVec.toNat heq
      rw [hmantissa] at htoNat
      exact hx.pos.ne' htoNat
    rw [hx.pack_of_lt s (not_le.mp hnormal)]
    exact unpack_of_subnormal hne hx.pos hmantissa hexponent.symm

/-! ## Floats of decimals -/

/-- Naturals of 53 bits are machine numbers. -/
theorem exists_machine_natCast {n : Nat} (hn : n ≠ 0) (hlt : n < 2 ^ 53) :
    ∃ x, Machine x ∧ x.value = n ∧ 2 ^ 52 ≤ x.mantissa := by
  obtain ⟨k, hk⟩ : ∃ k, n.log2 + k = 52 :=
    Nat.exists_eq_add_of_le (Nat.lt_succ_iff.mp ((Nat.log2_lt hn).mpr hlt)) |>.imp
      fun _ h => h.symm
  have hlow : 2 ^ 52 ≤ n * 2 ^ k := by
    rw [← hk, pow_add]
    exact Nat.mul_le_mul_right _ (Nat.log2_self_le hn)
  have hhigh : n * 2 ^ k < 2 ^ 53 := by
    rw [show 53 = n.log2 + 1 + k by omega, pow_add]
    exact Nat.mul_lt_mul_of_pos_right Nat.lt_log2_self (by positivity)
  refine ⟨⟨n * 2 ^ k, -k, n * 2 ^ k = 2 ^ 52⟩, ⟨?_, hhigh, ?_, ?_, .inr hlow, ?_⟩, ?_, hlow⟩
  · exact Nat.lt_of_lt_of_le (by decide) hlow
  · dsimp only
    omega
  · dsimp only
    omega
  · simp only [decide_eq_true_eq, iff_self_and]
    omega
  · rw [Binary.value, zpow_neg, zpow_natCast]
    push_cast
    field_simp

/-- A float that is a positive finite number, its mantissa having all 53 bits. -/
structure IsPositive (f : Float) (v : ℚ) (m : Nat) (e : Int) : Prop where
  large : 2 ^ 52 ≤ m
  value : (m : ℚ) * 2 ^ e = v
  unpack : ∀ hm : 0 < m, f.toModel.unpack = .finite .positive m e hm

theorem exists_isPositive_natCast {n : Nat} (hn : n ≠ 0) (hlt : n < 2 ^ 53) :
    ∃ m e, IsPositive n.toUInt64.toFloat n m e := by
  obtain ⟨x, hx, hvalue, hlarge⟩ := exists_machine_natCast hn hlt
  refine ⟨x.mantissa, x.exponent, hlarge, hvalue, fun _ => ?_⟩
  have hmodel : n.toUInt64.toFloat.toModel =
      .pack (UnpackedFloat.round Format.binary64 .positive n 0) := by
    have hword : n.toUInt64.toNat = n := Nat.mod_eq_of_lt (by omega)
    have hsign : compare (n : Int) 0 = .gt := compare_gt_iff_gt.mpr (by omega)
    change Float.Model.pack
      (UnpackedFloat.normalize Format.binary64 (n.toUInt64.toNat : Int) 0 .positive) = _
    rw [hword, UnpackedFloat.normalize, hsign]
    rfl
  obtain ⟨r, t, hrounds, hround⟩ := exists_rounds_round hn 0 .positive
  have hstands : x.StandsFor (n * 2 ^ (0 : Int)) := by
    rw [zpow_zero, mul_one, ← hvalue]
    exact x.standsFor_value
  rw [hmodel, hround, hrounds.settle_of_standsFor hx hstands]
  exact hx.unpack_pack .positive

/-- A power of ten from the table for small exponents. -/
def powerOfTen (k : Nat) (hk : k < 23) : Float :=
  getElem Float.exactlyRepresentablePowersOfTen k hk

/-- Whether an unpacked float is this power of ten. -/
def isPowerOfTen (k : Nat) : UnpackedFloat → Bool
  | .finite .positive m e _ => m * 2 ^ e.toNat = 10 ^ k * 2 ^ (-e).toNat ∧ 2 ^ 52 ≤ m
  | _ => false

private theorem isPowerOfTen_table :
    ∀ k : Fin 23, isPowerOfTen k (powerOfTen k k.isLt).toModel.unpack = true := by
  decide +kernel

theorem exists_isPositive_powerOfTen {k : Nat} (hk : k < 23) :
    ∃ m e, IsPositive (powerOfTen k hk) (10 ^ k) m e := by
  have htable := isPowerOfTen_table ⟨k, hk⟩
  unfold isPowerOfTen at htable
  split at htable
  next m e hm hunpack =>
    obtain ⟨hvalue, hlarge⟩ := of_decide_eq_true htable
    refine ⟨m, e, hlarge, ?_, fun _ => hunpack⟩
    have hcast : (m : ℚ) * 2 ^ e.toNat = 10 ^ k * 2 ^ (-e).toNat := by exact_mod_cast hvalue
    have hpow : (2 : ℚ) ^ (-e).toNat ≠ 0 := by positivity
    refine mul_right_cancel₀ hpow ?_
    rw [mul_assoc, zpow_mul_pow_toNat (by norm_num), hcast]
  next => cases htable

/-- Small decimals take one multiplication or division. -/
private theorem ofScientific_fast {n : Nat} {e : Int} (hn : n ≠ 0) (hlt : n < 2 ^ 53)
    (he : e.natAbs < 23) :
    ∃ r t, Rounds (n * 10 ^ e) r t ∧
      Float.ofScientific n (decide (e < 0)) e.natAbs = .ofModel (.pack (settle .positive r t)) := by
  obtain ⟨m, i, hf⟩ := exists_isPositive_natCast hn hlt
  obtain ⟨m', i', hg⟩ := exists_isPositive_powerOfTen he
  have hm : 0 < m := Nat.lt_of_lt_of_le (by decide) hf.large
  have hm' : 0 < m' := Nat.lt_of_lt_of_le (by decide) hg.large
  have hfast : n < 2 ^ 53 ∧ e.natAbs ≤ 22 := ⟨hlt, Nat.le_of_lt_succ he⟩
  rw [Float.ofScientific, dif_pos hfast]
  by_cases hsign : e < 0
  · obtain ⟨r, t, hrounds, heq⟩ := exists_rounds_div i i' .positive .positive hm hm'
    refine ⟨r, t, ?_, ?_⟩
    · rw [hf.value, hg.value] at hrounds
      rwa [show e = -(e.natAbs : Int) by omega, zpow_neg, zpow_natCast, ← div_eq_mul_inv]
    · rw [if_pos (decide_eq_true hsign)]
      change Float.ofModel
        (.pack (UnpackedFloat.div Format.binary64 n.toUInt64.toFloat.toModel.unpack
        (powerOfTen e.natAbs he).toModel.unpack)) = _
      rw [hf.unpack hm, hg.unpack hm', heq]
      rfl
  · have hroom : 2 ^ 52 ≤ m * m' := hf.large.trans (Nat.le_mul_of_pos_right m hm')
    obtain ⟨r, t, hrounds, heq⟩ := exists_rounds_mul hroom i i' .positive .positive hm hm'
    refine ⟨r, t, ?_, ?_⟩
    · rw [hf.value, hg.value] at hrounds
      rwa [show e = (e.natAbs : Int) by omega, zpow_natCast]
    · rw [if_neg (by simpa using hsign)]
      change Float.ofModel
        (.pack (UnpackedFloat.mul Format.binary64 n.toUInt64.toFloat.toModel.unpack
        (powerOfTen e.natAbs he).toModel.unpack)) = _
      rw [hf.unpack hm, hg.unpack hm', heq]
      rfl

/-- The others take arithmetic on naturals, unless they are far too great or too small. -/
private theorem ofScientific_slow {n : Nat} {e : Int} (hn : n ≠ 0)
    (hlow : -(2048 + (n.log2 : Int)) ≤ e) (hhigh : e ≤ 2048) :
    ∃ r t, Rounds (n * 10 ^ e) r t ∧
    UnpackedFloat.ofScientific Format.binary64 n e = settle .positive r t := by
  have hpos : 0 < n := Nat.pos_of_ne_zero hn
  have hgreat : ¬e > 2 ^ 11 := by omega
  have hsmall : ¬e < -((2 ^ 11 : Int) + (n.log2 : Int)) := by omega
  rw [UnpackedFloat.ofScientific, dif_neg hn, if_neg hgreat, if_neg hsmall]
  by_cases hsign : 0 ≤ e
  · have hshift : n <<< 53 = n * 2 ^ 53 := Nat.shiftLeft_eq ..
    have hten : 0 < 10 ^ e.toNat := Nat.pow_pos (by decide)
    have hroom : 2 ^ 52 ≤ n <<< 53 * 10 ^ e.toNat := by
      rw [hshift]
      calc 2 ^ 52 ≤ 1 * 2 ^ 53 * 1 := by decide
        _ ≤ n * 2 ^ 53 * 10 ^ e.toNat := Nat.mul_le_mul (Nat.mul_le_mul_right _ hpos) hten
    obtain ⟨r, t, hrounds, heq⟩ :=
      exists_rounds_mul hroom (-53) 0 .positive .positive (by omega) hten
    refine ⟨r, t, ?_, ?_⟩
    · have hvalue : ((n <<< 53 : Nat) : ℚ) * 2 ^ (-53 : Int) *
          (((10 ^ e.toNat : Nat) : ℚ) * 2 ^ (0 : Int)) = n * 10 ^ e := by
        rw [hshift, show (10 : ℚ) ^ e = 10 ^ e.toNat by
          rw [← zpow_natCast, Int.toNat_of_nonneg hsign]]
        push_cast
        rw [zpow_neg, zpow_ofNat]
        field_simp
        norm_num
      exact hvalue ▸ hrounds
    · rw [if_pos hsign]
      exact heq
  · have hten : 0 < 10 ^ (-e).toNat := Nat.pow_pos (by decide)
    obtain ⟨r, t, hrounds, heq⟩ := exists_rounds_div 0 0 .positive .positive hpos hten
    refine ⟨r, t, ?_, ?_⟩
    · have hvalue : (n : ℚ) * 2 ^ (0 : Int) / (((10 ^ (-e).toNat : Nat) : ℚ) * 2 ^ (0 : Int)) =
          n * 10 ^ e := by
        rw [show (10 : ℚ) ^ e = (10 ^ (-e).toNat)⁻¹ by
          rw [← zpow_natCast, ← zpow_neg, Int.toNat_of_nonneg (by omega), neg_neg]]
        push_cast
        rw [mul_one, mul_one, div_eq_mul_inv]
      exact hvalue ▸ hrounds
    · rw [if_neg hsign]
      exact heq

theorem two_pow_le_ten_pow (k : Nat) : (2 : ℚ) ^ ((3 * k : Nat) : Int) ≤ 10 ^ (k : Int) := by
  rw [zpow_natCast, zpow_natCast, pow_mul]
  exact pow_le_pow_left₀ (by norm_num) (by norm_num) k

/-- A value within a wide range is given by an exponent that is neither too great nor too small. -/
private theorem exponent_bounds {n : Nat} {e : Int} (hn : n ≠ 0)
    (hlow : (2 : ℚ) ^ (-2000 : Int) ≤ n * 10 ^ e) (hhigh : (n : ℚ) * 10 ^ e ≤ 2 ^ (2000 : Int)) :
    -(2048 + (n.log2 : Int)) ≤ e ∧ e ≤ 2048 := by
  have hpow {i j : Int} (hle : (2 : ℚ) ^ i ≤ 2 ^ j) : i ≤ j :=
    (zpow_le_zpow_iff_right₀ (by norm_num)).mp hle
  have hone : (1 : ℚ) ≤ n := by exact_mod_cast Nat.pos_of_ne_zero hn
  constructor
  · by_cases hsign : e < 0
    · obtain ⟨k, rfl⟩ : ∃ k : Nat, e = -k := ⟨(-e).toNat, by omega⟩
      have hn' : (n : ℚ) ≤ 2 ^ ((n.log2 : Int) + 1) := by exact_mod_cast Nat.lt_log2_self.le
      have hle : (2 : ℚ) ^ (-2000 : Int) ≤ 2 ^ ((n.log2 : Int) + 1 - (3 * k : Nat)) := by
        calc (2 : ℚ) ^ (-2000 : Int) ≤ n * 10 ^ (-(k : Int)) := hlow
          _ ≤ 2 ^ ((n.log2 : Int) + 1) * 2 ^ (-((3 * k : Nat) : Int)) := by
            rw [zpow_neg, zpow_neg]
            exact mul_le_mul hn' (inv_anti₀ (by positivity) (two_pow_le_ten_pow k)) (by positivity)
              (by positivity)
          _ = 2 ^ ((n.log2 : Int) + 1 - (3 * k : Nat)) := by
            rw [← zpow_add₀ (by norm_num), sub_eq_add_neg]
      have := hpow hle
      omega
    · omega
  · by_cases hsign : 0 ≤ e
    · obtain ⟨k, rfl⟩ := Int.eq_ofNat_of_zero_le hsign
      have hle : (2 : ℚ) ^ ((3 * k : Nat) : Int) ≤ 2 ^ (2000 : Int) := by
        calc (2 : ℚ) ^ ((3 * k : Nat) : Int) ≤ 10 ^ (k : Int) := two_pow_le_ten_pow k
          _ ≤ n * 10 ^ (k : Int) := le_mul_of_one_le_left (by positivity) hone
          _ ≤ 2 ^ (2000 : Int) := hhigh
      have := hpow hle
      omega
    · omega

/-- **The value of a decimal is rounded once.** -/
theorem ofScientific_eq_pack {n : Nat} {e : Int} (hn : n ≠ 0)
    (hlow : (2 : ℚ) ^ (-2000 : Int) ≤ n * 10 ^ e) (hhigh : (n : ℚ) * 10 ^ e ≤ 2 ^ (2000 : Int)) :
    ∃ r t, Rounds (n * 10 ^ e) r t ∧
      Float.ofScientific n (decide (e < 0)) e.natAbs = .ofModel (.pack (settle .positive r t)) := by
  by_cases hfast : n < 2 ^ 53 ∧ e.natAbs ≤ 22
  · exact ofScientific_fast hn hfast.1 (Nat.lt_succ_of_le hfast.2)
  · obtain ⟨hleast, hgreatest⟩ := exponent_bounds hn hlow hhigh
    obtain ⟨r, t, hrounds, heq⟩ := ofScientific_slow hn hleast hgreatest
    have hexponent : (if decide (e < 0) = true then Int.negOfNat e.natAbs else Int.ofNat e.natAbs) =
        e := by
      by_cases hsign : e < 0
      · rw [if_pos (decide_eq_true hsign), Int.negOfNat_eq]
        simp only [Int.ofNat_eq_natCast]
        omega
      · rw [if_neg (by simpa using hsign)]
        simp only [Int.ofNat_eq_natCast]
        omega
    refine ⟨r, t, hrounds, ?_⟩
    rw [Float.ofScientific, dif_neg hfast]
    dsimp only
    rw [hexponent, Float.Model.ofScientific, heq]

end Rounding

/-! ## The bits of a number -/

namespace Double

open Rounding

/-- Masks of the printer keep the low bits of a word. -/
private theorem toNat_and (a : UInt64) :
    (a &&& 0x7FFFFFFFFFFFFFFF).toNat = a.toNat % 2 ^ 63 ∧
    (a &&& 0xFFFFFFFFFFFFF).toNat = a.toNat % 2 ^ 52 := by
  simp only [UInt64.toNat_and]
  exact ⟨Nat.and_two_pow_sub_one_eq_mod _ 63, Nat.and_two_pow_sub_one_eq_mod _ 52⟩

/-- The bits of a word where a number has its exponent. -/
theorem toNat_exponentField (a : UInt64) :
    ((a >>> 52) &&& 0x7FF).toNat = a.toNat / 2 ^ 52 % 2 ^ 11 := by
  rw [UInt64.toNat_and, UInt64.toNat_shiftRight, ← Nat.shiftRight_eq_div_pow]
  exact Nat.and_two_pow_sub_one_eq_mod _ 11

/-- The eleven bits of the exponent. -/
def exponentBits (x : Double) : Nat :=
  x.bits.toNat / 2 ^ 52 % 2 ^ 11

theorem exponentBits_lt (x : Double) : x.exponentBits < 2047 := by
  have hfinite : ((x.bits >>> 52) &&& 0x7FF).toNat ≠ 2047 :=
    fun heq => x.finite (UInt64.toNat_inj.mp heq)
  rw [toNat_exponentField] at hfinite
  rw [exponentBits]
  omega

theorem toNat_magnitude (x : Double) :
    x.magnitude.toNat = x.exponentBits * 2 ^ 52 + x.bits.toNat % 2 ^ 52 := by
  rw [magnitude, (toNat_and _).1, exponentBits]
  omega

/-- What the printer finds in the bits of a number. -/
theorem ofBits_magnitude (x : Double) :
    Binary.ofBits x.magnitude =
      if x.exponentBits = 0 then ⟨x.bits.toNat % 2 ^ 52, -1074, false⟩
      else ⟨2 ^ 52 + x.bits.toNat % 2 ^ 52, (x.exponentBits : Int) - 1075,
        x.bits.toNat % 2 ^ 52 = 0 && 1 < x.exponentBits⟩ := by
  have hlt := x.exponentBits_lt
  have hmagnitude := x.toNat_magnitude
  have hexponent : ((x.magnitude >>> 52) &&& 0x7FF).toNat = x.exponentBits := by
    rw [toNat_exponentField]
    omega
  have hfraction : (x.magnitude &&& 0xFFFFFFFFFFFFF).toNat = x.bits.toNat % 2 ^ 52 := by
    rw [(toNat_and _).2]
    omega
  rw [Binary.ofBits]
  simp only [hexponent, hfraction]
  rfl

theorem machine {x : Double} (h : x.magnitude ≠ 0) : Machine (Binary.ofBits x.magnitude) := by
  have hlt := x.exponentBits_lt
  have hmagnitude := x.toNat_magnitude
  have hne : x.magnitude.toNat ≠ 0 := fun heq => h (UInt64.toNat_inj.mp heq)
  rw [ofBits_magnitude]
  split
  next hzero =>
    have hpos : 0 < x.bits.toNat % 2 ^ 52 := by omega
    exact ⟨hpos, Nat.lt_trans (Nat.mod_lt _ (by decide)) (by decide), le_rfl, by dsimp only; omega,
      .inl rfl, by simp⟩
  next hzero =>
    refine ⟨?_, ?_, ?_, ?_, .inr ?_, ?_⟩ <;> dsimp only
    case refine_6 =>
      simp only [Bool.and_eq_true, decide_eq_true_eq]
      omega
    all_goals omega

end Double

end ItemStore
