import Mathlib.Algebra.Group.Nat.Defs
import ItemStore.Text.Base64

/-!
# Base64 and its standard

The encoder works in groups of three bytes. The standard speaks about bits: those of all the bytes
in a row are read again six at a time. The encoder keeps to the standard, and a text that keeps to
it stands for one list of bytes only.

## Main results

- `Base64.encodes_encodeBytes`: the encoder writes what the standard asks for, whatever the number
  of bytes is.
- `Base64.Encodes.unique`: two lists of bytes do not share a text.

## Architecture

1. `Base64.bits` writes a number in a fixed width. `Base64.bits_append` puts two numbers next to
   each other, and `Base64.bits_split` cuts one.
2. `Base64.Encodes` is the standard: an alphabet, zeros at the end of the bits, equals signs at the
   end of the text.
3. A text is read back from its end: without the equals signs it gives the bits, and their number
   tells the zeros apart.
-/

namespace ItemStore.Base64

/-! ## Bits -/

/-- The lowest bits of a number, in a fixed width and with the highest of them first. -/
def bits : Nat → Nat → List Bool
  | 0, _ => []
  | width + 1, n => bits width (n / 2) ++ [n % 2 == 1]

@[simp] theorem length_bits (width n : Nat) : (bits width n).length = width := by
  induction width generalizing n with
  | zero => rfl
  | succ width ih => rw [bits, List.length_append, ih, List.length_singleton]

theorem bits_append (m : Nat) {n x y : Nat} (hy : y < 2 ^ n) :
    bits (m + n) (x * 2 ^ n + y) = bits m x ++ bits n y := by
  induction n generalizing y with
  | zero =>
    have hzero : y = 0 := by simpa using hy
    simp [hzero, bits]
  | succ n ih =>
    have hhalf : y / 2 < 2 ^ n := by
      rw [Nat.pow_succ] at hy
      omega
    have hdiv : (x * 2 ^ (n + 1) + y) / 2 = x * 2 ^ n + y / 2 := by
      rw [Nat.pow_succ, ← Nat.mul_assoc]
      omega
    have hmod : (x * 2 ^ (n + 1) + y) % 2 = y % 2 := by
      rw [Nat.pow_succ, ← Nat.mul_assoc]
      omega
    show bits (m + n) ((x * 2 ^ (n + 1) + y) / 2) ++ [(x * 2 ^ (n + 1) + y) % 2 == 1] = _
    rw [hdiv, hmod, ih hhalf, List.append_assoc]
    rfl

theorem bits_zero (width : Nat) : bits width 0 = List.replicate width false := by
  induction width with
  | zero => rfl
  | succ width ih =>
    rw [bits, Nat.zero_div, ih, List.replicate_succ']
    rfl

/-- A multiple of a power of two ends in zeros. -/
theorem bits_mul (m n x : Nat) : bits (m + n) (x * 2 ^ n) = bits m x ++ List.replicate n false := by
  rw [← bits_zero, ← bits_append m (Nat.two_pow_pos n), Nat.add_zero]

theorem bits_split (m n x : Nat) : bits (m + n) x = bits m (x / 2 ^ n) ++ bits n (x % 2 ^ n) := by
  rw [← bits_append m (Nat.mod_lt x (Nat.two_pow_pos n)), Nat.div_add_mod']

theorem bits_inj {width x y : Nat} (hx : x < 2 ^ width) (hy : y < 2 ^ width)
    (h : bits width x = bits width y) : x = y := by
  induction width generalizing x y with
  | zero => simp_all
  | succ width ih =>
    rw [Nat.pow_succ] at hx hy
    obtain ⟨hhigh, hlow⟩ :=
      List.append_inj' (h : bits width (x / 2) ++ _ = bits width (y / 2) ++ _) rfl
    have hhalf : x / 2 = y / 2 := ih (by omega) (by omega) hhigh
    have hparity : (x % 2 == 1) = (y % 2 == 1) := by simpa using hlow
    rw [Bool.eq_iff_iff, beq_iff_eq, beq_iff_eq] at hparity
    omega

/-- The bits of some bytes in a row. -/
def byteBits (bytes : List UInt8) : List Bool := bytes.flatMap fun byte => bits 8 byte.toNat

@[simp] theorem byteBits_cons (byte : UInt8) (bytes : List UInt8) :
    byteBits (byte :: bytes) = bits 8 byte.toNat ++ byteBits bytes := rfl

theorem byteBits_append (bytes bytes' : List UInt8) :
    byteBits (bytes ++ bytes') = byteBits bytes ++ byteBits bytes' :=
  List.flatMap_append

@[simp] theorem length_byteBits (bytes : List UInt8) :
    (byteBits bytes).length = 8 * bytes.length := by
  induction bytes with
  | nil => rfl
  | cons byte bytes ih =>
    rw [byteBits_cons, List.length_append, length_bits, ih, List.length_cons]
    omega

theorem byteBits_inj {bytes bytes' : List UInt8} (h : byteBits bytes = byteBits bytes') :
    bytes = bytes' := by
  induction bytes generalizing bytes' with
  | nil =>
    have hlength : 0 = 8 * bytes'.length := by
      rw [← length_byteBits, ← h, byteBits, List.flatMap_nil, List.length_nil]
    exact (List.length_eq_zero_iff.mp (by omega)).symm
  | cons byte bytes ih =>
    cases bytes' with
    | nil => simpa using congrArg List.length h
    | cons byte' bytes' =>
      obtain ⟨hfirst, hrest⟩ := List.append_inj h (by simp)
      rw [UInt8.toNat_inj.mp (bits_inj byte.toNat_lt byte'.toNat_lt hfirst), ih hrest]

/-! ## The standard -/

/-- The characters of the numbers below sixty-four, in their order. -/
def alphabet : List Char :=
  "ABCDEFGHIJKLMNOPQRSTUVWXYZabcdefghijklmnopqrstuvwxyz0123456789+/".toList

/-- **The standard**: the bits of the bytes, with fewer than six zeros behind them, are read as
numbers of six bits, these are written with the characters of the alphabet, and equals signs fill up
the last group of four characters. -/
def Encodes (bytes : List UInt8) (text : List Char) : Prop :=
  ∃ (sextets : List Nat) (chars : List Char) (zeros pads : Nat),
    sextets.flatMap (bits 6) = byteBits bytes ++ List.replicate zeros false ∧ zeros < 6 ∧
      (sextets.map fun sextet => alphabet[sextet]?) = chars.map some ∧
        text = chars ++ List.replicate pads '=' ∧ pads < 4 ∧ 4 ∣ text.length

theorem alphabet_eq : alphabet = (List.range 64).map digit := by decide +kernel

theorem getElem?_alphabet {sextet : Nat} (h : sextet < 64) :
    alphabet[sextet]? = some (digit sextet) := by
  simp [alphabet_eq, h]

/-- No two characters are the same, and the one that fills up groups is none of them. -/
theorem alphabet_nodup : ('=' :: alphabet).Nodup := by
  have hnumbers : (('=' :: (List.range 64).map digit).map Char.toNat).Nodup := by decide +kernel
  rw [alphabet_eq]
  exact List.Pairwise.of_map Char.toNat
    (fun a b hne hsame => hne (congrArg Char.toNat hsame)) hnumbers

/-- A list of numbers below sixty-four is written with the characters of the alphabet. -/
theorem encodes_of_sextets {bytes : List UInt8} {sextets : List Nat} {zeros pads : Nat}
    (hbits : sextets.flatMap (bits 6) = byteBits bytes ++ List.replicate zeros false)
    (hzeros : zeros < 6) (hsextets : ∀ sextet ∈ sextets, sextet < 64) (hpads : pads < 4)
    (hlength : 4 ∣ sextets.length + pads) :
    Encodes bytes (sextets.map digit ++ List.replicate pads '=') := by
  refine ⟨sextets, sextets.map digit, zeros, pads, hbits, hzeros, ?_, rfl, hpads, ?_⟩
  · rw [List.map_map]
    exact List.map_congr_left fun sextet hmem => getElem?_alphabet (hsextets sextet hmem)
  · rw [List.length_append, List.length_map, List.length_replicate]
    exact hlength

/-! ## The encoder keeps to the standard -/

section Groups

variable (a b c : UInt8)

/-- The four numbers of a full group. -/
def groupSextets : List Nat :=
  [a.toNat / 4, a.toNat % 4 * 16 + b.toNat / 16, b.toNat % 16 * 4 + c.toNat / 64, c.toNat % 64]

/-- A byte fills one number of six bits and begins another. -/
theorem bits_first : bits 8 a.toNat = bits 6 (a.toNat / 4) ++ bits 2 (a.toNat % 4) :=
  bits_split 6 2 a.toNat

theorem bits_second : bits 8 b.toNat = bits 4 (b.toNat / 16) ++ bits 4 (b.toNat % 16) :=
  bits_split 4 4 b.toNat

theorem bits_third : bits 8 c.toNat = bits 2 (c.toNat / 64) ++ bits 6 (c.toNat % 64) :=
  bits_split 2 6 c.toNat

theorem bits_first_second :
    bits 6 (a.toNat % 4 * 16 + b.toNat / 16) = bits 2 (a.toNat % 4) ++ bits 4 (b.toNat / 16) := by
  apply bits_append 2 (n := 4)
  have hb := b.toNat_lt
  omega

theorem bits_second_third :
    bits 6 (b.toNat % 16 * 4 + c.toNat / 64) = bits 4 (b.toNat % 16) ++ bits 2 (c.toNat / 64) := by
  apply bits_append 4 (n := 2)
  have hc := c.toNat_lt
  omega

theorem bits_groupSextets : (groupSextets a b c).flatMap (bits 6) = byteBits [a, b, c] := by
  simp [groupSextets, byteBits, bits_first a, bits_second b, bits_third c, bits_first_second,
    bits_second_third]

theorem lt_of_mem_groupSextets {sextet : Nat} (h : sextet ∈ groupSextets a b c) : sextet < 64 := by
  have ha := a.toNat_lt
  have hb := b.toNat_lt
  have hc := c.toNat_lt
  simp only [groupSextets, List.mem_cons, List.not_mem_nil, or_false] at h
  omega

theorem encodes_one : Encodes [a] (encodeBytes [a]) := by
  have ha := a.toNat_lt
  have hbits : [a.toNat / 4, a.toNat % 4 * 16].flatMap (bits 6) =
      byteBits [a] ++ List.replicate 4 false := by
    have hlast : bits 6 (a.toNat % 4 * 16) = bits 2 (a.toNat % 4) ++ List.replicate 4 false :=
      bits_mul 2 4 (a.toNat % 4)
    simp [byteBits, bits_first, hlast]
  have hsextets : ∀ sextet ∈ [a.toNat / 4, a.toNat % 4 * 16], sextet < 64 := by
    simp only [List.mem_cons, List.not_mem_nil, or_false]
    omega
  exact encodes_of_sextets hbits (by decide) hsextets (by decide : 2 < 4) ⟨1, rfl⟩

theorem encodes_two : Encodes [a, b] (encodeBytes [a, b]) := by
  have ha := a.toNat_lt
  have hb := b.toNat_lt
  have hbits : [a.toNat / 4, a.toNat % 4 * 16 + b.toNat / 16, b.toNat % 16 * 4].flatMap (bits 6) =
      byteBits [a, b] ++ List.replicate 2 false := by
    have hlast : bits 6 (b.toNat % 16 * 4) = bits 4 (b.toNat % 16) ++ List.replicate 2 false :=
      bits_mul 4 2 (b.toNat % 16)
    simp [byteBits, bits_first a, bits_second b, bits_first_second, hlast]
  have hsextets : ∀ sextet ∈ [a.toNat / 4, a.toNat % 4 * 16 + b.toNat / 16, b.toNat % 16 * 4],
      sextet < 64 := by
    simp only [List.mem_cons, List.not_mem_nil, or_false]
    omega
  exact encodes_of_sextets hbits (by decide) hsextets (by decide : 1 < 4) ⟨1, rfl⟩

/-- A full group goes before a text that keeps to the standard. -/
theorem Encodes.group {bytes : List UInt8} {text : List Char} (h : Encodes bytes text) :
    Encodes (a :: b :: c :: bytes) ((groupSextets a b c).map digit ++ text) := by
  obtain ⟨sextets, chars, zeros, pads, hbits, hzeros, hchars, rfl, hpads, hlength⟩ := h
  refine ⟨groupSextets a b c ++ sextets, (groupSextets a b c).map digit ++ chars, zeros, pads,
    ?_, hzeros, ?_, (List.append_assoc ..).symm, hpads, ?_⟩
  · rw [List.flatMap_append, bits_groupSextets, hbits, ← List.append_assoc, ← byteBits_append]
    rfl
  · rw [List.map_append, List.map_append, hchars, List.map_map]
    congr 1
    exact List.map_congr_left fun sextet hmem =>
      getElem?_alphabet (lt_of_mem_groupSextets a b c hmem)
  · rw [List.length_append]
    exact Nat.dvd_add ⟨1, rfl⟩ hlength

end Groups

/-- **The encoder keeps to the standard**, for any number of bytes. -/
theorem encodes_encodeBytes (bytes : List UInt8) : Encodes bytes (encodeBytes bytes) := by
  fun_induction encodeBytes bytes with
  | case1 => exact ⟨[], [], 0, 0, rfl, by decide, rfl, rfl, by decide, ⟨0, rfl⟩⟩
  | case2 a => exact encodes_one a
  | case3 a b => exact encodes_two a b
  | case4 a b c rest ih => exact ih.group a b c

/-! ## A text is read back -/

theorem not_mem_of_map_alphabet {sextets : List Nat} {chars : List Char}
    (h : (sextets.map fun sextet => alphabet[sextet]?) = chars.map some) : '=' ∉ chars := by
  intro hmem
  have hsome : some '=' ∈ sextets.map fun sextet => alphabet[sextet]? :=
    h ▸ List.mem_map_of_mem hmem
  obtain ⟨sextet, -, hsextet⟩ := List.mem_map.mp hsome
  exact (List.nodup_cons.mp alphabet_nodup).1 (List.mem_of_getElem? hsextet)

theorem takeWhile_of_not_mem {chars : List Char} (h : '=' ∉ chars) (pads : Nat) :
    (chars ++ List.replicate pads '=').takeWhile (· ≠ '=') = chars := by
  rw [List.takeWhile_append_of_pos]
  · cases pads <;> simp [List.replicate_succ]
  · intro c hc
    simpa using ne_of_mem_of_not_mem hc h

theorem sextets_eq {sextets sextets' : List Nat} {chars : List Char}
    (h : (sextets.map fun sextet => alphabet[sextet]?) = chars.map some)
    (h' : (sextets'.map fun sextet => alphabet[sextet]?) = chars.map some) : sextets =
      sextets' := by
  induction chars generalizing sextets sextets' with
  | nil => rw [List.map_eq_nil_iff.mp h, List.map_eq_nil_iff.mp h']
  | cons c chars ih =>
    obtain ⟨first, rest, rfl, hfirst, hrest⟩ := List.map_eq_cons_iff.mp h
    obtain ⟨first', rest', rfl, hfirst', hrest'⟩ := List.map_eq_cons_iff.mp h'
    obtain ⟨hlt, -⟩ := List.getElem?_eq_some_iff.mp hfirst
    have hnodup := (List.nodup_cons.mp alphabet_nodup).2
    rw [(List.getElem?_inj hlt hnodup).mp (hfirst.trans hfirst'.symm), ih hrest hrest']

/-- **Two lists of bytes do not share a text**: there are fewer zeros behind the bits than a byte
has bits. -/
theorem Encodes.unique {bytes bytes' : List UInt8} {text : List Char} (h : Encodes bytes text)
    (h' : Encodes bytes' text) :
    bytes = bytes' := by
  obtain ⟨sextets, chars, zeros, pads, hbits, hzeros, hchars, htext, -, -⟩ := h
  obtain ⟨sextets', chars', zeros', pads', hbits', hzeros', hchars', htext', -, -⟩ := h'
  have hsame : chars = chars' := by
    rw [← takeWhile_of_not_mem (not_mem_of_map_alphabet hchars) pads, ← htext, htext',
      takeWhile_of_not_mem (not_mem_of_map_alphabet hchars')]
  subst hsame
  rw [sextets_eq hchars' hchars] at hbits'
  have hequal : byteBits bytes ++ List.replicate zeros false =
      byteBits bytes' ++ List.replicate zeros' false :=
    hbits.symm.trans hbits'
  have hlength : 8 * bytes.length + zeros = 8 * bytes'.length + zeros' := by
    simpa using congrArg List.length hequal
  have hcount : (byteBits bytes).length = (byteBits bytes').length := by
    rw [length_byteBits, length_byteBits]
    omega
  exact byteBits_inj (List.append_inj_left hequal hcount)

theorem encodeBytes_inj {bytes bytes' : List UInt8} :
    encodeBytes bytes = encodeBytes bytes' ↔ bytes = bytes' := by
  constructor
  · intro h
    exact (encodes_encodeBytes bytes).unique (h ▸ encodes_encodeBytes bytes')
  · rintro rfl
    rfl

/-- One byte leaves four zeros and two equals signs, two bytes leave two zeros and one. -/
example : encode "k:" = "azo=" ∧ encode "key:" = "a2V5Og==" := ⟨rfl, rfl⟩

end ItemStore.Base64
