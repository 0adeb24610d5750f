import Mathlib.Algebra.Group.Nat.Defs
import ItemStore.Gzip.Member

/-!
# Stored blocks

Compressed data whose blocks are stored as they are unpacks to what was packed.

## Architecture

Reading is described on lists of bits, one level at a time:

- `readBits?_append`: a number is read as its low bits and then its high bits;
- `readBits?_bitsOfBytes`: a little-endian number is read from its bytes;
- `readBlocks?_storedBlock`: reading goes through one stored block and on behind it;
- `unpack?_pack`: a whole member is read back.
-/

namespace ItemStore.Gzip

/-! ## Numbers -/

/-- The number whose bits these are, lowest first. -/
def valueOf : List Bool → Nat
  | [] => 0
  | bit :: bits => 2 * valueOf bits + bit.toNat

/-- Behind some bits stands the rest of the number, shifted by as many places. -/
theorem readBits?_append (m : Nat) (bits tail : List Bool) :
    readBits? (bits.length + m) (bits ++ tail) =
      (readBits? m tail).map fun (n, rest) => (valueOf bits + 2 ^ bits.length * n, rest) := by
  induction bits with
  | nil => simp [valueOf]
  | cons bit bits ih =>
    -- the first bit is the lowest, so all that follows counts twice
    rw [List.length_cons, Nat.add_right_comm, List.cons_append, readBits?, ih, Option.map_map]
    congr 1
    funext ⟨n, rest⟩
    simp only [Function.comp_apply, valueOf, Nat.pow_succ]
    congr 1
    grind

theorem readBits?_self (bits tail : List Bool) :
    readBits? bits.length (bits ++ tail) = some (valueOf bits, tail) := by
  simpa [readBits?] using readBits?_append 0 bits tail

/-- The low bits of a number make up its remainder. -/
theorem valueOf_map_testBit (count m : Nat) :
    valueOf ((List.range count).map fun i => m.testBit i) = m % 2 ^ count := by
  induction count generalizing m with
  | zero => simp [valueOf, Nat.mod_one]
  | succ count ih =>
    have hshift : (fun i => m.testBit (i + 1)) = fun i => (m / 2).testBit i := by
      funext i
      exact Nat.testBit_succ m i
    rw [List.range_succ_eq_map, List.map_cons, List.map_map, valueOf]
    simp only [Function.comp_def, Nat.succ_eq_add_one, hshift, ih]
    rw [Nat.pow_succ', Nat.mod_mul]
    grind

@[simp]
theorem length_bitsOfByte (b : UInt8) : (bitsOfByte b).length = 8 := by
  simp [bitsOfByte]

theorem valueOf_bitsOfByte (b : UInt8) : valueOf (bitsOfByte b) = b.toNat := by
  rw [bitsOfByte, valueOf_map_testBit]
  exact Nat.mod_eq_of_lt b.toNat_lt

/-! ## Bytes -/

@[simp]
theorem bitsOfBytes_cons (b : UInt8) (bytes : List UInt8) :
    bitsOfBytes (b :: bytes) = bitsOfByte b ++ bitsOfBytes bytes := rfl

@[simp]
theorem bitsOfBytes_append (bytes more : List UInt8) :
    bitsOfBytes (bytes ++ more) = bitsOfBytes bytes ++ bitsOfBytes more :=
  List.flatMap_append

@[simp]
theorem length_bitsOfBytes (bytes : List UInt8) :
    (bitsOfBytes bytes).length = 8 * bytes.length := by
  induction bytes with
  | nil => rfl
  | cons b bytes ih =>
    rw [bitsOfBytes_cons, List.length_append, ih, length_bitsOfByte, List.length_cons]
    omega

/-- A little-endian number is read from its bytes. -/
theorem readBits?_bitsOfBytes (bytes : List UInt8) (rest : List Bool) :
    readBits? (8 * bytes.length) (bitsOfBytes bytes ++ rest) = some (natOfBytes bytes, rest) := by
  induction bytes with
  | nil => rfl
  | cons b bytes ih =>
    have hstep := readBits?_append (8 * bytes.length) (bitsOfByte b) (bitsOfBytes bytes ++ rest)
    rw [length_bitsOfByte, ih, valueOf_bitsOfByte] at hstep
    rw [List.length_cons, Nat.mul_add, Nat.add_comm, bitsOfBytes_cons, List.append_assoc, hstep]
    rfl

@[simp]
theorem length_bytesOfNat (count n : Nat) : (bytesOfNat count n).length = count := by
  induction count generalizing n with
  | zero => rfl
  | succ count ih => rw [bytesOfNat, List.length_cons, ih]

theorem natOfBytes_bytesOfNat (count n : Nat) :
    natOfBytes (bytesOfNat count n) = n % 256 ^ count := by
  induction count generalizing n with
  | zero => simp [bytesOfNat, natOfBytes, Nat.mod_one]
  | succ count ih =>
    rw [bytesOfNat, natOfBytes, ih, Nat.pow_succ', Nat.mod_mul]
    simp

/-- The number that a stored block starts with, and after it its complement. -/
theorem readBits?_bytesOfNat {n : Nat} (h : n < 65536) (rest : List Bool) :
    readBits? 16 (bitsOfBytes (bytesOfNat 2 n) ++ rest) = some (n, rest) := by
  have hread := readBits?_bitsOfBytes (bytesOfNat 2 n) rest
  have hrange : n < 256 ^ 2 := by omega
  rw [length_bytesOfNat, natOfBytes_bytesOfNat, Nat.mod_eq_of_lt hrange] at hread
  exact hread

theorem readBytes?_bitsOfBytes (bytes : List UInt8) (out : Array UInt8) (rest : List Bool) :
    readBytes? bytes.length out (bitsOfBytes bytes ++ rest) = some (out ++ bytes, rest) := by
  induction bytes generalizing out with
  | nil => simp [readBytes?]; rfl
  | cons b bytes ih =>
    have hread := readBits?_self (bitsOfByte b) (bitsOfBytes bytes ++ rest)
    rw [length_bitsOfByte, valueOf_bitsOfByte] at hread
    rw [List.length_cons, readBytes?, bitsOfBytes_cons, List.append_assoc, hread, Option.bind_some]
    dsimp only
    rw [ih, UInt8.ofNat_toNat]
    simp

/-! ## Blocks -/

/-- What is left of the first byte of a block behind its three bits is skipped, since whole bytes
follow. -/
theorem alignToByte_append {bits : List Bool} (h : bits.length < 8) (bytes : List UInt8) :
    alignToByte (bits ++ bitsOfBytes bytes) = bitsOfBytes bytes := by
  rw [alignToByte, List.length_append, length_bitsOfBytes, Nat.add_mul_mod_self_left,
    Nat.mod_eq_of_lt h]
  exact List.drop_left

theorem bitsOfByte_flag (final : Bool) :
    bitsOfByte (if final then 1 else 0) = final :: false :: false :: List.replicate 5 false := by
  cases final <;> decide

/-- A stored block holds its size, the complement of its size, and its content. -/
theorem readBlock?_stored {content : List UInt8} (h : content.length ≤ storedLimit)
    {begun : List Bool} (hbegun : begun.length < 8) (out : Array UInt8) (behind : List UInt8) :
    readBlock? 0 out (begun ++ bitsOfBytes (bytesOfNat 2 content.length
      ++ bytesOfNat 2 (storedLimit - content.length) ++ content ++ behind)) =
      some (out ++ content, bitsOfBytes behind) := by
  have hlength : content.length < 65536 := Nat.lt_succ_of_le h
  have hcomplement : storedLimit - content.length < 65536 := Nat.lt_succ_of_le (Nat.sub_le _ _)
  have hsum : content.length + (storedLimit - content.length) = 0xFFFF := Nat.add_sub_cancel' h
  -- the size and its complement add up, which is what the reader checks
  simp only [readBlock?, alignToByte_append hbegun]
  simp only [bitsOfBytes_append, List.append_assoc, readBits?_bytesOfNat hlength,
    readBits?_bytesOfNat hcomplement,
    Option.bind_eq_bind, Option.bind_some, hsum, ne_eq, not_true_eq_false, if_false]
  exact readBytes?_bitsOfBytes content out _

/-- Reading goes through a stored block, and on behind it unless it is the final one. -/
theorem readBlocks?_storedBlock {content : List UInt8} (h : content.length ≤ storedLimit)
    (final : Bool) (fuel : Nat) (out : Array UInt8) (behind : List UInt8) :
    readBlocks? (fuel + 1) out (bitsOfBytes (storedBlock final content ++ behind)) =
      if final then some (out ++ content, bitsOfBytes behind)
      else readBlocks? fuel (out ++ content) (bitsOfBytes behind) := by
  have hbegun : (List.replicate 5 false).length < 8 := by decide
  have hblock := readBlock?_stored h hbegun out behind
  simp only [storedBlock, List.cons_append, bitsOfBytes_cons, bitsOfByte_flag]
  simp only [readBlocks?, readBits?, Option.map_some, Option.bind_some, Bool.toNat_false,
    Nat.mul_zero, Nat.zero_add]
  simp only [List.append_assoc] at hblock ⊢
  rw [hblock]
  cases final <;> rfl

/-- Reading goes through all stored blocks. A block needs more than one byte, so the fuel lasts. -/
theorem readBlocks?_storedBlocks (bytes : List UInt8) {fuel : Nat} (h : bytes.length < fuel)
    (out : Array UInt8) (behind : List UInt8) :
    readBlocks? fuel out (bitsOfBytes (storedBlocks bytes ++ behind)) =
      some (out ++ bytes, bitsOfBytes behind) := by
  induction bytes using storedBlocks.induct generalizing fuel out with
  | case1 bytes hlength =>
    obtain ⟨fuel, rfl⟩ : ∃ n, fuel = n + 1 := Nat.exists_eq_add_one.mpr (Nat.zero_lt_of_lt h)
    rw [storedBlocks, if_pos hlength, readBlocks?_storedBlock hlength, if_pos rfl]
  | case2 bytes hlength ih =>
    obtain ⟨fuel, rfl⟩ : ∃ n, fuel = n + 1 := Nat.exists_eq_add_one.mpr (Nat.zero_lt_of_lt h)
    have htake : (bytes.take storedLimit).length ≤ storedLimit := List.length_take_le ..
    have hfuel : (bytes.drop storedLimit).length < fuel := by
      simp only [List.length_drop, storedLimit] at hlength ⊢
      omega
    have hwhole : out ++ bytes.take storedLimit ++ bytes.drop storedLimit = out ++ bytes :=
      Array.ext' (by simp)
    rw [storedBlocks, if_neg hlength, List.append_assoc, readBlocks?_storedBlock htake,
      if_neg Bool.false_ne_true, ih hfuel, hwhole]

/-- Stored blocks take more room than what they hold. -/
theorem length_lt_length_storedBlocks (bytes : List UInt8) :
    bytes.length < (storedBlocks bytes).length := by
  induction bytes using storedBlocks.induct with
  | case1 bytes hlength =>
    rw [storedBlocks, if_pos hlength]
    simp only [storedBlock, List.length_append, List.length_cons]
    omega
  | case2 bytes hlength ih =>
    rw [storedBlocks, if_neg hlength]
    simp only [storedBlock, List.length_append, List.length_cons, List.length_take,
      List.length_drop] at ih ⊢
    omega

theorem inflate?_storedBlocks (bytes behind : List UInt8) :
    inflate? (storedBlocks bytes ++ behind) = some (bytes, behind) := by
  have hfuel : bytes.length < (bitsOfBytes (storedBlocks bytes ++ behind)).length := by
    have hlength := length_lt_length_storedBlocks bytes
    rw [length_bitsOfBytes, List.length_append]
    omega
  -- what is left is found by counting the bytes that were read
  have hdrop : (storedBlocks bytes ++ behind).length - (bitsOfBytes behind).length / 8 =
      (storedBlocks bytes).length := by
    rw [length_bitsOfBytes, List.length_append]
    omega
  simp only [inflate?, readBlocks?_storedBlocks bytes hfuel, Option.map_some, hdrop, List.drop_left]
  simp

/-! ## Members -/

theorem natOfBytes_take {n : Nat} (h : n < 256 ^ 4) (behind : List UInt8) :
    natOfBytes ((bytesOfNat 4 n ++ behind).take 4) = n := by
  rw [List.take_left' (length_bytesOfNat 4 n), natOfBytes_bytesOfNat, Nat.mod_eq_of_lt h]

/-- **Unpacking undoes packing**, for bytes of any number. -/
theorem unpack?_pack (bytes : List UInt8) : unpack? (pack bytes) = some bytes := by
  have hheader : dropHeader? (pack bytes) = some (storedBlocks bytes
      ++ (bytesOfNat 4 (checksum bytes).toNat ++ bytesOfNat 4 (bytes.length % 0x100000000))) := by
    simp [dropHeader?, pack, dropExactly?, dropOptional?]
  have hchecksum : (checksum bytes).toNat < 256 ^ 4 := (checksum bytes).toNat_lt
  have hlength : bytes.length % 0x100000000 < 256 ^ 4 := Nat.mod_lt _ (by decide)
  have htrailer : (bytesOfNat 4 (checksum bytes).toNat ++
      bytesOfNat 4 (bytes.length % 0x100000000)).drop 4 =
      bytesOfNat 4 (bytes.length % 0x100000000) ++ [] := by
    rw [List.drop_left' (length_bytesOfNat ..), List.append_nil]
  rw [unpack?, hheader]
  simp only [Option.bind_eq_bind, Option.bind_some, inflate?_storedBlocks, htrailer,
    natOfBytes_take hchecksum, natOfBytes_take hlength, List.length_append, length_bytesOfNat]
  rfl

end ItemStore.Gzip
