import ItemStore.Text.Utf8

/-!
# Texts and their bytes

A text is read back from its UTF-8 bytes (`Text.fromUTF8?_toByteArray`), and the order of texts,
which compares characters, is that of their bytes (`Text.lt_iff_bytes_lt`): the bytes of a greater
character are greater, whatever follows.
-/

namespace ItemStore.Text

/-! ## Reading -/

theorem fromUTF8?_toByteArray (s : String) : String.fromUTF8? s.toByteArray = some s := by
  rw [String.fromUTF8?, dif_pos s.isValidUTF8]
  rfl

theorem decodeLossy_toByteArray (s : String) : decodeLossy s.toByteArray = s := by
  rw [decodeLossy, fromUTF8?_toByteArray]

/-! ## Order -/

/-- The bytes of a text. -/
def bytes (s : String) : List UInt8 :=
  s.toUTF8.data.toList

theorem bytes_eq_flatMap (s : String) : bytes s = s.toList.flatMap String.utf8EncodeChar := by
  rw [bytes, String.toUTF8_eq_toByteArray, ← String.utf8Encode_toList, List.utf8Encode,
    List.data_toByteArray]

theorem bytes_inj {s t : String} : bytes s = bytes t ↔ s = t := by
  rw [bytes, bytes, Array.toList_inj, ← ByteArray.ext_iff, String.toUTF8_eq_toByteArray,
    String.toUTF8_eq_toByteArray, String.toByteArray_inj]

/-- The bytes of a greater character are greater, whatever follows. -/
theorem utf8EncodeChar_append_lt {c d : Char} (h : c < d) (cs ds : List UInt8) :
    String.utf8EncodeChar c ++ cs < String.utf8EncodeChar d ++ ds := by
  have hlt : c.val.toNat < d.val.toNat := UInt32.lt_iff_toNat_lt.mp h
  have hd : d.val.toNat < 0x110000 := by
    rcases d.valid with hd | hd
    · exact Nat.lt_trans hd (by decide)
    · exact hd.2
  -- all bytes but the first are digits in base 64
  have hthird (k : Nat) : k / 4096 = k / 64 / 64 := (Nat.div_div_eq_div_mul k 64 64).symm
  have hfourth (k : Nat) : k / 262144 = k / 64 / 64 / 64 := by
    rw [Nat.div_div_eq_div_mul, Nat.div_div_eq_div_mul]
  have hdigit (k : Nat) : (k % 64 + 128) % 256 = k % 64 + 128 := by omega
  rw [String.utf8EncodeChar.eq_1, String.utf8EncodeChar.eq_1]
  generalize c.val.toNat = m at hlt
  generalize d.val.toNat = n at hlt hd
  repeat' split
  all_goals
    simp only [List.cons_append, List.nil_append, List.cons_lt_cons_iff, UInt8.lt_iff_toNat_lt,
      ← UInt8.toNat_inj, UInt8.toNat_ofNat', hthird, hfourth, hdigit]
    omega

private theorem append_lt_append {as bs : List UInt8} (h : as < bs) (front : List UInt8) :
    front ++ as < front ++ bs := by
  induction front with
  | nil => exact h
  | cons b front ih => exact List.cons_lt_cons_iff.mpr (.inr ⟨rfl, ih⟩)

private theorem flatMap_lt_flatMap {cs ds : List Char} (h : cs < ds) :
    cs.flatMap String.utf8EncodeChar < ds.flatMap String.utf8EncodeChar := by
  induction cs generalizing ds with
  | nil =>
    cases ds with
    | nil => exact absurd h (List.lt_irrefl _)
    | cons d ds =>
      obtain ⟨b, bs, hd⟩ := List.exists_cons_of_ne_nil (@String.utf8EncodeChar_ne_nil d)
      rw [List.flatMap_cons, hd]
      exact List.nil_lt_cons _ _
  | cons c cs ih =>
    cases ds with
    | nil => exact absurd h (List.not_lt_nil _)
    | cons d ds =>
      rw [List.flatMap_cons, List.flatMap_cons]
      rcases List.cons_lt_cons_iff.mp h with hlt | ⟨rfl, hlt⟩
      · exact utf8EncodeChar_append_lt hlt _ _
      · exact append_lt_append (ih hlt) _

/-- **The order of texts is that of their bytes.** -/
theorem lt_iff_bytes_lt {s t : String} : s < t ↔ bytes s < bytes t := by
  rw [bytes_eq_flatMap, bytes_eq_flatMap]
  constructor
  · exact flatMap_lt_flatMap
  · intro h
    refine Decidable.byContradiction fun hnot => ?_
    by_cases heq : s = t
    · exact List.lt_irrefl _ (heq ▸ h)
    · have hgreater : t < s := Decidable.byContradiction fun hnot' =>
        heq (String.le_antisymm hnot' hnot)
      exact List.lt_asymm h (flatMap_lt_flatMap hgreater)

theorem pairwise_bytes_lt_iff {ks : List String} :
    (ks.Pairwise fun k k' => bytes k < bytes k') ↔ ks.Pairwise (· < ·) := by
  simp only [lt_iff_bytes_lt]

end ItemStore.Text
