import ItemStore.Proofs.Text.Utf8
import ItemStore.Text.Percent

/-!
# Percent-encoded texts

An encoded text consists of plain characters only, unreserved ones and percent signs, and decoding
gives the text back.

- `Percent.isPlain_of_mem_encode`: what an encoded text consists of;
- `Percent.decode?_encode`, `Percent.decodeLossy_encode`: reading undoes writing, for every text.
-/

namespace ItemStore.Percent

/-! ## Plain characters -/

/-- A character that an encoded text may hold. -/
def isPlain (c : Char) : Bool :=
  isUnreserved c || c = '%'

private theorem toNat_lt_of_isAlphanum {c : Char} (h : c.isAlphanum = true) : c.toNat < 128 := by
  have hcases : (c.isUpper = true ∨ c.isLower = true) ∨ c.isDigit = true :=
    (Bool.or_eq_true_iff.mp h).imp_left Bool.or_eq_true_iff.mp
  rcases hcases with (hupper | hlower) | hdigit
  · have hrange : c.val ≥ 'A'.val ∧ c.val ≤ 'Z'.val := of_decide_eq_true hupper
    exact Nat.lt_of_le_of_lt (UInt32.le_iff_toNat_le.mp hrange.2) (by decide)
  · have hbelow : c.val ≤ 'z'.val := of_decide_eq_true (Bool.and_eq_true_iff.mp hlower).2
    exact Nat.lt_of_le_of_lt (UInt32.le_iff_toNat_le.mp hbelow) (by decide)
  · exact Nat.lt_of_le_of_lt (Char.isDigit_iff_toNat.mp hdigit).2 (by decide)

theorem toNat_lt_of_isPlain {c : Char} (h : isPlain c = true) : c.toNat < 128 := by
  simp only [isPlain, isUnreserved, Bool.or_eq_true, decide_eq_true_eq] at h
  rcases h with ((((h | rfl) | rfl) | rfl) | rfl) | rfl
  · exact toNat_lt_of_isAlphanum h
  all_goals decide

/-- What holds of all plain ones among the ASCII characters holds of every plain character. -/
theorem of_isPlain {P : Char → Prop}
    (hall : ∀ n < 128, isPlain (Char.ofNat n) = true → P (Char.ofNat n)) {c : Char}
    (h : isPlain c = true) : P c := by
  have hc := hall c.toNat (toNat_lt_of_isPlain h)
  rw [Char.ofNat_toNat] at hc
  exact hc h

theorem isPlain_of_isUnreserved {c : Char} (h : isUnreserved c = true) : isPlain c = true := by
  rw [isPlain, h, Bool.true_or]

private theorem isPlain_hexDigit : ∀ n < 16, isPlain (hexDigit n) = true := by
  decide

theorem isPlain_of_mem_encodeByte {b : UInt8} {c : Char} (h : c ∈ encodeByte b) :
    isPlain c = true := by
  have hb : b.toNat < 256 := b.toNat_lt
  simp only [encodeByte, List.mem_cons, List.not_mem_nil, or_false] at h
  rcases h with rfl | rfl | rfl
  · rfl
  · exact isPlain_hexDigit _ (by omega)
  · exact isPlain_hexDigit _ (by omega)

/-- The characters of a text as `encode` writes them. -/
def encodeChars (cs : List Char) : List Char :=
  encodeCharsWhere (fun c => !isUnreserved c) cs

theorem toList_encode (s : String) : (encode s).toList = encodeChars s.toList := by
  rw [encode, encodeWhere, String.toList_ofList, encodeChars]

theorem encodeChars_cons (c : Char) (cs : List Char) :
    encodeChars (c :: cs) = (if isUnreserved c then [c] else encodeChar c) ++ encodeChars cs := by
  cases h : isUnreserved c <;> simp [encodeChars, encodeCharsWhere, h]

theorem isPlain_of_mem_encodeChars {cs : List Char} {c : Char} (h : c ∈ encodeChars cs) :
    isPlain c = true := by
  induction cs with
  | nil => cases h
  | cons d rest ih =>
    rw [encodeChars_cons] at h
    rcases List.mem_append.mp h with h | h
    · split at h
      next hd => exact List.mem_singleton.mp h ▸ isPlain_of_isUnreserved hd
      next =>
        obtain ⟨b, -, hb⟩ := List.mem_flatMap.mp h
        exact isPlain_of_mem_encodeByte hb
    · exact ih h

theorem isPlain_of_mem_encode {s : String} {c : Char} (h : c ∈ (encode s).toList) :
    isPlain c = true :=
  isPlain_of_mem_encodeChars (toList_encode s ▸ h)

theorem encode_eq_empty_iff {s : String} : encode s = "" ↔ s = "" := by
  constructor
  · intro h
    have hlist := toList_encode s
    rw [h] at hlist
    cases hs : s.toList with
    | nil => exact String.toList_eq_nil_iff.mp hs
    | cons c rest =>
      rw [hs, encodeChars_cons] at hlist
      have hfirst := (List.append_eq_nil_iff.mp hlist.symm).1
      split at hfirst
      next => cases hfirst
      next =>
        -- each character has a byte, and each byte is written with three characters
        obtain ⟨b, bs, hbytes⟩ := List.exists_cons_of_ne_nil (@String.utf8EncodeChar_ne_nil c)
        simp [encodeChar, hbytes, encodeByte] at hfirst
  · rintro rfl
    rfl

/-- A text of unreserved characters is written as it is. -/
theorem encode_eq_self {s : String} (h : ∀ c ∈ s.toList, isUnreserved c = true) : encode s = s := by
  have hlist : ∀ cs : List Char, (∀ c ∈ cs, isUnreserved c = true) → encodeChars cs = cs := by
    intro cs hcs
    induction cs with
    | nil => rfl
    | cons c rest ih =>
      obtain ⟨hc, hrest⟩ := List.forall_mem_cons.mp hcs
      rw [encodeChars_cons, if_pos hc, ih hrest]
      rfl
  rw [← String.toList_inj, toList_encode, hlist _ h]

/-! ## Decoding -/

private theorem hexValue?_hexDigit : ∀ n < 16, hexValue? (hexDigit n) = some n := by
  decide

theorem decodeBytes_encodeByte (b : UInt8) (rest : List Char) :
    decodeBytes (encodeByte b ++ rest) = b :: decodeBytes rest := by
  have hb : b.toNat < 256 := b.toNat_lt
  have hhigh := hexValue?_hexDigit (b.toNat / 16) (by omega)
  have hlow := hexValue?_hexDigit (b.toNat % 16) (by omega)
  have hbyte : UInt8.ofNat (16 * (b.toNat / 16) + b.toNat % 16) = b := by
    rw [Nat.div_add_mod, UInt8.ofNat_toNat]
  simp only [encodeByte, List.cons_append, List.nil_append, decodeBytes, hhigh, hlow, hbyte]

theorem decodeBytes_flatMap_encodeByte (bytes : List UInt8) (rest : List Char) :
    decodeBytes (bytes.flatMap encodeByte ++ rest) = bytes ++ decodeBytes rest := by
  induction bytes with
  | nil => rfl
  | cons b bytes ih =>
    rw [List.flatMap_cons, List.append_assoc, decodeBytes_encodeByte, ih, List.cons_append]

theorem decodeBytes_cons_of_ne {c : Char} (h : c ≠ '%') (rest : List Char) :
    decodeBytes (c :: rest) = String.utf8EncodeChar c ++ decodeBytes rest := by
  rw [decodeBytes.eq_def]
  split
  next heq => cases heq
  next heq => exact absurd (List.cons.inj heq).1 h
  next heq =>
    obtain ⟨rfl, rfl⟩ := List.cons.inj heq
    rfl

/-- The bytes of an encoded text are those of the text. -/
theorem decodeBytes_encodeChars (cs : List Char) :
    decodeBytes (encodeChars cs) = cs.flatMap String.utf8EncodeChar := by
  induction cs with
  | nil => rfl
  | cons c rest ih =>
    rw [encodeChars_cons, List.flatMap_cons]
    cases hc : isUnreserved c with
    | true =>
      -- a percent sign is not unreserved, so none of the text is taken for an escape
      have hpercent : c ≠ '%' := by
        rintro rfl
        cases hc
      rw [if_pos rfl, List.cons_append, List.nil_append, decodeBytes_cons_of_ne hpercent, ih]
    | false => rw [if_neg Bool.false_ne_true, encodeChar, decodeBytes_flatMap_encodeByte, ih]

theorem toByteArray_decodeBytes_encode (s : String) :
    (decodeBytes (encode s).toList).toByteArray = s.toByteArray := by
  rw [toList_encode, decodeBytes_encodeChars]
  exact String.utf8Encode_toList

/-- **Reading undoes writing**, for every text. -/
theorem decode?_encode (s : String) : decode? (encode s) = some s := by
  rw [decode?, toByteArray_decodeBytes_encode, Text.fromUTF8?_toByteArray]

theorem decodeLossy_encode (s : String) : decodeLossy (encode s) = s := by
  rw [decodeLossy, toByteArray_decodeBytes_encode, Text.decodeLossy_toByteArray]

end ItemStore.Percent
