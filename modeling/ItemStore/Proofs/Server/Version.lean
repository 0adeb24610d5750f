import ItemStore.Proofs.Message.Headers
import ItemStore.Proofs.Text.Blank
import ItemStore.Server.Handle

/-!
# Texts of versions

A version is written with sixteen hexadecimal digits, stands between quotes in an answer, and is
read back from an answer by a client and from a condition by the server.

- `Server.refText_inj`: different numbers have different texts;
- `Server.etagRef?_of_entityTag`: a client finds the version in the entity tag of an answer;
- `Server.conditionRef_of_names`: the server finds the version in a condition, whatever blanks and
  quotes surround it.
-/

namespace ItemStore.Server

/-! ## Digits -/

/-- The number that hexadecimal digits stand for. -/
def hexNumber (digits : List Char) : Nat :=
  digits.foldl (fun n c => 16 * n + (Percent.hexValue? c).getD 0) 0

private theorem hexValue?_digitChar : ∀ d < 16, Percent.hexValue? (Nat.digitChar d) = some d := by
  decide

private theorem hexNumber_append_digitChar (digits : List Char) {d : Nat} (hd : d < 16) :
    hexNumber (digits ++ [Nat.digitChar d]) = 16 * hexNumber digits + d := by
  simp [hexNumber, List.foldl_append, hexValue?_digitChar d hd]

theorem hexNumber_toDigits (n : Nat) : hexNumber (Nat.toDigits 16 n) = n := by
  induction n using Nat.strongRecOn with
  | ind n ih =>
    rw [Nat.toDigits_eq_if (by decide)]
    split
    next hlt => simpa [hexNumber] using hexNumber_append_digitChar [] hlt
    next hge =>
      rw [hexNumber_append_digitChar _ (Nat.mod_lt n (by decide)), ih (n / 16) (by omega)]
      omega

/-- Zeros in front do not count. -/
theorem hexNumber_zeros (k : Nat) (digits : List Char) :
    hexNumber (List.replicate k '0' ++ digits) = hexNumber digits := by
  induction k with
  | zero => rfl
  | succ k ih =>
    have hzero : (Percent.hexValue? '0').getD 0 = 0 := by decide
    simpa [hexNumber, List.replicate_succ, hzero] using ih

theorem toList_refText (n : UInt64) :
    (refText n).toList =
      List.replicate (16 - (Text.hexDigits n.toNat).length) '0' ++ Nat.toDigits 16 n.toNat := by
  simp [refText, Text.hexDigits]

/-- Different numbers have different texts. -/
theorem refText_inj {m n : UInt64} (h : refText m = refText n) : m = n := by
  have htexts := congrArg (fun s => hexNumber s.toList) h
  simp only [toList_refText, hexNumber_zeros, hexNumber_toDigits] at htexts
  exact UInt64.toNat_inj.mp htexts

private theorem exists_digitChar_of_mem_toDigits {n : Nat} {c : Char} (h : c ∈ Nat.toDigits 16 n) :
    ∃ d < 16, c = Nat.digitChar d := by
  induction n using Nat.strongRecOn with
  | ind n ih =>
    rw [Nat.toDigits_eq_if (by decide)] at h
    split at h
    next hlt => exact ⟨n, hlt, List.mem_singleton.mp h⟩
    next hge =>
      rcases List.mem_append.mp h with h | h
      · exact ih (n / 16) (by omega) h
      · exact ⟨n % 16, Nat.mod_lt n (by decide), List.mem_singleton.mp h⟩

/-- No character of a version is blank or a quote. -/
theorem plain_of_mem_refText {n : UInt64} {c : Char} (h : c ∈ (refText n).toList) :
    Text.isBlank c = false ∧ c ≠ '"' := by
  have hdigits : ∀ d < 16, Text.isBlank (Nat.digitChar d) = false ∧
      Nat.digitChar d ≠ '"' := by decide
  rw [toList_refText] at h
  rcases List.mem_append.mp h with h | h
  · rw [(List.mem_replicate.mp h).2]
    decide
  · obtain ⟨d, hd, rfl⟩ := exists_digitChar_of_mem_toDigits h
    exact hdigits d hd

/-- No character of a version needs encoding. -/
theorem isUnreserved_of_mem_refText {n : UInt64} {c : Char} (h : c ∈ (refText n).toList) :
    Percent.isUnreserved c = true := by
  have hdigits : ∀ d < 16, Percent.isUnreserved (Nat.digitChar d) = true := by decide
  rw [toList_refText] at h
  rcases List.mem_append.mp h with h | h
  · rw [(List.mem_replicate.mp h).2]
    decide
  · obtain ⟨d, hd, rfl⟩ := exists_digitChar_of_mem_toDigits h
    exact hdigits d hd

theorem refText_ne_empty (n : UInt64) : refText n ≠ "" := by
  intro h
  have hlist := toList_refText n
  rw [h] at hlist
  exact Nat.toDigits_ne_nil (List.append_eq_nil_iff.mp hlist.symm).2

/-! ## Conditions -/

/-- A header value that names a version: the version, between any quotes, between any blanks. -/
def Names (value ref : String) : Prop :=
  ∃ left quotes quotes' right : List Char,
    value.toList = left ++ (quotes ++ ref.toList ++ quotes') ++ right ∧
      (∀ c ∈ left, Text.isBlank c = true) ∧ (∀ c ∈ right, Text.isBlank c = true) ∧
      (∀ c ∈ quotes, c = '"') ∧ ∀ c ∈ quotes', c = '"'

/-- A client that sends back an entity tag names the version in it. -/
theorem names_entityTag (ref : String) : Names (entityTag ref) ref :=
  ⟨[], ['"'], ['"'], [], by simp [entityTag], by simp, by simp, by simp, by simp⟩

/-- The server finds the version that a condition names. -/
theorem conditionRef_of_names {value : String} {n : UInt64} (h : Names value (refText n)) :
    conditionRef value = refText n := by
  obtain ⟨left, quotes, quotes', right, hvalue, hleft, hright, hquotes, hquotes'⟩ := h
  have hblank : ∀ c ∈ quotes ++ (refText n).toList ++ quotes', Text.isBlank c = false := by
    intro c hc
    rcases List.mem_append.mp hc with hc | hc
    · rcases List.mem_append.mp hc with hc | hc
      · rw [hquotes c hc]
        decide
      · exact (plain_of_mem_refText hc).1
    · rw [hquotes' c hc]
      decide
  -- the blanks go first, which stops at the quotes, then the quotes, which stops at the digits
  have htrimmed : Text.trim value = String.ofList (quotes ++ (refText n).toList ++ quotes') :=
    Text.trimWhere_eq hvalue hleft hright hblank
  rw [conditionRef, htrimmed]
  refine (Text.trimWhere_eq (String.toList_ofList ..) ?_ ?_ ?_).trans (String.ofList_toList ..)
  · exact fun c hc => decide_eq_true (hquotes c hc)
  · exact fun c hc => decide_eq_true (hquotes' c hc)
  · exact fun c hc => decide_eq_false (plain_of_mem_refText hc).2

/-! ## Entity tags -/

theorem unquote_entityTag (ref : String) : Response.unquote (entityTag ref) = ref := by
  simp [Response.unquote, entityTag]

/-- A client finds the version in an entity tag. -/
theorem tagRef_entityTag (n : UInt64) : Response.tagRef (entityTag (refText n)) = refText n := by
  have hblank : ∀ c ∈ (entityTag (refText n)).toList, Text.isBlank c = false := by
    intro c hc
    simp only [entityTag, String.toList_append] at hc
    rcases List.mem_append.mp hc with hc | hc
    · rcases List.mem_append.mp hc with hc | hc
      · rw [List.mem_singleton.mp hc]
        decide
      · exact (plain_of_mem_refText hc).1
    · rw [List.mem_singleton.mp hc]
      decide
  have htrimmed : Text.trim (entityTag (refText n)) = entityTag (refText n) :=
    (@Text.trimWhere_eq _ _ [] _ [] (by simp) (by simp) (by simp) hblank).trans
      (String.ofList_toList ..)
  have hstrong : Text.dropLiteral? "W/" (entityTag (refText n)) = none := by
    simp [Text.dropLiteral?, entityTag]
  rw [Response.tagRef, htrimmed, hstrong, Option.getD_none, unquote_entityTag]

theorem etagRef?_of_entityTag {r : Response} {n : UInt64}
    (h : r.header? "ETag" = some (entityTag (refText n))) :
    r.etagRef? = some (refText n) := by
  rw [Response.etagRef?, h, Option.bind_some, tagRef_entityTag, if_neg (refText_ne_empty n)]

end ItemStore.Server
