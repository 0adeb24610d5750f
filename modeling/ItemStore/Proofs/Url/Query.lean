import ItemStore.Proofs.Text.Percent
import ItemStore.Proofs.Text.Pieces
import ItemStore.Url.Query

/-!
# Query parameters on the wire

The text of a list of parameters is read back as that list (`Query.decode_encode`), whatever names
and values are, and a URL gives it back (`Url.queryPairs_withQuery`), since no character of it needs
encoding.
-/

namespace ItemStore

/-! ## Characters -/

/-- Dropping line breaks leaves a text alone that has none. -/
theorem Url.dropBreaks_eq_self {cs : List Char}
    (h : ∀ c ∈ cs, (c = '\t' || c = '\n' || c = '\r') = false) :
    dropBreaks cs = cs :=
  List.filter_eq_self.mpr fun c hc => by rw [h c hc, Bool.not_false]

/-- Encoding leaves a text alone that has no character of the class. -/
theorem Percent.encodeCharsWhere_eq_self {p : Char → Bool} {cs : List Char}
    (h : ∀ c ∈ cs, p c = false) :
    encodeCharsWhere p cs = cs := by
  induction cs with
  | nil => rfl
  | cons c rest ih =>
    obtain ⟨hc, hrest⟩ := List.forall_mem_cons.mp h
    rw [encodeCharsWhere, List.flatMap_cons, ← encodeCharsWhere, ih hrest, hc]
    rfl

namespace Query

/-- A character that the text of a list of parameters may hold. -/
def isQueryChar (c : Char) : Bool :=
  Percent.isPlain c || c = '=' || c = '&'

/-- What holds of all plain characters and of the two separators holds of every character of a
query. -/
theorem of_isQueryChar {P : Char → Prop} (hplain : ∀ c, Percent.isPlain c = true → P c)
    (hequals : P '=') (hand : P '&') {c : Char} (h : isQueryChar c = true) : P c := by
  simp only [isQueryChar, Bool.or_eq_true, decide_eq_true_eq] at h
  rcases h with (h | rfl) | rfl
  · exact hplain c h
  · exact hequals
  · exact hand

theorem toList_encodePair (pair : String × String) :
    (encodePair pair).toList = (Percent.encode pair.1).toList ++ '=' ::
      (Percent.encode pair.2).toList := by
  simp [encodePair]

theorem toList_encode (pairs : List (String × String)) :
    (encode pairs).toList = ['&'].intercalate (pairs.map fun pair => (encodePair pair).toList) := by
  rw [encode, Text.join, String.toList_intercalate, List.map_map]
  rfl

theorem isPlain_or_eq_of_mem_encodePair {pair : String × String} {c : Char}
    (h : c ∈ (encodePair pair).toList) :
    Percent.isPlain c = true ∨ c = '=' := by
  rw [toList_encodePair, List.mem_append, List.mem_cons] at h
  rcases h with h | rfl | h
  · exact .inl (Percent.isPlain_of_mem_encode h)
  · exact .inr rfl
  · exact .inl (Percent.isPlain_of_mem_encode h)

theorem isQueryChar_of_mem_encode {pairs : List (String × String)} {c : Char}
    (h : c ∈ (encode pairs).toList) :
    isQueryChar c = true := by
  rw [toList_encode] at h
  rcases Text.mem_intercalate h with rfl | ⟨part, hpart, hc⟩
  · rfl
  · obtain ⟨pair, -, rfl⟩ := List.mem_map.mp hpart
    rcases isPlain_or_eq_of_mem_encodePair hc with hc | rfl
    · simp [isQueryChar, hc]
    · rfl

/-! ## Reading -/

theorem decodePart_encode (s : String) : decodePart (Percent.encode s).toList = s := by
  have hplus : (Percent.encode s).toList.map (fun c => if c = '+' then ' ' else c) =
      (Percent.encode s).toList := by
    refine (List.map_congr_left fun c hc => if_neg ?_).trans (List.map_id' _)
    exact Percent.of_isPlain (P := (· ≠ '+')) (by decide) (Percent.isPlain_of_mem_encode hc)
  rw [decodePart, hplus, String.ofList_toList, Percent.decodeLossy_encode]

theorem decodePair_encodePair (pair : String × String) :
    decodePair (encodePair pair).toList = pair := by
  have hname (c : Char) (hc : c ∈ (Percent.encode pair.1).toList) : decide (c ≠ '=') = true :=
    decide_eq_true
      (Percent.of_isPlain (P := (· ≠ '=')) (by decide) (Percent.isPlain_of_mem_encode hc))
  rw [toList_encodePair, decodePair, List.takeWhile_append_of_pos hname,
    List.dropWhile_append_of_pos hname]
  simp [decodePart_encode]

/-- **Reading undoes writing**, for every list of parameters. -/
theorem decode_encode (pairs : List (String × String)) : decode (encode pairs) = pairs := by
  cases pairs with
  | nil => rfl
  | cons pair rest =>
    have hand : ∀ part ∈ (pair :: rest).map (fun pair => (encodePair pair).toList), '&' ∉ part := by
      intro part hpart hmem
      obtain ⟨pair, -, rfl⟩ := List.mem_map.mp hpart
      rcases isPlain_or_eq_of_mem_encodePair hmem with h | h
      · cases h
      · cases h
    -- no part is empty, since each holds an equals sign
    have hfilter : ((pair :: rest).map fun pair => (encodePair pair).toList).filter
        (fun part => !part.isEmpty) =
        (pair :: rest).map fun pair => (encodePair pair).toList := by
      refine List.filter_eq_self.mpr fun part hpart => ?_
      obtain ⟨pair, -, rfl⟩ := List.mem_map.mp hpart
      simp [toList_encodePair]
    rw [decode, toList_encode, Text.pieces_intercalate (by simp) hand, hfilter, List.map_map]
    refine (List.map_congr_left fun pair _ => ?_).trans (List.map_id' _)
    exact decodePair_encodePair pair

end Query

namespace Url

theorem encodeQuery_encode (special : Bool) (pairs : List (String × String)) :
    encodeQuery special (Query.encode pairs).toList = Query.encode pairs := by
  have hkept (c : Char) (hc : c ∈ (Query.encode pairs).toList) : encodedInQuery special
      c = false := by
    refine Query.of_isQueryChar (P := fun c => encodedInQuery special c = false)
      (fun c hc => ?_) ?_ ?_ (Query.isQueryChar_of_mem_encode hc)
    · exact Percent.of_isPlain (P := fun c => encodedInQuery special c = false)
        (by cases special <;> decide) hc
    · cases special <;> decide
    · cases special <;> decide
  rw [encodeQuery, Percent.encodeCharsWhere_eq_self hkept, String.ofList_toList]

theorem dropBreaks_encode (pairs : List (String × String)) :
    dropBreaks (Query.encode pairs).toList = (Query.encode pairs).toList := by
  refine dropBreaks_eq_self fun c hc => ?_
  refine Query.of_isQueryChar (P := fun c => (c = '\t' || c = '\n' || c = '\r') = false)
    (fun c hc => ?_) rfl rfl (Query.isQueryChar_of_mem_encode hc)
  exact Percent.of_isPlain (P := fun c => (c = '\t' || c = '\n' || c = '\r') = false) (by decide) hc

/-- The query of a URL is the text that it was made from, and there is none if this is empty. -/
theorem query_withQuery (u : Url) (pairs : List (String × String)) :
    (u.withQuery (if Query.encode pairs = "" then none else some (Query.encode pairs))).query.getD
      "" =
      Query.encode pairs := by
  split
  next hempty => exact hempty.symm
  next => rw [withQuery, Option.map_some, Option.getD_some, dropBreaks_encode, encodeQuery_encode]

/-- The parameters of a URL are those that its query was made from. -/
theorem queryPairs_withQuery (u : Url) (pairs : List (String × String)) :
    (u.withQuery (if Query.encode pairs = "" then none else some (Query.encode pairs))).queryPairs =
      pairs := by
  rw [queryPairs, query_withQuery, Query.decode_encode]

end Url

end ItemStore
