import ItemStore.Text.Blank

/-!
# Trimming

What is left of a text between two runs of characters that are trimmed, and of one that starts with
a literal.
-/

namespace ItemStore.Text

theorem dropWhile_append {p : Char → Bool} {left rest : List Char} (hleft : ∀ c ∈ left, p c = true)
    (hrest : ∀ c ∈ rest.head?, p c = false) : (left ++ rest).dropWhile p = rest := by
  rw [List.dropWhile_append_of_pos hleft]
  cases rest with
  | nil => rfl
  | cons c cs => exact List.dropWhile_cons_of_neg (Bool.eq_false_iff.mp (hrest c rfl))

/-- Characters of the class go at both ends, and the others stay. -/
theorem trimWhere_eq {p : Char → Bool} {s : String} {left middle right : List Char}
    (hs : s.toList = left ++ middle ++ right) (hleft : ∀ c ∈ left, p c = true)
    (hright : ∀ c ∈ right, p c = true) (hmiddle : ∀ c ∈ middle, p c = false) :
    trimWhere p s = String.ofList middle := by
  unfold trimWhere
  rw [hs]
  congr 1
  cases middle with
  | nil =>
    have hall : ∀ c ∈ left ++ right, p c = true :=
      fun c hc => (List.mem_append.mp hc).elim (hleft c) (hright c)
    have hnone : (left ++ right).dropWhile p = [] := by
      simpa using @dropWhile_append p (left ++ right) [] hall (by simp)
    simp [hnone]
  | cons c cs =>
    have hfront : (left ++ (c :: cs) ++ right).dropWhile p = (c :: cs) ++ right := by
      rw [List.append_assoc]
      exact dropWhile_append hleft fun d hd => by cases hd; exact hmiddle c List.mem_cons_self
    have hback : (((c :: cs) ++ right).reverse).dropWhile p = (c :: cs).reverse := by
      rw [List.reverse_append]
      refine dropWhile_append (fun d hd => hright d (List.mem_reverse.mp hd)) fun d hd => ?_
      exact hmiddle d (List.mem_reverse.mp (List.mem_of_mem_head? hd))
    rw [hfront, hback, List.reverse_reverse]

/-- What is left without a literal at the front is what follows it. -/
theorem dropLiteral?_eq_some_iff {literal s rest : String} :
    dropLiteral? literal s = some rest ↔ s = literal ++ rest := by
  unfold dropLiteral?
  constructor
  · intro h
    split at h
    next hprefix =>
      obtain ⟨cs, hcs⟩ := List.isPrefixOf_iff_prefix.mp hprefix
      obtain rfl := Option.some.inj h
      rw [← String.toList_inj, String.toList_append, String.toList_ofList, ← hcs,
        ← String.length_toList, List.drop_left]
    next => cases h
  · rintro rfl
    have hprefix : literal.toList.isPrefixOf (literal ++ rest).toList = true :=
      List.isPrefixOf_iff_prefix.mpr ⟨rest.toList, String.toList_append.symm⟩
    rw [if_pos hprefix, String.toList_append, ← String.length_toList, List.drop_left,
      String.ofList_toList]

end ItemStore.Text
