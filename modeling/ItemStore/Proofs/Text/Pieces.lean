import ItemStore.Text.Blank

/-!
# Pieces between separators

How `Text.pieces` cuts a text that is itself put together: at a separator between two texts, and
nowhere in a text that holds no separator.
-/

namespace ItemStore.Text

theorem pieces_ne_nil (separator : Char) (cs : List Char) : pieces separator cs ≠ [] := by
  cases cs with
  | nil => simp [pieces]
  | cons c rest =>
    unfold pieces
    split
    · exact List.cons_ne_nil _ _
    · split <;> exact List.cons_ne_nil _ _

/-- A character that is no separator belongs to the first piece. -/
theorem pieces_cons_of_ne {separator c : Char} (h : c ≠ separator) {cs first : List Char}
    {more : List (List Char)} (hcs : pieces separator cs = first :: more) :
    pieces separator (c :: cs) = (c :: first) :: more := by
  simp [pieces, h, hcs]

theorem pieces_append (separator : Char) (cs ds : List Char) :
    pieces separator (cs ++ separator :: ds) = pieces separator cs ++ pieces separator ds := by
  induction cs with
  | nil => simp [pieces]
  | cons c cs ih =>
    obtain ⟨first, more, hcs⟩ := List.exists_cons_of_ne_nil (pieces_ne_nil separator cs)
    by_cases hc : c = separator
    · simp [pieces, hc, ih]
    · rw [List.cons_append, pieces_cons_of_ne hc (hcs ▸ ih), pieces_cons_of_ne hc hcs]
      rfl

theorem pieces_of_not_mem {separator : Char} {cs : List Char} (h : separator ∉ cs) :
    pieces separator cs = [cs] := by
  induction cs with
  | nil => rfl
  | cons c cs ih =>
    rw [List.mem_cons, not_or] at h
    exact pieces_cons_of_ne (Ne.symm h.1) (ih h.2)

/-- Pieces hold no separator. -/
theorem not_mem_of_mem_pieces {separator : Char} {cs part : List Char}
    (h : part ∈ pieces separator cs) :
    separator ∉ part := by
  induction cs generalizing part with
  | nil =>
    rw [List.mem_singleton.mp h]
    exact List.not_mem_nil
  | cons c cs ih =>
    obtain ⟨first, more, hcs⟩ := List.exists_cons_of_ne_nil (pieces_ne_nil separator cs)
    rw [hcs] at ih
    by_cases hc : c = separator
    · rw [pieces, if_pos hc, hcs] at h
      rcases List.mem_cons.mp h with rfl | h
      · exact List.not_mem_nil
      · exact ih h
    · rw [pieces_cons_of_ne hc hcs] at h
      rcases List.mem_cons.mp h with rfl | h
      · exact List.not_mem_cons_of_ne_of_not_mem (Ne.symm hc) (ih List.mem_cons_self)
      · exact ih (List.mem_cons_of_mem _ h)

/-- Pieces are made of the characters of the text. -/
theorem mem_of_mem_pieces {separator c : Char} {cs part : List Char}
    (h : part ∈ pieces separator cs) (hc : c ∈ part) :
    c ∈ cs := by
  induction cs generalizing part with
  | nil =>
    rw [List.mem_singleton.mp h] at hc
    exact hc
  | cons d cs ih =>
    obtain ⟨first, more, hcs⟩ := List.exists_cons_of_ne_nil (pieces_ne_nil separator cs)
    rw [hcs] at ih
    by_cases hd : d = separator
    · rw [pieces, if_pos hd, hcs] at h
      rcases List.mem_cons.mp h with rfl | h
      · cases hc
      · exact List.mem_cons_of_mem _ (ih h hc)
    · rw [pieces_cons_of_ne hd hcs] at h
      rcases List.mem_cons.mp h with rfl | h
      · rcases List.mem_cons.mp hc with rfl | hc
        · exact List.mem_cons_self
        · exact List.mem_cons_of_mem _ (ih List.mem_cons_self hc)
      · exact List.mem_cons_of_mem _ (ih (List.mem_cons_of_mem _ h) hc)

/-- A text is what its pieces are when they are joined. -/
theorem intercalate_pieces (separator : Char) (cs : List Char) :
    [separator].intercalate (pieces separator cs) = cs := by
  induction cs with
  | nil => rfl
  | cons c cs ih =>
    obtain ⟨first, more, hcs⟩ := List.exists_cons_of_ne_nil (pieces_ne_nil separator cs)
    by_cases hc : c = separator
    · rw [pieces, if_pos hc, hcs, List.intercalate_cons_cons, ← hcs, ih, hc]
      rfl
    · rw [pieces_cons_of_ne hc hcs]
      rw [hcs] at ih
      cases more with
      | nil => simpa using ih
      | cons next more =>
        rw [List.intercalate_cons_cons] at ih ⊢
        rw [List.cons_append, List.cons_append, ih]

/-- What a joined text is made of. -/
theorem mem_intercalate {α : Type} {separator x : α} {parts : List (List α)}
    (h : x ∈ [separator].intercalate parts) : x = separator ∨ ∃ part ∈ parts, x ∈ part := by
  induction parts with
  | nil => cases h
  | cons part rest ih =>
    cases rest with
    | nil => exact .inr ⟨part, List.mem_cons_self, by simpa using h⟩
    | cons next rest =>
      rw [List.intercalate_cons_cons, List.mem_append, List.mem_append, List.mem_singleton] at h
      rcases h with (h | h) | h
      · exact .inr ⟨part, List.mem_cons_self, h⟩
      · exact .inl h
      · exact (ih h).imp_right fun ⟨part', hpart', hx⟩ => ⟨part', List.mem_cons_of_mem _ hpart', hx⟩

/-- Pieces that hold no separator are found again when they were joined. -/
theorem pieces_intercalate {separator : Char} {parts : List (List Char)} (hne : parts ≠ [])
    (h : ∀ part ∈ parts, separator ∉ part) :
    pieces separator ([separator].intercalate parts) = parts := by
  induction parts with
  | nil => exact absurd rfl hne
  | cons part rest ih =>
    obtain ⟨hpart, hrest⟩ := List.forall_mem_cons.mp h
    cases rest with
    | nil => simpa using pieces_of_not_mem hpart
    | cons next rest =>
      rw [List.intercalate_cons_cons, List.append_assoc, List.singleton_append, pieces_append,
        pieces_of_not_mem hpart, ih (List.cons_ne_nil _ _) hrest]
      rfl

end ItemStore.Text
