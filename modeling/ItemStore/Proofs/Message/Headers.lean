import ItemStore.Message.Headers

/-!
# Look-ups in headers

What a name has after a header was set or removed. Names that differ only in the case of ASCII
letters are one name. A list may hold a name more than once, in several spellings: `Headers.values`
are the values of all of its entries, and a look-up gives the first of them.
-/

namespace ItemStore

namespace Text

theorem sameName_iff {a b : String} : sameName a b = true ↔ foldCase a = foldCase b :=
  beq_iff_eq

@[simp]
theorem sameName_self (name : String) : sameName name name = true :=
  sameName_iff.mpr rfl

theorem sameName_comm (a b : String) : sameName a b = sameName b a :=
  Bool.beq_comm

/-- One of two equal names can stand for the other. -/
theorem sameName_congr {a b : String} (h : sameName a b = true) (c : String) :
    sameName a c = sameName b c := by
  rw [sameName, sameName, sameName_iff.mp h]

end Text

namespace Headers

/-- The values of all entries of a name. -/
def values (h : Headers) (name : String) : List String :=
  (h.entries.filter fun entry => Text.sameName entry.1 name).map Prod.snd

/-- A look-up gives the first of them. -/
theorem get?_eq_head? (h : Headers) (name : String) : h.get? name = (h.values name).head? := by
  rw [values, List.head?_map, List.head?_filter]
  rfl

private theorem values_setFirst (name value other : String) (entries : List (String × String)) :
    values ⟨setFirst name value entries⟩ other =
      if Text.sameName name other then value :: (values ⟨entries⟩ other).tail
        else values ⟨entries⟩ other := by
  induction entries with
  | nil => cases hother : Text.sameName name other <;> simp [setFirst, values, hother]
  | cons entry rest ih =>
    obtain ⟨n, v⟩ := entry
    unfold setFirst
    cases hname : Text.sameName n name with
    | true =>
      -- the entry that is overwritten keeps its spelling, which counts as the same name
      have hcongr := Text.sameName_congr hname other
      cases hother : Text.sameName name other <;> simp [values, hcongr, hother]
    | false =>
      simp only [values, Bool.false_eq_true, if_false, List.filter_cons] at ih ⊢
      cases hn : Text.sameName n other with
      | false => simpa using ih
      | true =>
        -- this entry has the other name, so the name that is set is not that one
        have hother : Text.sameName name other = false := by
          refine Bool.eq_false_iff.mpr fun hother => ?_
          rw [Text.sameName_congr hn, Text.sameName_comm, hother] at hname
          cases hname
        simpa [hother] using ih

/-- Setting a header overwrites the first of its values, and no value of another name. -/
@[simp]
theorem values_insert (h : Headers) (name value other : String) :
    (h.insert name value).values other =
      if Text.sameName name other then value :: (h.values other).tail else h.values other :=
  values_setFirst name value other h.entries

/-- The entries of a name that is removed are gone, and no others. -/
@[simp]
theorem values_remove (h : Headers) (name other : String) :
    (h.remove name).values other = if Text.sameName name other then [] else h.values other := by
  unfold remove values
  rw [List.filter_filter]
  cases hother : Text.sameName name other with
  | true =>
    have hnone (entry : String × String) :
        (Text.sameName entry.1 other && !Text.sameName entry.1 name) = false := by
      rw [Text.sameName_comm _ name, Text.sameName_congr hother, Text.sameName_comm other]
      exact Bool.and_not_self _
    simp [hnone]
  | false =>
    have hkept (entry : String × String) :
        (Text.sameName entry.1 other && !Text.sameName entry.1 name) =
          Text.sameName entry.1 other := by
      cases hn : Text.sameName entry.1 other with
      | false => rfl
      | true => rw [Text.sameName_congr hn, Text.sameName_comm, hother]; rfl
    simp [hkept]

@[simp]
theorem get?_insert (h : Headers) (name value other : String) :
    (h.insert name value).get? other = if Text.sameName name other then some value
      else h.get? other := by
  rw [get?_eq_head?, get?_eq_head?, values_insert]
  split <;> rfl

@[simp]
theorem get?_remove (h : Headers) (name other : String) :
    (h.remove name).get? other = if Text.sameName name other then none else h.get? other := by
  rw [get?_eq_head?, get?_eq_head?, values_remove]
  split <;> rfl

/-! ## Entries -/

theorem get?_eq_none_iff {h : Headers} {name : String} :
    h.get? name = none ↔ ∀ entry ∈ h.entries, Text.sameName entry.1 name = false := by
  simp [get?]

/-- Removing a header that is not there changes nothing. -/
theorem remove_eq_self {h : Headers} {name : String} (hnone : h.get? name = none) :
    h.remove name = h := by
  have hkept : (h.entries.filter fun entry => !Text.sameName entry.1 name) = h.entries :=
    List.filter_eq_self.mpr fun entry hentry => by simp [get?_eq_none_iff.mp hnone entry hentry]
  exact congrArg Headers.mk hkept

/-- A header that is not there is put at the end. -/
theorem insert_eq_append {h : Headers} {name : String} (hnone : h.get? name = none)
    (value : String) :
    h.insert name value = h.append name value := by
  obtain ⟨entries⟩ := h
  have hother : ∀ entry ∈ entries, Text.sameName entry.1 name = false := get?_eq_none_iff.mp hnone
  clear hnone
  refine congrArg Headers.mk ?_
  induction entries with
  | nil => rfl
  | cons entry rest ih =>
    obtain ⟨hentry, hrest⟩ := List.forall_mem_cons.mp hother
    simp only [setFirst, hentry, ih hrest]
    rfl

/-- A header that was not there can be set and removed again. -/
theorem remove_insert {h : Headers} {name : String} (hnone : h.get? name = none) (value : String) :
    (h.insert name value).remove name = h := by
  have hself : (h.entries ++ [(name, value)]).filter (fun entry => !Text.sameName entry.1 name) =
      h.entries.filter fun entry => !Text.sameName entry.1 name := by simp
  rw [insert_eq_append hnone]
  exact (congrArg Headers.mk hself).trans (remove_eq_self hnone)

theorem remove_comm (h : Headers) (name other : String) :
    (h.remove name).remove other = (h.remove other).remove name := by
  simp only [remove, List.filter_filter, Bool.and_comm]

end Headers

end ItemStore
