import ItemStore.Proofs.Message.Headers

/-!
# Setting headers

Setting a header overwrites the first of its values and leaves the ones behind it. The entries of
other names, `Headers.others`, are left as they are. So a header has the new value alone if there
was no second entry of its name.

## Main results

- `Headers.others_insert`, `Headers.values_insert_eq_singleton_iff`: what setting one header does;
- `Headers.values_setAll_of_mem`, `Headers.others_setAll`: what setting several headers of different
  names does;
- `Headers.Collected.distinct`: collecting, setting and removing headers never make a second entry
  of a name. It takes `Headers.append` to make one.
-/

namespace ItemStore

namespace Headers

/-- The entries that have none of these names. -/
def others (h : Headers) (names : List String) : List (String × String) :=
  h.entries.filter fun entry => !names.any (Text.sameName entry.1)

/-- No name has a second entry. -/
def Distinct (h : Headers) : Prop :=
  ∀ name, (h.values name).length ≤ 1

/-! ## Setting one header -/

private theorem others_setFirst {name : String} {names : List String} (hname : name ∈ names)
    (value : String) (entries : List (String × String)) :
    others ⟨setFirst name value entries⟩ names = others ⟨entries⟩ names := by
  induction entries with
  | nil =>
    have hany : names.any (Text.sameName name) = true :=
      List.any_eq_true.mpr ⟨name, hname, Text.sameName_self name⟩
    simp [setFirst, others, hany]
  | cons entry rest ih =>
    obtain ⟨n, v⟩ := entry
    unfold setFirst
    cases hn : Text.sameName n name with
    | true =>
      have hany : names.any (Text.sameName n) = true := List.any_eq_true.mpr ⟨name, hname, hn⟩
      simp [others, hany]
    | false =>
      simp only [others, Bool.false_eq_true, if_false, List.filter_cons] at ih ⊢
      rw [ih]

/-- Setting a header leaves the entries of other names as they are, in their order. -/
theorem others_insert {name : String} {names : List String} (hname : name ∈ names) (h : Headers)
    (value : String) :
    (h.insert name value).others names = h.others names :=
  others_setFirst hname value h.entries

/-- A header that is set has the new value alone exactly if it had one entry at most before. -/
theorem values_insert_eq_singleton_iff {h : Headers} {name value : String} :
    (h.insert name value).values name = [value] ↔ (h.values name).length ≤ 1 := by
  rw [values_insert, Text.sameName_self, if_pos rfl]
  -- the new value takes the place of one value, and whatever else there was is still there
  cases h.values name with
  | nil => simp
  | cons first rest => cases rest <;> simp

/-! ## Setting several headers -/

/-- Sets headers one after the other. -/
def setAll (h : Headers) (pairs : List (String × String)) : Headers :=
  pairs.foldl (fun h (n, v) => h.insert n v) h

theorem setAll_cons (h : Headers) (pair : String × String) (pairs : List (String × String)) :
    h.setAll (pair :: pairs) = (h.insert pair.1 pair.2).setAll pairs := rfl

theorem ofPairs_eq_setAll (pairs : List (String × String)) :
    ofPairs pairs = empty.setAll pairs := rfl

/-- A name that is not among those that are set keeps its values. -/
theorem values_setAll_of_other {pairs : List (String × String)} {name : String}
    (hother : ∀ pair ∈ pairs, Text.sameName pair.1 name = false) (h : Headers) :
    (h.setAll pairs).values name = h.values name := by
  induction pairs generalizing h with
  | nil => rfl
  | cons pair pairs ih =>
    obtain ⟨hpair, hpairs⟩ := List.forall_mem_cons.mp hother
    rw [setAll_cons, ih hpairs, values_insert, hpair, if_neg Bool.false_ne_true]

/-- If the names that are set are all different, each of them has its first value overwritten. -/
theorem values_setAll_of_mem {pairs : List (String × String)}
    (hdistinct : (pairs.map Prod.fst).Pairwise fun a b => Text.sameName a b = false)
    {pair : String × String} (hmem : pair ∈ pairs) (h : Headers) :
    (h.setAll pairs).values pair.1 = pair.2 :: (h.values pair.1).tail := by
  induction pairs generalizing h with
  | nil => cases hmem
  | cons first pairs ih =>
    obtain ⟨hfirst, hpairs⟩ := List.pairwise_cons.mp hdistinct
    have hapart : ∀ pair ∈ pairs, Text.sameName first.1 pair.1 = false := fun pair hpair =>
      hfirst pair.1 (List.mem_map_of_mem hpair)
    rw [setAll_cons]
    rcases List.mem_cons.mp hmem with rfl | hmem
    -- the header is set now, and nothing that is set later has its name
    · have hother : ∀ other ∈ pairs, Text.sameName other.1 pair.1 = false := fun other hmem => by
        rw [Text.sameName_comm, hapart other hmem]
      rw [values_setAll_of_other hother, values_insert, Text.sameName_self, if_pos rfl]
    -- the header is set later, and what is set now has another name
    · rw [ih hpairs hmem, values_insert, hapart pair hmem, if_neg Bool.false_ne_true]

/-- The entries of names that are not set stay as they are, in their order. -/
theorem others_setAll (pairs : List (String × String)) {names : List String}
    (hnames : ∀ pair ∈ pairs, pair.1 ∈ names) (h : Headers) :
    (h.setAll pairs).others names = h.others names := by
  induction pairs generalizing h with
  | nil => rfl
  | cons pair pairs ih =>
    obtain ⟨hpair, hpairs⟩ := List.forall_mem_cons.mp hnames
    rw [setAll_cons, ih hpairs, others_insert hpair]

/-! ## Lists without a second entry of a name -/

/-- Setting a header gives it the new value alone, whatever the header, exactly if no name has a
second entry. -/
theorem forall_values_insert_iff {h : Headers} :
    (∀ name value, (h.insert name value).values name = [value]) ↔ h.Distinct :=
  ⟨fun hset name => values_insert_eq_singleton_iff.mp (hset name ""),
    fun hdistinct name _ => values_insert_eq_singleton_iff.mpr (hdistinct name)⟩

theorem Distinct.tail_values {h : Headers} (hdistinct : h.Distinct) (name : String) :
    (h.values name).tail = [] := by
  have hone := hdistinct name
  refine List.eq_nil_of_length_eq_zero ?_
  rw [List.length_tail]
  omega

theorem distinct_empty : empty.Distinct := fun _ => Nat.zero_le 1

theorem Distinct.insert {h : Headers} (hdistinct : h.Distinct) (name value : String) :
    (h.insert name value).Distinct := by
  intro other
  rw [values_insert]
  split
  next =>
    rw [hdistinct.tail_values other]
    exact Nat.le_refl 1
  next => exact hdistinct other

theorem Distinct.remove {h : Headers} (hdistinct : h.Distinct) (name : String) :
    (h.remove name).Distinct := by
  intro other
  rw [values_remove]
  split
  next => exact Nat.zero_le 1
  next => exact hdistinct other

theorem Distinct.setAll {h : Headers} (hdistinct : h.Distinct) (pairs : List (String × String)) :
    (h.setAll pairs).Distinct := by
  induction pairs generalizing h with
  | nil => exact hdistinct
  | cons pair pairs ih => exact ih (hdistinct.insert pair.1 pair.2)

/-- The lists that collecting pairs, setting headers and removing them lead to. -/
inductive Collected : Headers → Prop where
  | ofPairs (pairs : List (String × String)) : Collected (ofPairs pairs)
  | insert {h : Headers} (name value : String) : Collected h → Collected (h.insert name value)
  | remove {h : Headers} (name : String) : Collected h → Collected (h.remove name)

/-- None of these steps makes a second entry of a name. -/
theorem Collected.distinct {h : Headers} (hcollected : h.Collected) : h.Distinct := by
  induction hcollected with
  | ofPairs pairs => exact ofPairs_eq_setAll pairs ▸ distinct_empty.setAll pairs
  | insert name value _ ih => exact ih.insert name value
  | remove name _ ih => exact ih.remove name

end Headers

end ItemStore
