import ItemStore.Assoc

/-!
# Look-ups in maps

What a key has after an insertion, on lists in any order, and in a map that is given by its pairs;
that setting the value of a key behaves as an assignment does; and that maps in the order of their
keys, which insertion and removal keep, are determined by their look-ups (`Assoc.ext_of_sorted`), so
that insertion and removal undo each other there.
-/

namespace ItemStore.Assoc

variable {α : Type}

@[simp]
theorem get?_nil (k : String) : get? k ([] : Assoc α) = none := rfl

@[simp]
theorem get?_insert (k key : String) (value : α) (m : Assoc α) :
    get? k (insert key value m) = if key = k then some value else get? k m := by
  induction m with
  | nil => rfl
  | cons entry rest ih =>
    obtain ⟨k', v⟩ := entry
    unfold insert
    split
    next hlt =>
      -- the entry in front is another one, since keys are irreflexive
      have hne : k' ≠ key := fun heq => String.lt_irrefl key (heq ▸ hlt)
      simp only [get?, ih]
      by_cases hk : k' = k
      · have hkey : key ≠ k := fun heq => hne (hk.trans heq.symm)
        simp [hk, hkey]
      · simp [hk]
    next hlt =>
      split <;> simp_all [get?]

/-- Of the pairs of a map the last one with the key counts. -/
theorem get?_ofPairs (k : String) (pairs : List (String × α)) :
    get? k (ofPairs pairs) = (pairs.reverse.find? fun entry => entry.1 = k).map Prod.snd := by
  rw [ofPairs, ← List.foldr_reverse]
  induction pairs.reverse with
  | nil => rfl
  | cons entry rest ih =>
    simp only [List.foldr_cons, get?_insert, ih, List.find?_cons]
    by_cases hk : entry.1 = k <;> simp [hk]

/-! ## Overwriting -/

/-- A key that is present has what it is set to. -/
theorem get?_set_self {key : String} {old : α} {m : Assoc α} (h : get? key m = some old)
    (value : α) :
    get? key (set key value m) = some value := by
  induction m with
  | nil => cases h
  | cons entry rest ih =>
    obtain ⟨k, v⟩ := entry
    by_cases hk : k = key <;> simp_all [get?, set]

theorem get?_set_of_ne {key k : String} (h : key ≠ k) (value : α) (m : Assoc α) :
    get? k (set key value m) = get? k m := by
  induction m with
  | nil => rfl
  | cons entry rest ih =>
    obtain ⟨k', v⟩ := entry
    by_cases hk : k' = key <;> simp_all [get?, set]

/-- Of two values that are set the later one stays. -/
theorem set_set (key : String) (value value' : α) (m : Assoc α) :
    set key value' (set key value m) = set key value' m := by
  induction m with
  | nil => rfl
  | cons entry rest ih =>
    obtain ⟨k, v⟩ := entry
    by_cases hk : k = key <;> simp_all [set]

/-- Setting what is there changes nothing. -/
theorem set_eq_self {key : String} {value : α} {m : Assoc α} (h : get? key m = some value) :
    set key value m = m := by
  induction m with
  | nil => rfl
  | cons entry rest ih =>
    obtain ⟨k, v⟩ := entry
    by_cases hk : k = key <;> simp_all [get?, set]

theorem keys_set (key : String) (value : α) (m : Assoc α) : keys (set key value m) = keys m := by
  induction m with
  | nil => rfl
  | cons entry rest ih =>
    obtain ⟨k, v⟩ := entry
    by_cases hk : k = key <;> simp_all [set, keys]

theorem eq_or_mem_of_mem_set {key : String} {value : α} {m : Assoc α} {entry : String × α}
    (h : entry ∈ set key value m) : entry = (key, value) ∨ entry ∈ m := by
  induction m with
  | nil => cases h
  | cons first rest ih =>
    obtain ⟨k, v⟩ := first
    rw [set] at h
    split at h
    next hk =>
      rcases List.mem_cons.mp h with rfl | h
      · exact .inl (hk ▸ rfl)
      · exact .inr (List.mem_cons_of_mem _ h)
    next =>
      rcases List.mem_cons.mp h with rfl | h
      · exact .inr List.mem_cons_self
      · exact (ih h).imp_right (List.mem_cons_of_mem _)

/-! ## Order -/

/-- A key behind all others is put at the end. -/
theorem insert_eq_append {key : String} {m : Assoc α} (h : ∀ k ∈ keys m, k < key) (value : α) :
    insert key value m = m ++ [(key, value)] := by
  induction m with
  | nil => rfl
  | cons entry rest ih =>
    obtain ⟨hentry, hrest⟩ := List.forall_mem_cons.mp h
    rw [insert, if_pos hentry, ih hrest]
    rfl

private theorem foldl_insert_of_sorted {m rest : Assoc α} (h : Sorted (m ++ rest)) :
    rest.foldl (fun m (k, v) => insert k v m) m = m ++ rest := by
  induction rest generalizing m with
  | nil => simp
  | cons entry rest ih =>
    obtain ⟨key, value⟩ := entry
    have hbefore : ∀ k ∈ keys m, k < key := by
      simp only [Sorted, keys, List.map_append, List.map_cons, List.pairwise_append] at h
      exact fun k hk => h.2.2 k hk key List.mem_cons_self
    rw [List.foldl_cons]
    dsimp only
    rw [insert_eq_append hbefore, ih (by simpa using h), List.append_assoc, List.singleton_append]

/-- A map whose keys are in order is what its pairs describe. -/
theorem ofPairs_eq_self {m : Assoc α} (h : Sorted m) : ofPairs m = m :=
  foldl_insert_of_sorted (m := []) h

/-- Keys in order are distinct. -/
theorem nodup_of_increasing {ks : List String} (h : ks.Pairwise (· < ·)) : ks.Nodup := by
  refine List.Pairwise.imp ?_ h
  rintro k _ hlt rfl
  exact String.lt_irrefl k hlt

theorem sorted_cons {key : String} {value : α} {m : Assoc α} :
    Sorted ((key, value) :: m) ↔ (∀ k ∈ keys m, key < k) ∧ Sorted m := by
  simp only [Sorted, keys, List.map_cons, List.pairwise_cons]

theorem mem_keys_insert {k key : String} {value : α} {m : Assoc α} :
    k ∈ keys (insert key value m) ↔ k = key ∨ k ∈ keys m := by
  induction m with
  | nil => simp [insert, keys]
  | cons entry rest ih =>
    obtain ⟨k', v⟩ := entry
    unfold insert
    split
    next => simp_all [keys, or_left_comm]
    next => split <;> simp_all [keys]

theorem Sorted.insert {m : Assoc α} (h : Sorted m) (key : String) (value : α) :
    Sorted (insert key value m) := by
  induction m with
  | nil => simp [Assoc.insert, Sorted, keys]
  | cons entry rest ih =>
    obtain ⟨k, v⟩ := entry
    obtain ⟨hfirst, hrest⟩ := sorted_cons.mp h
    unfold Assoc.insert
    split
    next hlt =>
      refine sorted_cons.mpr ⟨fun k' hk' => ?_, ih hrest⟩
      rcases mem_keys_insert.mp hk' with rfl | hk'
      · exact hlt
      · exact hfirst k' hk'
    next hnot =>
      split
      next heq => exact sorted_cons.mpr ⟨heq ▸ hfirst, hrest⟩
      next hne =>
        have hlt : key < k := Decidable.byContradiction fun hge => hne (String.le_antisymm hge hnot)
        refine sorted_cons.mpr ⟨fun k' hk' => ?_, h⟩
        rcases List.mem_cons.mp hk' with rfl | hk'
        · exact hlt
        · exact String.lt_trans hlt (hfirst k' hk')

theorem Sorted.sublist {m n : Assoc α} (h : Sorted m) (hsub : n.Sublist m) : Sorted n :=
  List.Pairwise.sublist (hsub.map Prod.fst) h

/-- The last of some first keys comes behind all other first ones and before all that follow. -/
theorem Sorted.of_last {m : Assoc α} (h : Sorted m) {n : Nat} {last : String}
    (hlast : (keys (m.take n)).getLast? = some last) :
    (∀ k ∈ keys (m.take n), ¬last < k) ∧ ∀ k ∈ keys (m.drop n), last < k := by
  obtain ⟨front, hfront⟩ := List.getLast?_eq_some_iff.mp hlast
  have hsplit : keys m = front ++ [last] ++ keys (m.drop n) := by
    rw [← hfront, keys, keys, keys, ← List.map_append, List.take_append_drop]
  rw [Sorted, hsplit, List.pairwise_append, List.pairwise_append] at h
  obtain ⟨⟨-, -, hbefore⟩, -, hbehind⟩ := h
  refine ⟨fun k hk => ?_, fun k hk => hbehind last (by simp) k hk⟩
  rw [hfront, List.mem_append, List.mem_singleton] at hk
  rcases hk with hk | rfl
  · exact String.lt_asymm (hbefore k hk last List.mem_cons_self)
  · exact String.lt_irrefl k

/-- The entries behind the last of some first ones are the others. -/
theorem Sorted.filter_of_last {m : Assoc α} (h : Sorted m) {n : Nat} {last : String}
    (hlast : (keys (m.take n)).getLast? = some last) :
    m.filter (fun entry => last < entry.1) = m.drop n := by
  obtain ⟨hfirst, hrest⟩ := h.of_last hlast
  have htake : (m.take n).filter (fun entry => last < entry.1) = [] :=
    List.filter_eq_nil_iff.mpr fun entry hentry => by
    simpa using hfirst entry.1 (List.mem_map_of_mem hentry)
  have hdrop : (m.drop n).filter (fun entry => last < entry.1) = m.drop n :=
    List.filter_eq_self.mpr fun entry hentry =>
      decide_eq_true (hrest entry.1 (List.mem_map_of_mem hentry))
  conv => lhs; rw [← List.take_append_drop n m]
  rw [List.filter_append, htake, hdrop, List.nil_append]

theorem erase_sublist (key : String) (m : Assoc α) : (erase key m).Sublist m := by
  induction m with
  | nil => exact List.Sublist.refl _
  | cons entry rest ih =>
    obtain ⟨k, v⟩ := entry
    unfold erase
    split
    · exact List.sublist_cons_self ..
    · exact ih.cons_cons _

private theorem sorted_foldl_insert (pairs : List (String × α)) {m : Assoc α} (h : Sorted m) :
    Sorted (pairs.foldl (fun m (k, v) => Assoc.insert k v m) m) := by
  induction pairs generalizing m with
  | nil => exact h
  | cons entry rest ih => exact ih (h.insert entry.1 entry.2)

/-- A map that is given by pairs has its keys in order. -/
theorem sorted_ofPairs (pairs : List (String × α)) : Sorted (ofPairs pairs) :=
  sorted_foldl_insert pairs List.Pairwise.nil

theorem eq_or_mem_of_mem_insert {key : String} {value : α} {m : Assoc α} {entry : String × α}
    (h : entry ∈ insert key value m) : entry = (key, value) ∨ entry ∈ m := by
  induction m with
  | nil => exact .inl (List.mem_singleton.mp h)
  | cons first rest ih =>
    obtain ⟨k, v⟩ := first
    unfold insert at h
    split at h
    next =>
      rcases List.mem_cons.mp h with rfl | h
      · exact .inr List.mem_cons_self
      · exact (ih h).imp_right (List.mem_cons_of_mem _)
    next =>
      split at h
      next => exact (List.mem_cons.mp h).imp_right (List.mem_cons_of_mem _)
      next => exact List.mem_cons.mp h

private theorem mem_of_mem_foldl_insert {pairs : List (String × α)} {m : Assoc α}
    {entry : String × α} (h : entry ∈ pairs.foldl (fun m (k, v) => Assoc.insert k v m) m) :
    entry ∈ m ∨ entry ∈ pairs := by
  induction pairs generalizing m with
  | nil => exact .inl h
  | cons pair rest ih =>
    rcases ih h with h | h
    · exact (eq_or_mem_of_mem_insert h).elim (fun heq => .inr (heq ▸ List.mem_cons_self)) .inl
    · exact .inr (List.mem_cons_of_mem _ h)

/-- A map that is given by pairs has no other entries. -/
theorem mem_of_mem_ofPairs {pairs : List (String × α)} {entry : String × α}
    (h : entry ∈ ofPairs pairs) :
    entry ∈ pairs :=
  (mem_of_mem_foldl_insert h).resolve_left List.not_mem_nil

theorem mem_of_get? {key : String} {value : α} {m : Assoc α} (h : get? key m = some value) :
    (key, value) ∈ m := by
  induction m with
  | nil => cases h
  | cons entry rest ih =>
    obtain ⟨k, v⟩ := entry
    rw [get?] at h
    split at h
    next hk =>
      cases h
      exact hk ▸ List.mem_cons_self
    next => exact List.mem_cons_of_mem _ (ih h)

/-- In a map in order every entry is found. -/
theorem get?_of_mem {m : Assoc α} (h : Sorted m) {key : String} {value : α}
    (hmem : (key, value) ∈ m) :
    get? key m = some value := by
  induction m with
  | nil => cases hmem
  | cons entry rest ih =>
    obtain ⟨hfirst, hrest⟩ := sorted_cons.mp h
    rw [get?]
    rcases List.mem_cons.mp hmem with rfl | hmem
    · exact if_pos rfl
    · have hne : entry.1 ≠ key := (String.lt_irrefl _ <| · ▸ hfirst key (List.mem_map_of_mem hmem))
      rw [if_neg hne, ih hrest hmem]

theorem mem_keys_iff {k : String} {m : Assoc α} : k ∈ keys m ↔ ∃ value, get? k m = some value := by
  induction m with
  | nil => simp [keys]
  | cons entry rest ih =>
    obtain ⟨k', v⟩ := entry
    by_cases hk : k' = k
    · simp [get?, keys, hk]
    · have hk' : ¬k = k' := fun heq => hk heq.symm
      simpa [get?, keys, hk, hk'] using ih

theorem get?_eq_none_iff {k : String} {m : Assoc α} : get? k m = none ↔ k ∉ keys m := by
  rw [mem_keys_iff, Option.eq_none_iff_forall_not_mem, not_exists]
  rfl

private theorem first_eq {k k' : String} {v v' : α} {m n : Assoc α} (hm : Sorted ((k, v) :: m))
    (hn : Sorted ((k', v') :: n)) (h : ∀ key, get? key ((k, v) :: m) = get? key ((k', v') :: n)) :
    k = k' := by
  have hk : k ∈ keys ((k', v') :: n) := mem_keys_iff.mpr ⟨v, by rw [← h, get?, if_pos rfl]⟩
  have hk' : k' ∈ keys ((k, v) :: m) := mem_keys_iff.mpr ⟨v', by rw [h, get?, if_pos rfl]⟩
  rcases List.mem_cons.mp hk with heq | hk
  · exact heq
  · rcases List.mem_cons.mp hk' with heq | hk'
    · exact heq.symm
    · exact absurd ((sorted_cons.mp hm).1 k' hk') (String.lt_asymm ((sorted_cons.mp hn).1 k hk))

/-- Maps in order that agree on every key are equal. -/
theorem ext_of_sorted {m n : Assoc α} (hm : Sorted m) (hn : Sorted n)
    (h : ∀ key, get? key m = get? key n) : m = n := by
  induction m generalizing n with
  | nil =>
    cases n with
    | nil => rfl
    | cons entry rest => simpa [get?] using h entry.1
  | cons entry rest ih =>
    cases n with
    | nil => simpa [get?] using h entry.1
    | cons entry' rest' =>
      obtain ⟨k, v⟩ := entry
      obtain ⟨k', v'⟩ := entry'
      obtain rfl := first_eq hm hn h
      obtain ⟨hfirst, hrest⟩ := sorted_cons.mp hm
      obtain ⟨hfirst', hrest'⟩ := sorted_cons.mp hn
      have hvalue : v = v' := by simpa [get?] using h k
      -- the first key is no key of the rest, so the rests agree on it too
      have hagree : ∀ key, get? key rest = get? key rest' := by
        intro key
        by_cases hkey : k = key
        · subst hkey
          rw [get?_eq_none_iff.mpr fun hmem => String.lt_irrefl _ (hfirst _ hmem),
            get?_eq_none_iff.mpr fun hmem => String.lt_irrefl _ (hfirst' _ hmem)]
        · simpa [get?, hkey] using h key
      rw [hvalue, ih hrest hrest' hagree]

/-- In a map in order a removal leaves no value of the key. -/
theorem get?_erase {key : String} {m : Assoc α} (h : Sorted m) (k : String) :
    get? k (erase key m) = if key = k then none else get? k m := by
  induction m with
  | nil => simp [erase, get?]
  | cons entry rest ih =>
    obtain ⟨k', v⟩ := entry
    obtain ⟨hfirst, hrest⟩ := sorted_cons.mp h
    by_cases hk' : k' = key
    · subst hk'
      by_cases hk : k' = k
      · subst hk
        simpa [erase] using get?_eq_none_iff.mpr fun hmem => String.lt_irrefl _ (hfirst _ hmem)
      · simp [erase, get?, hk]
    · by_cases hk : k' = k
      · subst hk
        have hkey : key ≠ k' := fun heq => hk' heq.symm
        simp [erase, get?, hk', hkey]
      · simp [erase, get?, hk', hk, ih hrest]

/-! ## Undoing -/

/-- A removal undoes the insertion of a key that was not there. -/
theorem erase_insert {key : String} {m : Assoc α} (h : Sorted m) (hkey : get? key m = none)
    (value : α) :
    erase key (insert key value m) = m := by
  have hinserted : Sorted (insert key value m) := h.insert key value
  apply ext_of_sorted (hinserted.sublist (erase_sublist key _)) h
  intro k
  rw [get?_erase hinserted, get?_insert]
  by_cases hk : key = k
  · subst hk
    rw [if_pos rfl, hkey]
  · rw [if_neg hk, if_neg hk]

/-- An insertion of its value undoes the removal of a key. -/
theorem insert_erase {key : String} {value : α} {m : Assoc α} (h : Sorted m)
    (hkey : get? key m = some value) :
    insert key value (erase key m) = m := by
  have herased : Sorted (erase key m) := h.sublist (erase_sublist key m)
  apply ext_of_sorted (herased.insert key value) h
  intro k
  rw [get?_insert, get?_erase h]
  by_cases hk : key = k
  · subst hk
    rw [if_pos rfl, hkey]
  · rw [if_neg hk, if_neg hk]

end ItemStore.Assoc
