import ItemStore.Proofs.Assoc
import ItemStore.Proofs.Json.Place
import ItemStore.Proofs.Pointer

/-!
# Edits keep objects in order

A value is canonical if every object in it lists its members by increasing key. The parts of a
canonical value are canonical, and so is what the edits of `ItemStore.Json.Edit` make of canonical
values.

## Main results

- `Json.Canonical.at?`: what a list of tokens addresses in a canonical value is canonical;
- `Json.Canonical.alterAt`, `Json.Canonical.insertAt`, `Json.Canonical.removeAt`,
  `Json.Canonical.merge`: the edits keep values canonical.
-/

namespace ItemStore.Json

/-! ## Parts -/

theorem canonicalItems_iff {items : List Json} :
    CanonicalItems items ↔ ∀ v ∈ items, v.Canonical := by
  induction items with
  | nil => exact ⟨fun _ => List.forall_mem_nil _, fun _ => trivial⟩
  | cons v rest ih => exact (and_congr_right' ih).trans List.forall_mem_cons.symm

theorem canonicalMembers_iff {members : List (String × Json)} :
    CanonicalMembers members ↔ ∀ member ∈ members, member.2.Canonical := by
  induction members with
  | nil => exact ⟨fun _ => List.forall_mem_nil _, fun _ => trivial⟩
  | cons member rest ih =>
    have hall := List.forall_mem_cons (p := fun member : String × Json => member.2.Canonical)
      (a := member) (l := rest)
    exact (and_congr_right' ih).trans hall.symm

theorem canonical_arr {items : List Json} : (arr items).Canonical ↔ ∀ v ∈ items, v.Canonical :=
  canonicalItems_iff

theorem canonical_obj {members : Members} :
    (obj members).Canonical ↔ Assoc.Sorted members ∧ ∀ member ∈ members, member.2.Canonical :=
  and_congr_right' canonicalMembers_iff

theorem canonical_ofPairs {pairs : List (String × Json)} (h : ∀ pair ∈ pairs, pair.2.Canonical) :
    (ofPairs pairs).Canonical :=
  canonical_obj.mpr ⟨Assoc.sorted_ofPairs pairs,
    fun member hmember => h member (Assoc.mem_of_mem_ofPairs hmember)⟩

/-! ## Members -/

section Members

variable {members : Members} {value : Json}

theorem Canonical.get? (h : (obj members).Canonical) {key : String}
    (hvalue : Assoc.get? key members = some value) :
    value.Canonical :=
  (canonical_obj.mp h).2 _ (Assoc.mem_of_get? hvalue)

theorem Canonical.set (h : (obj members).Canonical) (hvalue : value.Canonical) (key : String) :
    (obj (Assoc.set key value members)).Canonical := by
  obtain ⟨hsorted, hmembers⟩ := canonical_obj.mp h
  refine canonical_obj.mpr ⟨?_, fun member hmember => ?_⟩
  · rw [Assoc.Sorted, Assoc.keys_set]
    exact hsorted
  · rcases Assoc.eq_or_mem_of_mem_set hmember with rfl | hmember
    · exact hvalue
    · exact hmembers member hmember

theorem Canonical.insert (h : (obj members).Canonical) (hvalue : value.Canonical) (key : String) :
    (obj (Assoc.insert key value members)).Canonical := by
  obtain ⟨hsorted, hmembers⟩ := canonical_obj.mp h
  refine canonical_obj.mpr ⟨hsorted.insert key value, fun member hmember => ?_⟩
  rcases Assoc.eq_or_mem_of_mem_insert hmember with rfl | hmember
  · exact hvalue
  · exact hmembers member hmember

theorem Canonical.erase (h : (obj members).Canonical) (key : String) :
    (obj (Assoc.erase key members)).Canonical := by
  obtain ⟨hsorted, hmembers⟩ := canonical_obj.mp h
  have hsub := Assoc.erase_sublist key members
  exact canonical_obj.mpr
    ⟨hsorted.sublist hsub, fun member hmember => hmembers member (hsub.subset hmember)⟩

end Members

/-! ## Places -/

variable {v c w value : Json} {token : String} {tokens : List String}

theorem Canonical.child? (hv : v.Canonical) (h : v.child? token = some c) : c.Canonical := by
  cases v with
  | obj members => exact hv.get? h
  | arr items =>
    obtain ⟨i, -, hi⟩ := Option.bind_eq_some_iff.mp h
    exact canonical_arr.mp hv c (List.mem_of_getElem? hi)
  | _ => cases h

/-- What is addressed in a canonical value is canonical. -/
theorem Canonical.at? (hv : v.Canonical) (h : v.at? tokens = some c) : c.Canonical := by
  induction tokens generalizing v with
  | nil =>
    cases h
    exact hv
  | cons token rest ih =>
    obtain ⟨d, hd, hrest⟩ := Option.bind_eq_some_iff.mp h
    exact ih (hv.child? hd) hrest

theorem Canonical.setChild (hv : v.Canonical) (hvalue : value.Canonical) (token : String) :
    (setChild token value v).Canonical := by
  cases v with
  | obj members => exact hv.set hvalue token
  | arr items =>
    rw [Json.setChild]
    split
    next i _ =>
      refine canonical_arr.mpr fun x hx => ?_
      rcases List.mem_or_eq_of_mem_set hx with hx | rfl
      · exact canonical_arr.mp hv x hx
      · exact hvalue
    next => exact hv
  | _ => exact hv

theorem Canonical.putAt (hv : v.Canonical) (hvalue : value.Canonical) (tokens : List String) :
    (putAt tokens value v).Canonical := by
  induction tokens generalizing v with
  | nil => exact hvalue
  | cons token rest ih =>
    rw [Json.putAt]
    split
    next c hc => exact hv.setChild (ih (hv.child? hc)) token
    next => exact hv

/-- A step in place keeps a value canonical if it does so with what is there. -/
theorem Canonical.alterAt {ε : Type} {missing : ε} {step : Json → Except ε Json} (hv : v.Canonical)
    (hstep : ∀ {c c'}, c.Canonical → step c = .ok c' → c'.Canonical)
    (h : alterAt missing step tokens v = .ok w) :
    w.Canonical := by
  cases hat : v.at? tokens with
  | none =>
    rw [alterAt_of_at?_none hat] at h
    cases h
  | some c =>
    rw [alterAt_of_at?_some hat] at h
    cases hc : step c with
    | error e =>
      rw [hc] at h
      cases h
    | ok c' =>
      rw [hc] at h
      cases h
      exact hv.putAt (hstep (hv.at? hat) hc) tokens

/-! ## Edits -/

theorem Canonical.insertInto {last : String} (hv : v.Canonical) (hvalue : value.Canonical)
    (h : insertInto tokens last value v = .ok w) : w.Canonical := by
  cases v with
  | obj members =>
    cases h
    exact hv.insert hvalue last
  | arr items =>
    have hitems := canonical_arr.mp hv
    simp only [Json.insertInto] at h
    split at h
    next =>
      cases h
      refine canonical_arr.mpr fun x hx => ?_
      rcases List.mem_append.mp hx with hx | hx
      · exact hitems x hx
      · exact List.mem_singleton.mp hx ▸ hvalue
    next =>
      split at h
      next i hi =>
        cases h
        have hbound : i ≤ items.length := Nat.le_of_lt_succ (Pointer.lt_of_arrayIndex? hi)
        refine canonical_arr.mpr fun x hx => ?_
        rcases (List.mem_insertIdx hbound).mp hx with rfl | hx
        · exact hvalue
        · exact hitems x hx
      next => cases h
  | _ => cases h

theorem Canonical.insertAt (hv : v.Canonical) (hvalue : value.Canonical)
    (h : insertAt tokens value v = .ok w) :
    w.Canonical := by
  unfold Json.insertAt at h
  split at h
  next =>
    cases h
    exact hvalue
  next => exact hv.alterAt (fun hc hstep => hc.insertInto hvalue hstep) h

theorem Canonical.removeFrom {last : String} (hv : v.Canonical)
    (h : removeFrom tokens last v = .ok w) : w.Canonical := by
  cases v with
  | obj members =>
    simp only [Json.removeFrom] at h
    split at h
    next =>
      cases h
      exact hv.erase last
    next => cases h
  | arr items =>
    simp only [Json.removeFrom] at h
    split at h
    next =>
      cases h
      exact canonical_arr.mpr fun x hx => canonical_arr.mp hv x (List.mem_of_mem_eraseIdx hx)
    next => cases h
  | _ => cases h

/-- Both the removed value and what is left are canonical. -/
theorem Canonical.removeAt (hv : v.Canonical) {removed : Json}
    (h : removeAt tokens v = .ok (removed, w)) :
    removed.Canonical ∧ w.Canonical := by
  unfold Json.removeAt at h
  split at h
  next => cases h
  next last _ =>
    split at h
    next => cases h
    next found hfound =>
      cases hrest : Json.alterAt (.missing tokens) (Json.removeFrom tokens last)
        tokens.dropLast v with
      | error e =>
        rw [hrest] at h
        cases h
      | ok rest =>
        rw [hrest] at h
        cases h
        exact ⟨hv.at? hfound, hv.alterAt (fun hc hstep => hc.removeFrom hstep) hrest⟩

/-! ## Merging -/

/-- The members that a merge starts from. -/
theorem Canonical.members {target : Json} (htarget : target.Canonical) :
    (obj (target.asObject?.getD [])).Canonical := by
  cases target with
  | obj members => exact htarget
  | _ => exact canonical_obj.mpr ⟨List.Pairwise.nil, List.forall_mem_nil _⟩

mutual

theorem Canonical.merge {target : Json} (htarget : target.Canonical) (patch : Json)
    (hpatch : patch.Canonical) :
    (merge target patch).Canonical := by
  cases patch with
  | obj entries =>
    rw [Json.merge]
    exact canonical_mergeMembers htarget.members entries (canonical_obj.mp hpatch).2
  | arr items => exact hpatch
  | _ => exact trivial

theorem canonical_mergeMembers {members : Members} (hmembers : (obj members).Canonical)
    (entries : List (String × Json)) (hentries : ∀ entry ∈ entries, entry.2.Canonical) :
    (obj (mergeMembers members entries)).Canonical := by
  match entries with
  | [] => exact hmembers
  | (key, value) :: rest =>
    obtain ⟨hvalue, hrest⟩ := List.forall_mem_cons.mp hentries
    rw [mergeMembers]
    split
    next => exact canonical_mergeMembers (hmembers.erase key) rest hrest
    next =>
      have hold : ((members.get? key).getD .null).Canonical := by
        cases hget : members.get? key with
        | none => exact trivial
        | some old => exact hmembers.get? hget
      exact canonical_mergeMembers (hmembers.insert (hold.merge value hvalue) key) rest hrest

end

end ItemStore.Json
