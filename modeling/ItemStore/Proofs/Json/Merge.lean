import ItemStore.Proofs.Json.Canonical
import ItemStore.Proofs.Json.Text

/-!
# Merging key by key

A merge goes through the members of the patch in order and changes the target as it goes. Since the
keys of an object are distinct, each key comes up once, and what it has in the end depends on what
the two values have for it and on nothing else.

## Main results

- `Json.get?_mergeMembers`: what the merge of two objects has under a key;
- `Json.merge_merge`: a second merge of the same patch changes nothing;
- `Json.merge_key_by_key`: both, for all values, with the patches that are no objects.
-/

namespace ItemStore.Json

/-! ## One key -/

/-- What a key has after a merge, if it had `old` before and the patch has `entry` for it. -/
def mergedMember (old entry : Option Json) : Option Json :=
  match entry with
  | none => old
  | some value => if value.isNull then none else some (merge (old.getD .null) value)

/-- What is merged under a key was merged there before. -/
theorem mergedMember_mergedMember {old entry : Option Json}
    (h : ∀ value, entry = some value →
      merge (merge (old.getD .null) value) value = merge (old.getD .null) value) :
    mergedMember (mergedMember old entry) entry = mergedMember old entry := by
  cases entry with
  | none => rfl
  | some value =>
    simp only [mergedMember]
    split
    next => rfl
    next => rw [Option.getD_some, h value rfl]

/-- **Members**: the merge of two objects, key by key. -/
theorem get?_mergeMembers {members entries : Members} (hmembers : Assoc.Sorted members)
    (hentries : Assoc.Sorted entries) (key : String) :
    Assoc.get? key (mergeMembers members entries) =
      mergedMember (Assoc.get? key members) (Assoc.get? key entries) := by
  induction entries generalizing members with
  | nil => rfl
  | cons entry rest ih =>
    obtain ⟨first, value⟩ := entry
    obtain ⟨hfirst, hrest⟩ := Assoc.sorted_cons.mp hentries
    -- the first key does not come up again
    have hlast : Assoc.get? first rest = none :=
      Assoc.get?_eq_none_iff.mpr fun hmem => String.lt_irrefl _ (hfirst first hmem)
    rw [mergeMembers]
    split
    next hnull =>
      rw [ih (hmembers.sublist (Assoc.erase_sublist first members)) hrest,
        Assoc.get?_erase hmembers, Assoc.get?]
      by_cases hkey : first = key
      · subst hkey
        simp only [hlast, if_true, mergedMember, hnull]
      · simp only [if_neg hkey]
    next hvalue =>
      rw [ih (hmembers.insert first _) hrest, Assoc.get?_insert, Assoc.get?]
      by_cases hkey : first = key
      · subst hkey
        simp only [hlast, if_true, mergedMember, hvalue]
        rfl
      · simp only [if_neg hkey]

/-! ## Whole values -/

/-- The members that a merge starts from, key by key. -/
theorem get?_members (target : Json) (key : String) :
    Assoc.get? key (target.asObject?.getD []) = target.get? key := by
  cases target <;> rfl

/-- A patch that is no object replaces the target. -/
theorem merge_of_ne_obj {patch : Json} (h : ∀ entries, patch ≠ .obj entries) (target : Json) :
    merge target patch = patch := by
  cases patch with
  | obj entries => exact absurd rfl (h entries)
  | _ => simp only [merge]

mutual

/-- **Idempotence**: a second merge of the same patch changes nothing. -/
theorem merge_merge (patch : Json) (hpatch : patch.Canonical) {target : Json}
    (htarget : target.Canonical) :
    merge (merge target patch) patch = merge target patch := by
  cases patch with
  | obj entries =>
    obtain ⟨hentries, hvalues⟩ := canonical_obj.mp hpatch
    have hold := htarget.members
    have hmerged := canonical_mergeMembers hold entries hvalues
    have hagain := canonical_mergeMembers hmerged entries hvalues
    rw [merge, merge]
    apply congrArg obj
    -- both are maps in order, so it is enough that they agree on every key
    apply Assoc.ext_of_sorted (canonical_obj.mp hagain).1 (canonical_obj.mp hmerged).1
    intro key
    rw [get?_mergeMembers (canonical_obj.mp hmerged).1 hentries,
      get?_mergeMembers (canonical_obj.mp hold).1 hentries]
    apply mergedMember_mergedMember
    intro value hvalue
    apply merge_merge_of_mem entries hvalues _ (Assoc.mem_of_get? hvalue)
    cases hget : Assoc.get? key (target.asObject?.getD []) with
    | none => exact trivial
    | some old => exact hold.get? hget
  | _ => simp only [merge]

/-- The same for the values of a patch that is an object. -/
theorem merge_merge_of_mem (entries : List (String × Json))
    (hentries : ∀ entry ∈ entries, entry.2.Canonical) :
    ∀ entry ∈ entries, ∀ {target : Json}, target.Canonical →
      merge (merge target entry.2) entry.2 = merge target entry.2 := by
  match entries with
  | [] => exact List.forall_mem_nil _
  | (_, value) :: rest =>
    obtain ⟨hvalue, hrest⟩ := List.forall_mem_cons.mp hentries
    refine List.forall_mem_cons.mpr ⟨?_, merge_merge_of_mem rest hrest⟩
    intro target htarget
    exact merge_merge value hvalue htarget

end

/-- **Merging**: a patch that is no object replaces the target. One that is an object makes an
object of it, which has under each key what the target had, nothing where the patch has null, and
where the patch has anything else, that merged into what the target had, or into null if it had
nothing. A second merge of the patch changes nothing. -/
theorem merge_key_by_key {target patch : Json} (htarget : target.Canonical)
    (hpatch : patch.Canonical) :
    (merge target patch).Canonical ∧
      ((∀ entries, patch ≠ .obj entries) → merge target patch = patch) ∧
      (∀ entries, patch = .obj entries → ∃ members, merge target patch = .obj members ∧ ∀ key,
        (Assoc.get? key entries = none → Assoc.get? key members = target.get? key) ∧
        (Assoc.get? key entries = some .null → Assoc.get? key members = none) ∧
        (∀ value, Assoc.get? key entries = some value → value ≠ .null →
          Assoc.get? key members = some (merge ((target.get? key).getD .null) value))) ∧
      merge (merge target patch) patch = merge target patch := by
  refine ⟨htarget.merge patch hpatch, fun h => merge_of_ne_obj h target, ?_,
    merge_merge patch hpatch htarget⟩
  rintro entries rfl
  refine ⟨mergeMembers (target.asObject?.getD []) entries, by rw [merge], fun key => ?_⟩
  rw [get?_mergeMembers (canonical_obj.mp htarget.members).1 (canonical_obj.mp hpatch).1,
    get?_members]
  refine ⟨fun hkey => ?_, fun hkey => ?_, fun value hkey hvalue => ?_⟩
  · rw [hkey, mergedMember]
  · rw [hkey]
    rfl
  · have hnull : value.isNull = false := by
      cases value with
      | null => exact absurd rfl hvalue
      | _ => rfl
    simp only [hkey, mergedMember, hnull, Bool.false_eq_true, if_false]

/-- A patch with an object inside that replaces a number, and a null inside that one. -/
theorem merge_key_by_key_of_nested_patch :
    let target : Json :=
      .obj [("a", .obj [("b", .ofNat 1), ("c", .ofNat 2)]), ("d", .ofNat 3), ("e", .arr [])]
    let inside : Json := .obj [("b", .null), ("f", .obj [("g", .null)])]
    let patch : Json := .obj [("a", inside), ("d", .obj [("h", .null)]), ("e", .null)]
    target.Canonical ∧ patch.Canonical ∧
      ∃ members, merge target patch = .obj members ∧
        Assoc.get? "a" members = some (merge (.obj [("b", .ofNat 1), ("c", .ofNat 2)]) inside) ∧
        Assoc.get? "d" members = some (.obj []) ∧ Assoc.get? "e" members = none ∧
        merge (merge target patch) patch = merge target patch := by
  intro target inside patch
  have htarget : target.Canonical := by decide
  have hpatch : patch.Canonical := by decide
  obtain ⟨-, -, hkeys, hagain⟩ := merge_key_by_key htarget hpatch
  obtain ⟨members, hmembers, hkey⟩ := hkeys _ rfl
  refine ⟨htarget, hpatch, members, hmembers, ?_, ?_, (hkey "e").2.1 rfl, hagain⟩
  · exact (hkey "a").2.2 inside rfl nofun
  · exact (hkey "d").2.2 (.obj [("h", .null)]) rfl nofun

end ItemStore.Json
