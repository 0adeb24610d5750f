import ItemStore.Proofs.Json.Canonical
import ItemStore.Proofs.Json.Text

/-!
# Values that fit into a text

A value is within a bound if its objects are in order and it is nested no deeper than that, and it
fits if its numbers are read back from their texts, too. What is put together from such values is
such a value, with a bound that is greater by one (`Json.Inherited`, `Json.inherited_within`,
`Json.inherited_fits`).
-/

namespace ItemStore.Json

/-! ## Depths -/

/-- An array is deeper than its elements by one. -/
theorem depth_arr_le_iff {items : List Json} {n : Nat} :
    (arr items).depth ≤ n + 1 ↔ ∀ v ∈ items, v.depth ≤ n := by
  rw [depth, Nat.add_le_add_iff_right]
  induction items with
  | nil => simp [depthItems]
  | cons v rest ih => rw [depthItems, Nat.max_le, ih, List.forall_mem_cons]

/-- An object is deeper than its members by one. -/
theorem depth_obj_le_iff {members : Members} {n : Nat} :
    (obj members).depth ≤ n + 1 ↔ ∀ member ∈ members, member.2.depth ≤ n := by
  rw [depth, Nat.add_le_add_iff_right]
  induction members with
  | nil => simp [depthMembers]
  | cons member rest ih => rw [depthMembers, Nat.max_le, ih, List.forall_mem_cons]

theorem depth_lt_of_mem {items : List Json} {v : Json} (h : v ∈ items) :
    v.depth < (arr items).depth :=
  Nat.lt_succ_of_le (depth_arr_le_iff.mp (Nat.le_refl (depthItems items + 1)) v h)

theorem depth_lt_of_get? {v c : Json} {key : String} (h : v.get? key = some c) :
    c.depth < v.depth := by
  cases v with
  | obj members =>
    exact Nat.lt_succ_of_le
      (depth_obj_le_iff.mp (Nat.le_refl (depthMembers members + 1)) _ (Assoc.mem_of_get? h))
  | _ => cases h

/-! ## Fitting -/

/-- The objects in the value are in order, and it is nested no deeper than a bound. -/
structure Within (limit : Nat) (v : Json) : Prop where
  canonical : v.Canonical
  depth_le : v.depth ≤ limit

/-- A value can be written and read back as a part of a text that leaves it room for `limit` nested
arrays and objects. -/
structure Fits (limit : Nat) (v : Json) : Prop extends Within limit v where
  faithful : v.Faithful

theorem Within.mono {limit limit' : Nat} {v : Json} (h : v.Within limit) (hle : limit ≤ limit') :
    v.Within limit' :=
  ⟨h.canonical, Nat.le_trans h.depth_le hle⟩

/-- A property with a bound that passes from parts to what is put together from them, where the
bound is greater by one. -/
structure Inherited (P : Nat → Json → Prop) : Prop where
  null : ∀ limit, P limit .null
  str : ∀ limit text, P limit (.str text)
  int : ∀ limit i, P limit (.num (.int i))
  arr : ∀ {limit items}, (∀ v ∈ items, P limit v) → P (limit + 1) (.arr items)
  obj : ∀ {limit members}, Assoc.Sorted members → (∀ member ∈ members, P limit member.2) →
    P (limit + 1) (.obj members)

namespace Inherited

variable {P : Nat → Json → Prop} (hP : Inherited P)
include hP

theorem ofNat (limit n : Nat) : P limit (.ofNat n) := by
  unfold Json.ofNat
  cases JsonInt.ofNat? n with
  | none => exact hP.null limit
  | some i => exact hP.int limit i

theorem ofPairs {limit : Nat} {pairs : List (String × Json)} (h : ∀ pair ∈ pairs, P limit pair.2) :
    P (limit + 1) (Json.ofPairs pairs) :=
  hP.obj (Assoc.sorted_ofPairs pairs) fun member hmember =>
    h member (Assoc.mem_of_mem_ofPairs hmember)

end Inherited

theorem inherited_within : Inherited fun limit v => v.Within limit where
  null _ := ⟨trivial, Nat.zero_le _⟩
  str _ _ := ⟨trivial, Nat.zero_le _⟩
  int _ _ := ⟨trivial, Nat.zero_le _⟩
  arr h :=
    ⟨canonical_arr.mpr fun v hv => (h v hv).canonical,
      depth_arr_le_iff.mpr fun v hv => (h v hv).depth_le⟩
  obj hsorted h :=
    ⟨canonical_obj.mpr ⟨hsorted, fun member hmember => (h member hmember).canonical⟩,
      depth_obj_le_iff.mpr fun member hmember => (h member hmember).depth_le⟩

theorem rereadItems_eq_map (items : List Json) : rereadItems items = items.map reread := by
  induction items with
  | nil => rfl
  | cons v rest ih => rw [rereadItems, ih, List.map_cons]

theorem rereadMembers_eq_map (members : List (String × Json)) :
    rereadMembers members = members.map fun member => (member.1, member.2.reread) := by
  induction members with
  | nil => rfl
  | cons member rest ih => rw [rereadMembers, ih, List.map_cons]

/-- An array is read back if its elements are. -/
theorem faithful_arr {items : List Json} (h : ∀ v ∈ items, v.Faithful) : (arr items).Faithful := by
  rw [Faithful, reread, rereadItems_eq_map, List.map_congr_left h, List.map_id']

/-- An object is read back if its members are. -/
theorem faithful_obj {members : Members} (h : ∀ member ∈ members, member.2.Faithful) :
    (obj members).Faithful := by
  have hself : ∀ member ∈ members, (member.1, member.2.reread) = member := fun member hmember =>
    Prod.ext rfl (h member hmember)
  rw [Faithful, reread, rereadMembers_eq_map, List.map_congr_left hself, List.map_id']

theorem inherited_fits : Inherited fun limit v => v.Fits limit where
  null limit := ⟨inherited_within.null limit, rfl⟩
  str limit text := ⟨inherited_within.str limit text, rfl⟩
  int limit i := ⟨inherited_within.int limit i, congrArg Json.num (Number.reread_int i)⟩
  arr h :=
    ⟨inherited_within.arr fun v hv => (h v hv).toWithin, faithful_arr fun v hv => (h v hv).faithful⟩
  obj hsorted h :=
    ⟨inherited_within.obj hsorted fun member hmember => (h member hmember).toWithin,
      faithful_obj fun member hmember => (h member hmember).faithful⟩

end ItemStore.Json
