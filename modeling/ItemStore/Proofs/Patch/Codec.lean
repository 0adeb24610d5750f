import ItemStore.Patch.Failure
import ItemStore.Proofs.Assoc

/-!
# Reading back what was written

- `PatchDocument.ofJson_toJson`: a patch document is read back from its JSON form;
- `PatchFailure.ofDetails_toDetails`: so is a failure report from its details, if its positions are
  numbers that JSON can hold.
-/

namespace ItemStore

/-! ## Operations -/

namespace PatchOp

/-- An object that names a nested patch is read by way of its operations. -/
theorem ofJson_of_patch {ms : Members} {path : String} {items : List Json}
    (hop : ms.get? "op" = some (.str "patch")) (hpath : ms.get? "path" = some (.str path))
    (hvalue : ms.get? "value" = some (.arr items)) :
    ofJson (.obj ms) = do
      let ops ← ofJsonAll items
      return .patch path ops (← flagField "conditional" ms) := by
  rw [ofJson]
  simp only [hop, Option.bind_some, Json.asString?, stringField, hpath]
  simp only [String.reduceEq, if_false, if_true]
  split
  next hnone => simp [hvalue] at hnone
  next heq =>
    rw [hvalue] at heq
    cases heq
    rfl
  next hother => simp_all

private theorem exists_members_of_patch (path : String) (ops : List PatchOp) (conditional : Bool) :
    ∃ ms : Members, toJson (.patch path ops conditional) = .obj ms ∧
    ms.get? "op" = some (.str "patch") ∧
      ms.get? "path" = some (.str path) ∧ ms.get? "value" = some (.arr (toJsonAll ops)) ∧
      ms.get? "conditional" = if conditional then some (.bool true) else none := by
  refine ⟨_, by rw [toJson, Json.ofPairs], ?_⟩
  cases conditional <;> simp [Assoc.get?_ofPairs]

mutual

/-- An operation is read back from its JSON form. -/
theorem ofJson_toJson (op : PatchOp) : ofJson op.toJson = .ok op := by
  cases op with
  | test path expected negate =>
    cases expected <;> cases negate <;>
      simp [toJson, Json.ofPairs, ofJson, Assoc.get?_ofPairs, stringField, flagField,
        Json.asString?] <;> rfl
  | patch path ops conditional =>
    obtain ⟨ms, hms, hop, hpath, hvalue, hflag⟩ := exists_members_of_patch path ops conditional
    rw [hms, ofJson_of_patch hop hpath hvalue, ofJsonAll_toJsonAll ops, flagField, hflag]
    cases conditional <;> rfl
  | inc path amount =>
    cases amount <;>
      simp [toJson, Json.ofPairs, ofJson, Assoc.get?_ofPairs, stringField, Json.asString?, bind,
        Except.bind, pure, Except.pure]
  | _ =>
    simp [toJson, Json.ofPairs, ofJson, Assoc.get?_ofPairs, stringField, valueField, Json.asString?]
      <;> rfl

theorem ofJsonAll_toJsonAll (ops : List PatchOp) : ofJsonAll (toJsonAll ops) = .ok ops := by
  cases ops with
  | nil => simp [toJsonAll, ofJsonAll]
  | cons op rest =>
    rw [toJsonAll, ofJsonAll, ofJson_toJson op, ofJsonAll_toJsonAll rest]
    rfl

end

/-- The object that stands for an operation gives its name. -/
theorem get?_toJson_op (op : PatchOp) : op.toJson.get? "op" = some (.str op.name) := by
  cases op with
  | inc path amount =>
    cases amount <;> simp [toJson, Json.ofPairs, Json.get?, Assoc.get?_ofPairs, name]
  | test path expected negate =>
    cases expected <;> cases negate <;>
      simp [toJson, Json.ofPairs, Json.get?, Assoc.get?_ofPairs, name]
  | patch path ops conditional =>
    cases conditional <;> simp [toJson, Json.ofPairs, Json.get?, Assoc.get?_ofPairs, name]
  | _ => simp [toJson, Json.ofPairs, Json.get?, Assoc.get?_ofPairs, name]

theorem name_eq_test_iff {op : PatchOp} : op.name = "test" ↔ op.isTest = true := by
  cases op <;> simp [name, isTest]

end PatchOp

theorem PatchDocument.ofJson_toJson (doc : PatchDocument) : ofJson doc.toJson = .ok doc :=
  PatchOp.ofJsonAll_toJsonAll doc

/-! ## Positions -/

mutual

/-- The greatest number of operations in one list inside an operation. -/
def PatchOp.breadth : PatchOp → Nat
  | .patch _ ops _ => max ops.length (PatchOp.breadthAll ops)
  | _ => 0

/-- The same for what lies inside a list of operations. -/
def PatchOp.breadthAll : List PatchOp → Nat
  | [] => 0
  | op :: rest => max op.breadth (PatchOp.breadthAll rest)

end

/-- The greatest number of operations in one list of a document. -/
def PatchDocument.breadth (doc : PatchDocument) : Nat :=
  max doc.length (PatchOp.breadthAll doc)

private theorem PatchOp.breadth_le_breadthAll {op : PatchOp} {ops : List PatchOp} (h : op ∈ ops) :
    op.breadth ≤ breadthAll ops := by
  induction ops with
  | nil => cases h
  | cons first rest ih =>
    rw [breadthAll]
    rcases List.mem_cons.mp h with rfl | hrest
    · exact Nat.le_max_left ..
    · exact Nat.le_trans (ih hrest) (Nat.le_max_right ..)

/-- Every position in a document is smaller than its greatest number of operations. -/
theorem PatchDocument.lt_breadth_of_at? {doc : PatchDocument} {address : List Nat} {op : PatchOp}
    (h : doc.at? address = some op) : ∀ i ∈ address, i < doc.breadth := by
  induction address generalizing doc with
  | nil => cases h
  | cons i rest ih =>
    obtain ⟨inner, hfound, hinner⟩ := Option.bind_eq_some_iff.mp h
    obtain ⟨hi, rfl⟩ := List.getElem?_eq_some_iff.mp hfound
    refine List.forall_mem_cons.mpr ⟨Nat.lt_of_lt_of_le hi (Nat.le_max_left ..), ?_⟩
    intro j hj
    -- the address goes on only inside a nested patch, whose lists are among those of the document
    cases hop : doc[i] with
    | patch path ops conditional =>
      have hmem : PatchOp.patch path ops conditional ∈ doc := hop ▸ List.getElem_mem hi
      have hle : PatchDocument.breadth ops ≤ PatchOp.breadthAll doc :=
        PatchOp.breadth_le_breadthAll hmem
      rw [hop] at hinner
      cases rest with
      | nil => cases hj
      | cons k rest =>
        exact Nat.lt_of_lt_of_le (ih hinner j hj) (Nat.le_trans hle (Nat.le_max_right ..))
    | _ =>
      rw [hop] at hinner
      cases rest with
      | nil => cases hj
      | cons k rest => cases hinner

/-! ## Reports -/

/-- A 64-bit natural number is read back. -/
theorem Json.asNat?_ofNat {n : Nat} (h : n < 0x10000000000000000) :
    (Json.ofNat n).asNat? = some n := by
  have hnat : (0 : Int) ≤ (n : Int) := Int.natCast_nonneg n
  unfold Json.ofNat JsonInt.ofNat?
  rw [dif_pos h]
  simp only [Json.asNat?, hnat, if_true, Int.toNat_natCast]

namespace PatchFailure

/-- The positions of a report are numbers that JSON can hold. -/
def Indexable (f : PatchFailure) : Prop :=
  ∀ i ∈ f.address, i < 0x10000000000000000

private theorem nestedPathOf_map {nestedPath : List Nat}
    (h : ∀ i ∈ nestedPath, i < 0x10000000000000000) :
    nestedPathOf (some (.arr (nestedPath.map Json.ofNat))) = .ok nestedPath := by
  unfold nestedPathOf
  induction nestedPath with
  | nil => rfl
  | cons i rest ih =>
    obtain ⟨hi, hrest⟩ := List.forall_mem_cons.mp h
    simp only [List.map_cons, List.mapM_cons, Json.asNat?_ofNat hi, ih hrest]
    rfl

/-- What each member of the details of a report says. -/
theorem get?_toDetails (f : PatchFailure) :
    f.toDetails.get? "opIndex" = some (.ofNat f.opIndex) ∧
    f.toDetails.get? "op" = some f.op.toJson ∧
      f.toDetails.get? "info" = some (.str f.info) ∧ f.toDetails.get? "actual" = f.actual ∧
      f.toDetails.get? "nestedPath" =
        if f.nestedPath.isEmpty then none else some (.arr (f.nestedPath.map Json.ofNat)) := by
  unfold toDetails
  -- two of the members are left out where there is nothing to say
  cases f.nestedPath <;> cases f.actual <;> simp [Assoc.get?_ofPairs]

/-- A report is read back from its details. -/
theorem ofDetails_toDetails {f : PatchFailure} (h : f.Indexable) :
    ofDetails f.toDetails = .ok f := by
  obtain ⟨hindex, hop, hinfo, hactual, hnested⟩ := f.get?_toDetails
  have hi : f.opIndex < 0x10000000000000000 := h _ List.mem_cons_self
  have hrest : ∀ i ∈ f.nestedPath, i < 0x10000000000000000 :=
    fun i hmem => h i (List.mem_cons_of_mem _ hmem)
  have hpath : nestedPathOf (f.toDetails.get? "nestedPath") = .ok f.nestedPath := by
    rw [hnested]
    split
    next hnil => rw [List.isEmpty_iff.mp hnil, nestedPathOf]
    next => exact nestedPathOf_map hrest
  have hread : opOf (some f.op.toJson) = .ok f.op := by
    rw [opOf, PatchOp.ofJson_toJson]
    rfl
  unfold ofDetails
  rw [hindex, hop, hinfo, hactual, hpath, hread]
  simp only [Option.bind_some, Json.asNat?_ofNat hi]
  rfl

end PatchFailure

end ItemStore
