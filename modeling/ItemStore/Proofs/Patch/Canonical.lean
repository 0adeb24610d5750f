import ItemStore.Error.Basic
import ItemStore.Proofs.Json.Reading
import ItemStore.Proofs.Patch.Conditional
import ItemStore.Proofs.Patch.Normal

/-!
# Patch documents keep objects in order

The values that the operations of a patch document carry end up in the stored value and in reports.
They are canonical if the document is read from a body; so is then what the document makes of a
canonical value, and what a report holds.

## Main results

- `PatchDocument.canonical_of_ofBytes`: documents that are read carry canonical values;
- `PatchDocument.canonical_of_apply`: what they make of a canonical value is canonical;
- `PatchDocument.canonical_of_failure`: so are the JSON form of the operation in a report and the
  value that it holds.
-/

namespace ItemStore

namespace PatchOp

mutual

/-- The values that an operation carries are canonical. -/
def Canonical : PatchOp → Prop
  | .add _ value | .replace _ value | .init _ value | .merge _ value => value.Canonical
  | .test _ expected _ => ∀ value, expected.value? = some value → value.Canonical
  | .patch _ ops _ => CanonicalAll ops
  | .remove _ | .move _ _ | .copy _ _ | .inc _ _ => True

/-- The values that the operations of a list carry are canonical. -/
def CanonicalAll : List PatchOp → Prop
  | [] => True
  | op :: rest => op.Canonical ∧ CanonicalAll rest

end

theorem canonicalAll_iff {ops : List PatchOp} : CanonicalAll ops ↔ ∀ op ∈ ops, op.Canonical := by
  induction ops with
  | nil => simp [CanonicalAll]
  | cons op rest ih => rw [CanonicalAll, ih, List.forall_mem_cons]

theorem CanonicalAll.take {ops : List PatchOp} (h : CanonicalAll ops) (n : Nat) :
    CanonicalAll (ops.take n) :=
  canonicalAll_iff.mpr fun op hop => canonicalAll_iff.mp h op (List.mem_of_mem_take hop)

/-! ## Reading and writing -/

mutual

/-- An operation that is read from a canonical value carries canonical values. -/
theorem canonical_of_ofJson (op : PatchOp) {v : Json} (hv : v.Canonical) (h : ofJson v = .ok op) :
    op.Canonical := by
  cases v with
  | obj members =>
    obtain ⟨-, -, hdetails⟩ := details_of_ofJson h
    cases op with
    | add _ value | replace _ value | init _ value | merge _ value => exact hv.get? hdetails
    | test path expected negate =>
      intro value hvalue
      exact hv.get? (hdetails.1.trans hvalue)
    | patch path ops conditional =>
      obtain ⟨-, items, hitems, hops⟩ := hdetails
      have hcanonical : (Json.arr items).Canonical := hv.get? hitems
      exact canonicalAll_of_ofJsonAll ops (Json.canonical_arr.mp hcanonical) hops
    | _ => trivial
  | _ => simp [ofJson] at h

theorem canonicalAll_of_ofJsonAll (ops : List PatchOp) {items : List Json}
    (hitems : ∀ v ∈ items, v.Canonical) (h : ofJsonAll items = .ok ops) : CanonicalAll ops := by
  cases items with
  | nil =>
    rw [ofJsonAll] at h
    cases h
    trivial
  | cons v rest =>
    obtain ⟨hv, hrest⟩ := List.forall_mem_cons.mp hitems
    rw [ofJsonAll] at h
    obtain ⟨op, hop, h⟩ := exists_of_bind_eq_ok h
    obtain ⟨ops', hops, h⟩ := exists_of_bind_eq_ok h
    cases h
    exact ⟨canonical_of_ofJson op hv hop, canonicalAll_of_ofJsonAll ops' hrest hops⟩

end

mutual

/-- The JSON form of an operation with canonical values is canonical. -/
theorem canonical_toJson (op : PatchOp) (h : op.Canonical) : op.toJson.Canonical := by
  cases op with
  | add path value | replace path value | init path value | merge path value =>
    have hvalue : value.Canonical := h
    exact Json.canonical_ofPairs (by simp [Json.Canonical, hvalue])
  | test path expected negate =>
    refine Json.canonical_ofPairs ?_
    cases expected with
    | present => cases negate <;> simp [Json.Canonical]
    | equals value =>
      have hvalue : value.Canonical := h value rfl
      cases negate <;> simp [Json.Canonical, hvalue]
  | patch path ops conditional =>
    have hops : Json.CanonicalItems (toJsonAll ops) :=
      Json.canonicalItems_iff.mpr (canonical_toJsonAll ops h)
    refine Json.canonical_ofPairs ?_
    cases conditional <;> simp [Json.Canonical, hops]
  | inc path amount => cases amount <;> exact Json.canonical_ofPairs (by simp [Json.Canonical])
  | _ => exact Json.canonical_ofPairs (by simp [Json.Canonical])

theorem canonical_toJsonAll (ops : List PatchOp) (h : CanonicalAll ops) :
    ∀ v ∈ toJsonAll ops, v.Canonical := by
  cases ops with
  | nil => exact List.forall_mem_nil _
  | cons op rest =>
    rw [toJsonAll]
    exact List.forall_mem_cons.mpr ⟨canonical_toJson op h.1, canonical_toJsonAll rest h.2⟩

end

/-! ## Running -/

variable {v w : Json}

theorem canonical_of_addAt {path : String} {value : Json} (hv : v.Canonical)
    (hvalue : value.Canonical) (h : addAt path value v = .ok w) : w.Canonical := by
  obtain ⟨tokens, -, h⟩ := exists_of_bind_eq_ok h
  exact hv.insertAt hvalue (mapError_eq_ok_iff.mp h)

theorem canonical_of_increment {path : String} {amount : Number}
    (h : increment path amount v = .ok w) : w.Canonical := by
  unfold increment at h
  split at h
  next =>
    split at h
    next =>
      cases h
      trivial
    next => cases h
  next => cases h

/-- An operation without operations of its own leaves a canonical value. -/
theorem canonical_of_runLeaf {op : PatchOp} (hop : op.Canonical) (hv : v.Canonical)
    (h : op.runLeaf v = .ok w) :
    w.Canonical := by
  cases op with
  | add path value => exact canonical_of_addAt hv hop h
  | remove path =>
    obtain ⟨tokens, -, h⟩ := exists_of_bind_eq_ok h
    obtain ⟨⟨removed, rest⟩, hremoved, h⟩ := exists_of_bind_eq_ok h
    cases h
    exact (hv.removeAt (mapError_eq_ok_iff.mp hremoved)).2
  | replace path value =>
    obtain ⟨tokens, -, h⟩ := exists_of_bind_eq_ok h
    refine hv.alterAt (fun _ hstep => ?_) h
    cases hstep
    exact hop
  | move source path =>
    rw [runLeaf] at h
    split at h
    next =>
      cases h
      exact hv
    next =>
      split at h
      next => cases h
      next =>
        obtain ⟨tokens, -, h⟩ := exists_of_bind_eq_ok h
        obtain ⟨⟨removed, rest⟩, hremoved, h⟩ := exists_of_bind_eq_ok h
        obtain ⟨hremoved, hrest⟩ := hv.removeAt (mapError_eq_ok_iff.mp hremoved)
        exact canonical_of_addAt hrest hremoved h
  | copy source path =>
    obtain ⟨tokens, -, h⟩ := exists_of_bind_eq_ok h
    obtain ⟨value, hvalue, h⟩ := exists_of_bind_eq_ok h
    exact canonical_of_addAt hv (hv.at? (valueAt_eq_ok_iff.mp hvalue)) h
  | inc path amount =>
    obtain ⟨tokens, -, h⟩ := exists_of_bind_eq_ok h
    exact hv.alterAt (fun _ hstep => canonical_of_increment hstep) h
  | init path value =>
    obtain ⟨tokens, -, h⟩ := exists_of_bind_eq_ok h
    split at h
    next =>
      cases h
      exact hv
    next => exact hv.insertAt hop (mapError_eq_ok_iff.mp h)
  | merge path value =>
    obtain ⟨tokens, -, h⟩ := exists_of_bind_eq_ok h
    split at h
    next =>
      refine hv.alterAt (fun hold hstep => ?_) h
      cases hstep
      exact hold.merge value hop
    next =>
      have hnull : Json.null.Canonical := trivial
      exact hv.insertAt (hnull.merge value hop) (mapError_eq_ok_iff.mp h)
  | test path expected negate =>
    obtain ⟨tokens, -, h⟩ := exists_of_bind_eq_ok h
    dsimp only at h
    split at h
    next =>
      cases h
      exact hv
    next => cases h
  | patch path ops conditional =>
    cases h
    exact hv

mutual

/-- An operation leaves a canonical value, if it succeeds. -/
theorem canonical_of_run (op : PatchOp) (hop : op.Canonical) {v w : Json} (hv : v.Canonical)
    (h : op.run v = .ok w) :
    w.Canonical := by
  cases op with
  | patch path ops conditional =>
    rw [run] at h
    split at h
    next => cases h
    next tokens _ =>
      split at h
      next => cases h
      next scope hscope =>
        split at h
        next scope' hrun =>
          have hscope' : scope'.Canonical := canonical_of_runAll ops hop (hv.at? hscope) hrun
          refine hv.alterAt (fun _ hstep => ?_) h
          cases hstep
          exact hscope'
        next =>
          split at h
          next =>
            cases h
            exact hv
          next => cases h
  | _ =>
    rw [run_eq_runLeaf (by simp)] at h
    exact canonical_of_runLeaf hop hv (mapError_eq_ok_iff.mp h)

theorem canonical_of_runAll {n : Nat} (ops : List PatchOp) (hops : CanonicalAll ops) {v w : Json}
    (hv : v.Canonical) (h : runAll n ops v = .ok w) : w.Canonical := by
  cases ops with
  | nil =>
    rw [runAll_nil] at h
    cases h
    exact hv
  | cons op rest =>
    rw [runAll] at h
    split at h
    next v' hrun => exact canonical_of_runAll rest hops.2 (canonical_of_run op hops.1 hv hrun) h
    next => cases h

end

end PatchOp

namespace PatchDocument

variable {doc : PatchDocument} {v w scope : Json}

/-- A document that is read from a body carries canonical values. -/
theorem canonical_of_ofBytes {body : ByteArray} (h : PatchDocument.ofBytes body = .ok doc) :
    PatchOp.CanonicalAll doc := by
  unfold PatchDocument.ofBytes at h
  split at h
  next => cases h
  next value hvalue =>
    have hcanonical := (Json.within_of_ofBytes? hvalue).canonical
    have hdoc := mapError_eq_ok_iff.mp h
    cases value with
    | arr items =>
      exact PatchOp.canonicalAll_of_ofJsonAll doc (Json.canonical_arr.mp hcanonical) hdoc
    | _ => cases hdoc

/-- What a document makes of a canonical value is canonical. -/
theorem canonical_of_apply (hdoc : PatchOp.CanonicalAll doc) (hv : v.Canonical)
    (h : apply doc v = .ok w) : w.Canonical :=
  PatchOp.canonical_of_runAll doc hdoc hv (apply_eq_ok_iff.mp h)

/-- Every operation comes up on a canonical value. -/
theorem Reaches.canonical {address : List Nat} {op : PatchOp} (h : Reaches doc v address op scope)
    (hdoc : PatchOp.CanonicalAll doc) (hv : v.Canonical) : scope.Canonical := by
  induction h with
  | here before found => exact canonical_of_apply (hdoc.take _) hv before
  | nested before found resolves below ih =>
    have houter := canonical_of_apply (hdoc.take _) hv before
    obtain ⟨tokens, -, hat⟩ := PatchOp.target?_eq_some_iff.mp resolves
    exact ih (PatchOp.canonicalAll_iff.mp hdoc _ (List.mem_of_getElem? found)) (houter.at? hat)

/-- What a report says of a canonical value is canonical. -/
theorem canonical_of_failure {f : PatchFailure} (hdoc : PatchOp.CanonicalAll doc) (hv : v.Canonical)
    (h : apply doc v = .error f) :
    f.op.toJson.Canonical ∧ ∀ found, f.actual = some found → found.Canonical := by
  constructor
  · obtain ⟨-, -, hop, -⟩ := apply_eq_error_iff.mp h
    exact PatchOp.canonical_toJson f.op
      (PatchOp.canonicalAll_iff.mp hdoc _ (List.mem_of_getElem? hop))
  · intro found hfound
    obtain ⟨cause, scope, -, hreaches, hfails, hactual, -⟩ := fault_of_apply_error h
    rw [hactual] at hfound
    -- only a failed test has found something, and that in the value that it came up on
    have hassertion : cause.isAssertion = true := by
      cases cause with
      | testFailed => rfl
      | _ => cases hfound
    obtain ⟨htest, -⟩ := (isAssertion_iff_of_run_error hfails).mp hassertion
    cases hop : f.failingOp with
    | test path expected negate =>
      rw [hop] at hfails
      rw [actual_of_test_error hfails] at hfound
      obtain ⟨tokens, -, hat⟩ := PatchOp.target?_eq_some_iff.mp hfound
      exact (hreaches.canonical hdoc hv).at? hat
    | _ =>
      rw [hop] at htest
      cases htest

end PatchDocument

end ItemStore
