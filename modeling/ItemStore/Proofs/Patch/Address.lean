import ItemStore.Proofs.Patch.Run

/-!
# Addresses of failures

A failed application reports the positions that lead from the top of the document down to one
operation. This module says what such an address means: at each of its levels the operations before
the addressed one have succeeded in the scope of that level, and the addressed one fails on what
they left.

## Architecture

- **Reachability**: `PatchDocument.Reaches` relates a document and a value to the operations that
  come up for execution, each with the value that it comes up on. It mentions runs that succeed and
  lookups, and no failures.
- **Faults**: `PatchDocument.reaches_of_runAll_error` follows the address of a fault through the
  levels, and `PatchDocument.Reaches.runAll_error` is the way back for failures that no conditional
  patch absorbs.
- **Reports**: `PatchDocument.failure_at_every_level` puts this in terms of the report that
  `PatchDocument.apply` hands out.
-/

namespace ItemStore

namespace PatchOp

/-- A descent that consumes the whole list of positions ends where the strict one does. -/
theorem descend_of_at? {op inner : PatchOp} {address : List Nat} (h : op.at? address = some inner) :
    op.descend address = inner := by
  induction address generalizing op with
  | nil => simpa [at?, descend] using h
  | cons i rest ih =>
    cases op with
    | patch path ops conditional =>
      simp only [at?, Option.bind_eq_some_iff] at h
      obtain ⟨next, hnext, hrest⟩ := h
      simp only [descend, hnext]
      exact ih hrest
    | _ => simp [at?] at h

end PatchOp

namespace PatchDocument

/-! ## Reachability -/

/-- The operation at an address comes up for execution on the value `scope` when the document is
applied to `v`. -/
inductive Reaches : PatchDocument → Json → List Nat → PatchOp → Json → Prop where
  /-- An operation of the document itself comes up on what the operations before it leave. -/
  | here {doc : PatchDocument} {v scope : Json} {i : Nat} {op : PatchOp}
      (before : apply (doc.take i) v = .ok scope) (found : doc[i]? = some op) :
      Reaches doc v [i] op scope
  /-- An operation of a nested patch comes up inside the value at the patch's path, once the
  operations before the patch have run. -/
  | nested {doc : PatchDocument} {v outer inner scope : Json} {i : Nat} {path : String}
      {ops : PatchDocument} {conditional : Bool} {address : List Nat} {op : PatchOp}
      (before : apply (doc.take i) v = .ok outer)
      (found : doc[i]? = some (.patch path ops conditional))
      (resolves : PatchOp.target? path outer = some inner)
      (below : Reaches ops inner address op scope) :
      Reaches doc v (i :: address) op scope

/-- Reports are made of faults after the run, so success does not depend on them. -/
theorem apply_eq_ok_iff {doc : PatchDocument} {v w : Json} :
    apply doc v = .ok w ↔ PatchOp.runAll 0 doc v = .ok w := by
  unfold apply
  cases PatchOp.runAll 0 doc v <;> simp

/-- A reached operation stands in the document at its address. -/
theorem Reaches.at? {doc : PatchDocument} {v scope : Json} {address : List Nat} {op : PatchOp}
    (h : Reaches doc v address op scope) : doc.at? address = some op := by
  induction h with
  | here before found => simp [PatchDocument.at?, found, PatchOp.at?]
  | @nested doc v outer inner scope i path ops conditional address op before found
      resolves below ih =>
    simp only [PatchDocument.at?, found, Option.bind_some]
    cases below with
    | here _ found' => simp [PatchOp.at?, found']
    | nested _ found' _ _ =>
      simp only [PatchDocument.at?, found', Option.bind_some] at ih
      simp only [PatchOp.at?, found', Option.bind_some]
      exact ih

/-- An address is never empty. -/
theorem Reaches.ne_nil {doc : PatchDocument} {v scope : Json} {address : List Nat} {op : PatchOp}
    (h : Reaches doc v address op scope) : address ≠ [] := by
  cases h <;> simp

/-- The address determines the operation and the value that it comes up on. -/
theorem Reaches.unique {doc : PatchDocument} {v scope scope' : Json} {address : List Nat}
    {op op' : PatchOp} (h : Reaches doc v address op scope)
    (h' : Reaches doc v address op' scope') : op = op' ∧ scope = scope' := by
  induction h with
  | here before found =>
    cases h' with
    | here before' found' =>
      rw [found] at found'
      rw [before] at before'
      exact ⟨Option.some.inj found', Except.ok.inj before'⟩
    -- one position alone does not lead into a nested patch
    | nested _ _ _ below' => exact absurd rfl below'.ne_nil
  | nested before found resolves below ih =>
    cases h' with
    | here _ _ => exact absurd rfl below.ne_nil
    | nested before' found' resolves' below' =>
      rw [found] at found'
      rw [before] at before'
      obtain rfl := Except.ok.inj before'
      obtain ⟨rfl, rfl, rfl⟩ := PatchOp.patch.inj (Option.some.inj found')
      rw [resolves] at resolves'
      obtain rfl := Option.some.inj resolves'
      exact ih below'

/-- What the operations of a reached patch reach is reached in the whole document. -/
theorem Reaches.trans {doc ops : PatchDocument} {v scope inner deepest : Json}
    {address below : List Nat} {path : String} {conditional : Bool} {op : PatchOp}
    (h : Reaches doc v address (.patch path ops conditional) scope)
    (resolves : PatchOp.target? path scope = some inner) (h' : Reaches ops inner below op deepest) :
    Reaches doc v (address ++ below) op deepest := by
  -- the induction is on the way to the patch, so the patch must not be fixed
  generalize hpatch : PatchOp.patch path ops conditional = patch at h
  induction h with
  | here before found =>
    subst hpatch
    exact .nested before found resolves h'
  | nested before found resolves' _ ih => exact .nested before found resolves' (ih resolves hpatch)

/-! ## Faults -/

/-- An operation whose failure has an address of its own is a nested patch that passes on the
failure of its operations. -/
theorem patch_of_run_error {op : PatchOp} {v : Json} {i : Nat} {rest : List Nat} {cause : Obstacle}
    (h : op.run v = .error ⟨i :: rest, cause⟩) :
    ∃ path ops conditional inner, op = .patch path ops conditional ∧
    PatchOp.target? path v = some inner ∧
      PatchOp.runAll 0 ops inner = .error ⟨i :: rest, cause⟩ ∧
      (conditional && cause.isAssertion) = false := by
  by_cases hop : ∃ path ops conditional, op = .patch path ops conditional
  · obtain ⟨path, ops, conditional, rfl⟩ := hop
    rcases PatchOp.run_patch_eq_error_iff.mp h with ⟨-, hfault⟩ | ⟨inner, htarget, hrun, hpassed⟩
    · cases hfault
    · exact ⟨path, ops, conditional, inner, rfl, htarget, hrun, hpassed⟩
  -- all other operations fail where they stand
  · rw [PatchOp.run_eq_runLeaf (by simpa using hop)] at h
    cases hleaf : op.runLeaf v <;> rw [hleaf] at h <;> cases h

/-- **Every level of a fault's address is a failure of its own**: the operation there is reached,
and fails with what is left of the address and with the same cause. -/
theorem reaches_of_runAll_error {address : List Nat} {doc : PatchDocument} {v : Json}
    {cause : Obstacle} (h : PatchOp.runAll 0 doc v = .error ⟨address, cause⟩) {level : List Nat}
    (hlevel : level ≠ []) (hinitial : level <+: address) :
    ∃ op scope below, Reaches doc v level op scope ∧ op.run scope = .error ⟨below, cause⟩ ∧
      level ++ below = address := by
  -- on the address, since each nested patch takes one position off it
  induction address generalizing doc v level with
  | nil => exact absurd (List.prefix_nil.mp hinitial) hlevel
  | cons i rest ih =>
    obtain ⟨j, op, scope, below, hfound, hbefore, hrun, hfault⟩ := PatchOp.runAll_eq_error_iff.mp h
    obtain ⟨⟨rfl, rfl⟩, rfl⟩ : (i = 0 + j ∧ rest = below.address) ∧ cause = below.cause := by
      simpa using hfault
    rw [Nat.zero_add] at hinitial ⊢
    obtain ⟨k, level, rfl⟩ := List.exists_cons_of_ne_nil hlevel
    obtain ⟨rfl, htail⟩ := List.cons_prefix_cons.mp hinitial
    have hbefore' : apply (doc.take k) v = .ok scope := apply_eq_ok_iff.mpr hbefore
    cases level with
    | nil => exact ⟨op, scope, below.address, .here hbefore' hfound, hrun, rfl⟩
    | cons l level =>
      -- the address goes on, so the operation is a nested patch
      cases hbelow : below.address with
      | nil => rw [hbelow] at htail; simp at htail
      | cons b below' =>
        have hrun' : op.run scope = .error ⟨b :: below', below.cause⟩ := by rw [hrun, ← hbelow]
        obtain ⟨path, ops, conditional, inner, rfl, htarget, hinner, -⟩ := patch_of_run_error hrun'
        rw [← hbelow] at hinner
        obtain ⟨op', scope', below'', hreaches, hrun'', happend⟩ :=
          ih hinner (List.cons_ne_nil l level) htail
        exact ⟨op', scope', below'', .nested hbefore' hfound htarget hreaches,
          hrun'', by rw [← hbelow, ← happend]; rfl⟩

/-- The way back: a reached operation that fails other than as an assertion stops the whole
document, whatever conditional patches lie around it. -/
theorem Reaches.runAll_error {doc : PatchDocument} {v scope : Json} {address below : List Nat}
    {op : PatchOp} {cause : Obstacle} (h : Reaches doc v address op scope)
    (hrun : op.run scope = .error ⟨below, cause⟩) (hcause : cause.isAssertion = false) :
    PatchOp.runAll 0 doc v = .error ⟨address ++ below, cause⟩ := by
  induction h with
  | @here doc v scope i op before found =>
    refine PatchOp.runAll_eq_error_iff.mpr
      ⟨i, op, scope, _, found, apply_eq_ok_iff.mp before, hrun, ?_⟩
    simp
  | @nested doc v outer inner scope i path ops conditional address op before found
      resolves below ih =>
    -- the patch passes the failure on, conditional or not
    have hpatch : (PatchOp.patch path ops conditional).run outer = .error ⟨address ++ _, cause⟩ :=
      PatchOp.run_patch_eq_error_iff.mpr (.inr ⟨inner, resolves, ih hrun, by simp [hcause]⟩)
    refine PatchOp.runAll_eq_error_iff.mpr
      ⟨i, _, outer, _, found, apply_eq_ok_iff.mp before, hpatch, ?_⟩
    simp

/-! ## Reports -/

/-- The report of a failed application has the address and the cause of the fault, and the operation
at its head. -/
theorem apply_eq_error_iff {doc : PatchDocument} {v : Json} {f : PatchFailure} :
    apply doc v = .error f ↔
      ∃ cause, PatchOp.runAll 0 doc v = .error ⟨f.address, cause⟩ ∧ doc[f.opIndex]? = some f.op ∧
        f.actual = cause.actual ∧ f.info = cause.message := by
  constructor
  · intro h
    unfold apply at h
    cases hrun : PatchOp.runAll 0 doc v with
    | ok w => rw [hrun] at h; cases h
    | error fault =>
      rw [hrun] at h
      obtain rfl : failureOf doc fault = f := Except.error.inj h
      obtain ⟨i, op, scope, below, hfound, -, -, rfl⟩ := PatchOp.runAll_eq_error_iff.mp hrun
      refine ⟨below.cause, ?_, ?_, rfl, rfl⟩
      · simp [failureOf, PatchFailure.address]
      · simp [failureOf, hfound]
  · rintro ⟨cause, hrun, hop, hactual, hinfo⟩
    unfold apply
    rw [hrun]
    obtain ⟨opIndex, op, nestedPath, actual, info⟩ := f
    simp_all [failureOf, PatchFailure.address]

/-- A report's address leads to an operation of the document, and the descent to it consumes the
whole address. -/
theorem at?_address {doc : PatchDocument} {v : Json} {f : PatchFailure}
    (h : apply doc v = .error f) :
    doc.at? f.address = some f.failingOp := by
  obtain ⟨cause, hrun, hop, -⟩ := apply_eq_error_iff.mp h
  obtain ⟨op, scope, below, hreaches, -⟩ :=
    reaches_of_runAll_error hrun (by simp [PatchFailure.address]) List.prefix_rfl
  -- the report finds its operation by descending, which gives the one that is there
  have hat := hreaches.at?
  rw [hat]
  simp only [PatchFailure.address, PatchDocument.at?, hop, Option.bind_some] at hat
  simp only [PatchFailure.failingOp, PatchOp.descend_of_at? hat]

/-- What a test finds when it fails is what its path addresses. A path that is no pointer addresses
nothing. -/
theorem actual_of_test_error {path : String} {expected : Expectation} {negate : Bool} {v : Json}
    {fault : Fault} (h : (PatchOp.test path expected negate).run v = .error fault) :
    fault.cause.actual = PatchOp.target? path v := by
  rcases PatchOp.run_test_eq_error_iff.mp h with ⟨hparse, rfl⟩ | ⟨-, -, rfl⟩
  · simp [Obstacle.actual, PatchOp.target?, hparse]
  · rfl

/-- **A failed application changes nothing, and its report addresses the operation that failed**, at
every level of nesting: the address leads through the document to the innermost operation; at each
level the addressed operation is reached, which says that those before it succeeded in order, and it
fails on what they left, with the rest of the address as its own; and if the innermost operation is
a test, the report holds exactly what its path addresses where it was reached. -/
theorem failure_at_every_level {doc : PatchDocument} {v : Json} {f : PatchFailure}
    (h : apply doc v = .error f) :
    doc.applyTo v = (v, some f) ∧
      doc[f.opIndex]? = some f.op ∧ doc.at? f.address = some f.failingOp ∧
      (∀ level, level ≠ [] → level <+: f.address →
        ∃ op scope fault, doc.at? level = some op ∧ doc.Reaches v level op scope ∧
        op.run scope = .error fault ∧
          level ++ fault.address = f.address) ∧
      ∃ scope, doc.Reaches v f.address f.failingOp scope ∧
        ∀ path expected negate, f.failingOp = .test path expected negate →
        f.actual = PatchOp.target? path scope := by
  obtain ⟨cause, hrun, hop, hactual, -⟩ := apply_eq_error_iff.mp h
  refine ⟨by simp [applyTo, h], hop, at?_address h, ?_, ?_⟩
  · intro level hlevel hinitial
    obtain ⟨op, scope, below, hreaches, hfails, happend⟩ :=
      reaches_of_runAll_error hrun hlevel hinitial
    exact ⟨op, scope, _, hreaches.at?, hreaches, hfails, happend⟩
  -- the innermost level is the whole address
  · have hne : f.address ≠ [] := List.cons_ne_nil _ _
    obtain ⟨op, scope, below, hreaches, hfails, -⟩ :=
      reaches_of_runAll_error hrun hne List.prefix_rfl
    obtain rfl : op = f.failingOp := Option.some.inj (hreaches.at?.symm.trans (at?_address h))
    refine ⟨scope, hreaches, ?_⟩
    intro path expected negate htest
    rw [htest] at hfails
    rw [hactual, ← actual_of_test_error hfails]

/-- The report of a test in a plain nested patch, behind a conditional one that was skipped. -/
theorem failure_behind_skipped_patch :
    let skipped : PatchOp := .patch "" [.inc "/b" none, .test "/b" (.equals (.ofNat 7)) false] true
    let doc : PatchDocument :=
      [.inc "/a" none, .patch "/in"
        [skipped, .inc "/b" none, .test "/b" (.equals (.ofNat 2)) false] false]
    let v : Json := .ofPairs [("a", .ofNat 0), ("in", .ofPairs [("b", .ofNat 0)])]
    let f := failureOf doc ⟨[1, 2], .testFailed "/b" (some (.ofNat 1))⟩
    apply doc v = .error f ∧ doc.applyTo v = (v, some f) ∧ doc.at? [1, 2] = some f.failingOp ∧
      (∃ op scope fault, doc.at? [1] = some op ∧ doc.Reaches v [1] op scope ∧
      op.run scope = .error fault ∧
        [1] ++ fault.address = [1, 2]) ∧
      ∃ scope, doc.Reaches v [1, 2] f.failingOp scope ∧ f.actual = PatchOp.target? "/b" scope := by
  intro skipped doc v f
  have h : apply doc v = .error f := rfl
  obtain ⟨hunchanged, -, hat, hlevels, scope, hreaches, hactual⟩ := failure_at_every_level h
  have hlevel := hlevels [1] (List.cons_ne_nil _ _) (List.prefix_append [1] [2])
  exact ⟨h, hunchanged, hat, hlevel, scope, hreaches, hactual "/b" (.equals (.ofNat 2)) false rfl⟩

end PatchDocument

end ItemStore
