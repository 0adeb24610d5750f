import ItemStore.Proofs.Patch.Address

/-!
# Changing a document at one level

Two documents that differ in the operations of one nested patch only come to the same end if those
operations do, when they are run on the value that the patch hands them. This module states and
proves that congruence once; what a particular change does at its level is the business of its user.

## Architecture

- `PatchDocument.editAt` changes the list of operations at a level, and `PatchDocument.Enters` says
  on which value that list is run.
- `PatchDocument.SameRun` compares two runs that may fail at different addresses: `place` translates
  an address in the second document into one in the first.
- `PatchDocument.Enters.sameRun` lifts a comparison at a level to the whole documents.
-/

namespace ItemStore

namespace PatchDocument

/-! ## Levels -/

/-- Changes the operations at a level, given by the positions of the nested patches that lead to
it. -/
def editAt (change : PatchDocument → PatchDocument) : List Nat → PatchDocument → PatchDocument
  | [], doc => change doc
  | i :: level, doc =>
    match doc[i]? with
    | some (.patch path ops conditional) =>
      doc.set i (.patch path (editAt change level ops) conditional)
    | _ => doc

/-- The operations `ops` make up a level, and are run on the value `scope` when the document is
applied to `v`. -/
inductive Enters : PatchDocument → Json → List Nat → PatchDocument → Json → Prop where
  /-- The document itself is run on the whole value. -/
  | top {doc : PatchDocument} {v : Json} : Enters doc v [] doc v
  /-- The operations of a nested patch are run on the value at its path, once the operations before
  it have run. -/
  | nested {doc : PatchDocument} {v outer inner scope : Json} {i : Nat} {path : String}
      {ops ops' : PatchDocument} {conditional : Bool} {level : List Nat}
      (before : apply (doc.take i) v = .ok outer)
      (found : doc[i]? = some (.patch path ops conditional))
      (resolves : PatchOp.target? path outer = some inner)
      (below : Enters ops inner level ops' scope) :
      Enters doc v (i :: level) ops' scope

/-- A reached operation belongs to a level that is entered, and the operations before it at that
level succeed. -/
theorem Reaches.enters {doc : PatchDocument} {v scope : Json} {level : List Nat} {i : Nat}
    {op : PatchOp} (h : Reaches doc v (level ++ [i]) op scope) :
    ∃ ops outer, Enters doc v level ops outer ∧ apply (ops.take i) outer = .ok scope ∧
    ops[i]? = some op := by
  induction level generalizing doc v with
  | nil =>
    cases h with
    | here before found => exact ⟨doc, v, .top, before, found⟩
    | nested _ _ _ below => exact absurd rfl below.ne_nil
  | cons j level ih =>
    rw [List.cons_append] at h
    generalize haddress : level ++ [i] = address at h
    cases h with
    | here _ _ => simp at haddress
    | nested before found resolves below =>
      subst haddress
      obtain ⟨ops, outer, henters, hbefore, hfound⟩ := ih below
      exact ⟨ops, outer, .nested before found resolves henters, hbefore, hfound⟩

/-! ## Comparing runs -/

/-- Translates addresses below a level, and leaves all others as they are. -/
def under (place : List Nat → List Nat) : List Nat → List Nat → List Nat
  | [], address => place address
  | i :: level, j :: address => if i = j then j :: under place level address else j :: address
  | _ :: _, [] => []

theorem under_under (place place' : List Nat → List Nat) (level address : List Nat) :
    under place level (under place' level address) = under (place ∘ place') level address := by
  induction level generalizing address with
  | nil => rfl
  | cons i level ih =>
    cases address with
    | nil => rfl
    | cons j address => by_cases hij : i = j <;> simp [under, hij, ih]

/-- Two runs come to the same end: the same value, or failures of related operations for related
causes. The address of the failure in the first document is the translation of the one in the
second. -/
inductive SameRun (place : List Nat → List Nat)
    (Same : PatchOp → Obstacle → PatchOp → Obstacle → Prop) (doc doc' : PatchDocument) :
    Except Fault Json → Except Fault Json → Prop where
  | ok (w : Json) : SameRun place Same doc doc' (.ok w) (.ok w)
  | error {address address' : List Nat} {op op' : PatchOp} {cause cause' : Obstacle}
      (translated : address = place address') (found : doc.at? address = some op)
      (found' : doc'.at? address' = some op') (same : Same op cause op' cause') :
      SameRun place Same doc doc' (.error ⟨address, cause⟩) (.error ⟨address', cause'⟩)

/-- An operation that comes up at a level splits the run there in three: what is before it, itself,
and what is left. -/
theorem runAll_of_before {doc : PatchDocument} {v outer : Json} {i : Nat} {op : PatchOp}
    (before : apply (doc.take i) v = .ok outer) (found : doc[i]? = some op) :
    PatchOp.runAll 0 doc v = match op.run outer with
      | .ok v' => PatchOp.runAll (i + 1) (doc.drop (i + 1)) v'
      | .error fault => .error ⟨i :: fault.address, fault.cause⟩ := by
  obtain ⟨hi, rfl⟩ := List.getElem?_eq_some_iff.mp found
  have hsplit : doc = doc.take i ++ doc[i] :: doc.drop (i + 1) := by simp
  -- the right side is about the same list and stays as it is
  conv => lhs; rw [hsplit]
  rw [PatchOp.runAll_append, apply_eq_ok_iff.mp before]
  have hlength : (doc.take i).length = i := List.length_take_of_le (Nat.le_of_lt hi)
  cases hrun : doc[i].run outer <;> simp only [PatchOp.runAll_cons, hlength, Nat.zero_add, hrun]

/-- The same run with another operation at that position. -/
theorem runAll_set {doc : PatchDocument} {v outer : Json} {i : Nat} {op : PatchOp}
    (before : apply (doc.take i) v = .ok outer) (found : doc[i]? = some op) (op' : PatchOp) :
    PatchOp.runAll 0 (doc.set i op') v = match op'.run outer with
      | .ok v' => PatchOp.runAll (i + 1) (doc.drop (i + 1)) v'
      | .error fault => .error ⟨i :: fault.address, fault.cause⟩ := by
  obtain ⟨hi, -⟩ := List.getElem?_eq_some_iff.mp found
  have before' : apply ((doc.set i op').take i) v = .ok outer := by
    rw [List.take_set_of_le (Nat.le_refl i)]
    exact before
  rw [runAll_of_before before' (List.getElem?_set_self hi),
    List.drop_set_of_lt (Nat.lt_succ_self i)]

/-- The operation at an address below a nested patch is found among the patch's own. -/
theorem at?_nested {doc ops : PatchDocument} {i : Nat} {path : String} {conditional : Bool}
    {address : List Nat} {op : PatchOp} (found : doc[i]? = some (.patch path ops conditional))
    (below : ops.at? address = some op) :
    doc.at? (i :: address) = some op := by
  cases address with
  | nil => simp [PatchDocument.at?] at below
  | cons j address => simpa [PatchDocument.at?, found, PatchOp.at?] using below

/-- The address in an operation's failure leads to an operation inside it. -/
theorem at?_of_run_error {op : PatchOp} {v : Json} {fault : Fault} (h : op.run v = .error fault) :
    ∃ inner, op.at? fault.address = some inner := by
  -- an operation alone is a document, in which the address has one position more
  have hrun : PatchOp.runAll 0 [op] v = .error ⟨0 :: fault.address, fault.cause⟩ := by
    simp [PatchOp.runAll_cons, h]
  obtain ⟨inner, _, _, hreaches, -⟩ :=
    reaches_of_runAll_error hrun (List.cons_ne_nil _ _) List.prefix_rfl
  exact ⟨inner, hreaches.at?⟩

/-- So does the address in the failure of a document. -/
theorem exists_at?_of_runAll_error {doc : PatchDocument} {v : Json} {address : List Nat}
    {cause : Obstacle} (h : PatchOp.runAll 0 doc v = .error ⟨address, cause⟩) :
    ∃ op, doc.at? address = some op := by
  have hne : address ≠ [] := by
    obtain ⟨i, op, scope, below, -, -, -, hfault⟩ := PatchOp.runAll_eq_error_iff.mp h
    cases hfault
    exact List.cons_ne_nil _ _
  obtain ⟨op, _, _, hreaches, -⟩ := reaches_of_runAll_error h hne List.prefix_rfl
  exact ⟨op, hreaches.at?⟩

section Lifting

variable {place : List Nat → List Nat} {Same : PatchOp → Obstacle → PatchOp → Obstacle → Prop}

/-- What is run behind the changed position is not affected by the change. -/
private theorem sameRun_rest (hrefl : ∀ op cause, Same op cause op cause)
    (doc : PatchDocument) (i : Nat) (op' : PatchOp) (level : List Nat) (v : Json) :
    SameRun (under place (i :: level)) Same doc (doc.set i op')
      (PatchOp.runAll (i + 1) (doc.drop (i + 1)) v)
        (PatchOp.runAll (i + 1) (doc.drop (i + 1)) v) := by
  cases hrun : PatchOp.runAll (i + 1) (doc.drop (i + 1)) v with
  | ok w => exact .ok w
  | error fault =>
    obtain ⟨j, op, scope, below, hfound, -, hfails, rfl⟩ := PatchOp.runAll_eq_error_iff.mp hrun
    obtain ⟨inner, hinner⟩ := at?_of_run_error hfails
    -- the failure is behind the changed position, so its address is not translated
    have hne : i ≠ i + 1 + j := by omega
    have hfound : doc[i + 1 + j]? = some op := by simpa using hfound
    have hfound' : (doc.set i op')[i + 1 + j]? = some op := by rw [List.getElem?_set_ne hne, hfound]
    refine .error ?_ ?_ ?_ (hrefl inner below.cause)
    · simp [under, hne]
    · simp [PatchDocument.at?, hfound, hinner]
    · simp [PatchDocument.at?, hfound', hinner]

/-- What is run behind a changed part of a level runs as before, whatever the lengths of the two
parts are. -/
theorem sameRun_append (hrefl : ∀ op cause, Same op cause op cause)
    {before before' rest : PatchDocument}
    (hplace : ∀ j address, place ((before'.length + j) :: address) = (before.length + j) :: address)
    (v : Json) :
    SameRun place Same (before ++ rest) (before' ++ rest) (PatchOp.runAll before.length rest v)
      (PatchOp.runAll before'.length rest v) := by
  cases hrun : PatchOp.runAll before.length rest v with
  | ok w =>
    rw [PatchOp.runAll_ok_of_ok before'.length hrun]
    exact .ok w
  | error fault =>
    obtain ⟨j, op, scope, below, hfound, hbefore, hfails, rfl⟩ :=
      PatchOp.runAll_eq_error_iff.mp hrun
    obtain ⟨inner, hinner⟩ := at?_of_run_error hfails
    -- the same operation fails, counted from another start
    rw [PatchOp.runAll_eq_error_iff.mpr
      ⟨j, op, scope, below, hfound, PatchOp.runAll_ok_of_ok before'.length hbefore, hfails, rfl⟩]
    have hat (front : PatchDocument) :
        PatchDocument.at? (front ++ rest) ((front.length + j) :: below.address) = some inner := by
      simp [PatchDocument.at?, List.getElem?_append_right, hfound, hinner]
    exact .error (hplace j below.address).symm (hat before) (hat before') (hrefl inner below.cause)

/-- **Congruence of application**: if a change of the operations at an entered level keeps the end
of their run, up to a translation of addresses and related failures, then it keeps the end of the
whole run in that sense. Related causes must agree on being assertions, since the conditional
patches around the level absorb those. -/
theorem Enters.sameRun {doc : PatchDocument} {v outer : Json} {level : List Nat}
    {ops : PatchDocument} (h : Enters doc v level ops outer)
    (change : PatchDocument → PatchDocument) (hrefl : ∀ op cause, Same op cause op cause)
    (hflag : ∀ op cause op' cause', Same op cause op' cause' →
      cause.isAssertion = cause'.isAssertion)
    (hsame : SameRun place Same ops (change ops) (PatchOp.runAll 0 ops outer)
      (PatchOp.runAll 0 (change ops) outer)) :
    SameRun (under place level) Same doc (editAt change level doc) (PatchOp.runAll 0 doc v)
      (PatchOp.runAll 0 (editAt change level doc) v) := by
  induction h with
  | top => exact hsame
  | @nested doc v outer inner scope i path ops ops' conditional level before found
      resolves below ih =>
    have hedit : editAt change (i :: level) doc =
        doc.set i (.patch path (editAt change level ops) conditional) := by simp [editAt, found]
    obtain ⟨hi, -⟩ := List.getElem?_eq_some_iff.mp found
    have found' : (doc.set i (.patch path (editAt change level ops) conditional))[i]? =
        some (.patch path (editAt change level ops) conditional) := List.getElem?_set_self hi
    obtain ⟨tokens, htokens, hat⟩ := PatchOp.target?_eq_some_iff.mp resolves
    rw [hedit, runAll_of_before before found, runAll_set before found,
      PatchOp.run_patch_of_at? htokens hat, PatchOp.run_patch_of_at? htokens hat]
    have hinner := ih hsame
    generalize PatchOp.runAll 0 ops inner = run at hinner
    generalize PatchOp.runAll 0 (editAt change level ops) inner = run' at hinner
    cases hinner with
    | ok w => exact sameRun_rest hrefl doc i _ level _
    | @error address address' op op' cause cause' translated hfound hfound' same =>
      -- either both failures are absorbed here, or both are passed on
      simp only [hflag _ _ _ _ same]
      cases conditional && cause'.isAssertion with
      | true => exact sameRun_rest hrefl doc i _ level _
      | false =>
        refine .error ?_ (at?_nested found hfound) (at?_nested found' hfound') same
        simp [under, translated]

end Lifting

end PatchDocument

end ItemStore
