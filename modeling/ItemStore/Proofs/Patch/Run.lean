import ItemStore.Patch.Apply
import ItemStore.Proofs.Except
import ItemStore.Proofs.Json.Place

/-!
# How runs of operations end

Later modules never unfold the evaluator. They use the inversions of this one, which say all that a
run can do:

- `PatchOp.runAll_append`: a run goes through the first part of a list and then through the rest;
- `PatchOp.runAll_eq_error_iff`: a run fails at the first operation that fails, and its address
  starts there;
- `PatchOp.run_patch_eq_error_iff`: a nested patch fails because its place is missing, or with the
  failure of its own operations unless it absorbs that;
- `PatchOp.run_test_eq_error_iff`: a test fails because its path is no pointer, or because it does
  not hold;
- `PatchOp.Assertionless.runLeaf`: no other operation fails as an assertion does.
-/

namespace ItemStore

namespace PatchOp

/-! ## Paths -/

theorem tokensOf_eq_ok_iff {path : String} {tokens : List String} :
    tokensOf path = .ok tokens ↔ Pointer.parse? path = some tokens := by
  unfold tokensOf
  cases Pointer.parse? path <;> simp

theorem valueAt_eq_ok_iff {path : String} {tokens : List String} {v c : Json} :
    valueAt path tokens v = .ok c ↔ v.at? tokens = some c := by
  unfold valueAt
  cases v.at? tokens <;> simp

/-- The value that a path addresses. A text that is no pointer addresses nothing. -/
def target? (path : String) (v : Json) : Option Json :=
  (Pointer.parse? path).bind v.at?

/-- A path that addresses a value is a pointer, and its tokens address that value. -/
theorem target?_eq_some_iff {path : String} {v c : Json} :
    target? path v = some c ↔ ∃ tokens, tokensOf path = .ok tokens ∧ v.at? tokens = some c := by
  unfold target? tokensOf
  cases Pointer.parse? path with
  | none => simp
  | some tokens => simp

/-! ## Runs of lists -/

@[simp]
theorem runAll_nil (n : Nat) (v : Json) : runAll n [] v = .ok v := by
  simp only [runAll]

/-- The first operation runs, and then the rest on what it leaves. -/
theorem runAll_cons (n : Nat) (op : PatchOp) (rest : List PatchOp) (v : Json) :
    runAll n (op :: rest) v = match op.run v with
      | .ok v' => runAll (n + 1) rest v'
      | .error fault => .error ⟨n :: fault.address, fault.cause⟩ := by
  cases hop : op.run v <;> simp only [runAll, hop]

/-- A run goes through the first part of a list and then through the rest. -/
theorem runAll_append (n : Nat) (before after : List PatchOp) (v : Json) :
    runAll n (before ++ after) v = match runAll n before v with
      | .ok v' => runAll (n + before.length) after v'
      | .error fault => .error fault := by
  induction before generalizing n v with
  | nil => simp
  | cons op before ih =>
    simp only [List.cons_append, runAll_cons, List.length_cons]
    cases op.run v with
    | error fault => rfl
    | ok v' => simp only [ih, Nat.add_comm before.length 1, Nat.add_assoc]

/-- A run fails at the first operation that fails. Its address is that operation's position, counted
from where the list starts, and the address of the failure inside the operation. -/
theorem runAll_eq_error_iff {n : Nat} {ops : List PatchOp} {v : Json} {fault : Fault} :
    runAll n ops v = .error fault ↔
      ∃ i op scope below, ops[i]? = some op ∧ runAll n (ops.take i) v = .ok scope ∧
      op.run scope = .error below ∧
        fault = ⟨(n + i) :: below.address, below.cause⟩ := by
  induction ops generalizing n v with
  | nil => simp
  | cons op ops ih =>
    rw [runAll_cons]
    constructor
    · intro h
      cases hop : op.run v with
      | error below =>
        rw [hop] at h
        injection h with h
        exact ⟨0, op, v, below, rfl, by simp, hop, h.symm⟩
      | ok v' =>
        -- the failure is in the rest, where every position is one less and counting starts one
        -- later
        rw [hop] at h
        obtain ⟨i, op', scope, below, hi, hbefore, hrun, rfl⟩ := ih.mp h
        refine ⟨i + 1, op', scope, below, hi, ?_, hrun, ?_⟩
        · rw [List.take_succ_cons, runAll_cons, hop]
          exact hbefore
        · rw [Nat.add_assoc, Nat.add_comm 1 i]
    · rintro ⟨i, op', scope, below, hi, hbefore, hrun, rfl⟩
      cases i with
      | zero =>
        obtain rfl : op = op' := by simpa using hi
        obtain rfl : v = scope := by simpa using hbefore
        rw [hrun]
        rfl
      | succ i =>
        rw [List.take_succ_cons, runAll_cons] at hbefore
        cases hop : op.run v with
        | error fault => rw [hop] at hbefore; cases hbefore
        | ok v' =>
          rw [hop] at hbefore
          refine ih.mpr ⟨i, op', scope, below, by simpa using hi, hbefore, hrun, ?_⟩
          rw [Nat.add_assoc, Nat.add_comm 1 i]

/-- Where the counting starts has no say in whether a run succeeds. -/
theorem runAll_ok_of_ok {n : Nat} (m : Nat) {ops : List PatchOp} {v w : Json}
    (h : runAll n ops v = .ok w) :
    runAll m ops v = .ok w := by
  induction ops generalizing n m v with
  | nil => simpa using h
  | cons op ops ih =>
    rw [runAll_cons] at h ⊢
    cases hop : op.run v with
    | error fault => rw [hop] at h; cases h
    | ok v' =>
      rw [hop] at h
      exact ih (m + 1) h

/-! ## Runs of single operations -/

/-- An operation without operations of its own fails where it stands. -/
theorem run_eq_runLeaf {op : PatchOp} (h : ∀ path ops conditional, op ≠ .patch path ops conditional)
    (v : Json) :
    op.run v = (op.runLeaf v).mapError fun cause => ⟨[], cause⟩ := by
  cases op with
  | patch path ops conditional => exact absurd rfl (h path ops conditional)
  | _ => simp only [run]

/-- A nested patch on a value that is there runs its operations on a copy. The copy is written back
if they succeed; if one of them fails, the failure is absorbed by a conditional patch when it is an
assertion, and passed on otherwise. -/
theorem run_patch_of_at? {path : String} {ops : List PatchOp} {conditional : Bool} {v inner : Json}
    {tokens : List String} (htokens : tokensOf path = .ok tokens)
    (hinner : v.at? tokens = some inner) :
    (patch path ops conditional).run v = match runAll 0 ops inner with
      | .ok inner' => .ok (Json.putAt tokens inner' v)
      | .error fault => if conditional && fault.cause.isAssertion then .ok v else .error fault := by
  simp only [run, htokens, hinner]
  cases runAll 0 ops inner with
  | error fault => rfl
  | ok inner' =>
    simp only [Json.alterAt_of_at?_some hinner]
    rfl

/-- A nested patch fails in one of two ways: nothing is at its path, or its operations stop at a
failure that it does not absorb and passes on as it is. -/
theorem run_patch_eq_error_iff {path : String} {ops : List PatchOp} {conditional : Bool} {v : Json}
    {fault : Fault} :
    (patch path ops conditional).run v = .error fault ↔
      (target? path v = none ∧
        fault = ⟨[], if (Pointer.parse? path).isSome then .absent path else .invalidPath path⟩) ∨
      ∃ inner, target? path v = some inner ∧ runAll 0 ops inner = .error fault ∧
        (conditional && fault.cause.isAssertion) = false := by
  cases hparse : Pointer.parse? path with
  | none =>
    simp only [run, tokensOf, hparse]
    rw [Except.error.injEq, eq_comm]
    simp [target?, hparse]
  | some tokens =>
    have htokens : tokensOf path = .ok tokens := tokensOf_eq_ok_iff.mpr hparse
    cases hat : v.at? tokens with
    | none =>
      simp only [run, htokens, hat]
      rw [Except.error.injEq, eq_comm]
      simp [target?, hparse, hat]
    | some inner =>
      -- now the path is no obstacle, and all depends on how the operations end
      rw [run_patch_of_at? htokens hat]
      simp only [target?, hparse, Option.bind_some, hat, reduceCtorEq, false_and, Option.some.injEq,
        exists_eq_left', false_or]
      cases runAll 0 ops inner with
      | ok inner' => simp
      | error below =>
        simp only [Except.error.injEq]
        split
        · next habsorbed =>
          constructor
          · intro h
            cases h
          · rintro ⟨rfl, h⟩
            rw [habsorbed] at h
            cases h
        · next hpassed =>
          constructor
          · intro h
            injection h with h
            subst h
            exact ⟨rfl, Bool.eq_false_iff.mpr hpassed⟩
          · rintro ⟨rfl, -⟩
            rfl

/-! ## Assertions -/

/-- A computation that never fails as an assertion. -/
def Assertionless {α : Type} (x : Except Obstacle α) : Prop :=
  ∀ cause, x = .error cause → cause.isAssertion = false

namespace Assertionless

variable {α β : Type}

theorem ok (a : α) : Assertionless (.ok a) := by
  intro cause h
  cases h

theorem error {cause : Obstacle} (h : cause.isAssertion = false) :
    Assertionless (.error cause : Except Obstacle α) := by
  intro cause' h'
  injection h' with h'
  exact h' ▸ h

theorem bind {x : Except Obstacle α} {f : α → Except Obstacle β} (hx : Assertionless x)
    (hf : ∀ a, Assertionless (f a)) : Assertionless (x >>= f) := by
  cases x with
  | ok a => exact hf a
  | error cause => exact error (hx cause rfl)

theorem edit (x : Except Json.EditError α) : Assertionless (x.mapError .edit) := by
  cases x with
  | ok a => exact ok a
  | error e => exact error rfl

theorem tokensOf (path : String) : Assertionless (tokensOf path) := by
  unfold PatchOp.tokensOf
  split
  · exact ok _
  · exact error rfl

theorem addAt (path : String) (value v : Json) : Assertionless (addAt path value v) :=
  bind (tokensOf path) fun _ => edit _

theorem alterAt {missing : Obstacle} {step : Json → Except Obstacle Json}
    (hmissing : missing.isAssertion = false) (hstep : ∀ c, Assertionless (step c))
    (tokens : List String) (v : Json) :
    Assertionless (Json.alterAt missing step tokens v) := by
  intro cause h
  rcases Json.alterAt_error h with rfl | ⟨c, hc⟩
  · exact hmissing
  · exact hstep c cause hc

theorem increment (path : String) (amount : Number) (v : Json) :
    Assertionless (increment path amount v) := by
  unfold PatchOp.increment
  split
  · split
    · exact ok _
    · exact error rfl
  · exact error rfl

/-- Only tests fail as assertions. -/
theorem runLeaf {op : PatchOp} (h : op.isTest = false) (v : Json) :
    Assertionless (op.runLeaf v) := by
  unfold PatchOp.runLeaf
  cases op with
  | add path value => exact addAt path value v
  | remove path => exact bind (tokensOf path) fun _ => bind (edit _) fun _ => ok _
  | replace path value => exact bind (tokensOf path) fun _ => alterAt rfl (fun _ => ok _) _ v
  | move source path =>
    dsimp only
    -- a move to the same place does nothing, and one into the moved value is refused
    split
    · exact ok v
    · split
      · exact error rfl
      · exact bind (tokensOf source) fun _ => bind (edit _) fun _ => addAt path _ _
  | copy source path =>
    refine bind (tokensOf source) fun tokens => bind ?_ fun value => addAt path value v
    unfold valueAt
    split
    · exact ok _
    · exact error rfl
  | inc path amount =>
    exact bind (tokensOf path) fun _ => alterAt rfl (fun c => increment path _ c) _ v
  | init path value =>
    refine bind (tokensOf path) fun tokens => ?_
    split
    · exact ok v
    · exact edit _
  | merge path value =>
    refine bind (tokensOf path) fun tokens => ?_
    split
    · exact alterAt rfl (fun _ => ok _) _ v
    · exact edit _
  | test path expected negate => cases h
  -- nested patches are not run here
  | patch path ops conditional => exact ok v

end Assertionless

/-- A test fails in one of two ways: its path is no pointer, which is a conflict, or what the path
addresses is not as expected, which is an assertion and is reported with what was found. -/
theorem run_test_eq_error_iff {path : String} {expected : Expectation} {negate : Bool} {v : Json}
    {fault : Fault} :
    (test path expected negate).run v = .error fault ↔
      (Pointer.parse? path = none ∧ fault = ⟨[], .invalidPath path⟩) ∨
      ((Pointer.parse? path).isSome ∧ expected.holds (target? path v) = negate ∧
        fault = ⟨[], .testFailed path (target? path v)⟩) := by
  simp only [run, runLeaf, target?, tokensOf]
  cases Pointer.parse? path with
  | none => simp [bind, Except.bind, eq_comm]
  | some tokens =>
    simp only [reduceCtorEq, false_and, Option.isSome_some, Option.bind_some, true_and, false_or,
      bind, Except.bind, pure, Except.pure]
    by_cases h : expected.holds (v.at? tokens) = negate
    · simp [h, eq_comm]
    · simp [h]

end PatchOp

end ItemStore
