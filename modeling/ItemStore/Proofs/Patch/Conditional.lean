import ItemStore.Proofs.Patch.Congruence

/-!
# Conditional scopes

A conditional patch that is stopped by a test which did not hold behaves as if it were not in the
document, and no other patch is affected. A conditional patch that is stopped in another way behaves
as one that is not conditional.

The evaluator decides this from the cause of a failure, whereas a report is called an assertion when
the operation that it addresses is a test. The two differ for a test whose path is no pointer: its
cause is a conflict, which no conditional patch absorbs.
`PatchDocument.assertion_under_conditional_iff` says that this is the only difference.
-/

namespace ItemStore

namespace PatchDocument

/-! ## Causes and reports -/

/-- An operation that fails where it stands fails with an assertion exactly if it is a test with a
well-formed path. -/
theorem isAssertion_iff_of_run_error {op : PatchOp} {v : Json} {cause : Obstacle}
    (h : op.run v = .error ⟨[], cause⟩) :
    cause.isAssertion = true ↔ op.isTest = true ∧ (Pointer.parse? op.path).isSome = true := by
  cases op with
  | test path expected negate =>
    rcases PatchOp.run_test_eq_error_iff.mp h with ⟨hparse, hfault⟩ | ⟨hparse, -, hfault⟩
    · cases hfault
      simp [Obstacle.isAssertion, PatchOp.path, hparse]
    · cases hfault
      simp [Obstacle.isAssertion, PatchOp.path, PatchOp.isTest, hparse]
  | patch path ops conditional =>
    rcases PatchOp.run_patch_eq_error_iff.mp h with ⟨-, hfault⟩ | ⟨inner, -, hinner, -⟩
    · cases hfault
      split <;> simp [Obstacle.isAssertion, PatchOp.isTest]
    · -- the failures of nested operations have an address
      obtain ⟨i, op, scope, below, -, -, -, hfault⟩ := PatchOp.runAll_eq_error_iff.mp hinner
      cases hfault
  | _ =>
    rw [PatchOp.run_eq_runLeaf (by simp)] at h
    cases hleaf : PatchOp.runLeaf v _ with
    | ok w => rw [hleaf] at h; cases h
    | error cause' =>
      rw [hleaf] at h
      cases h
      simp [PatchOp.Assertionless.runLeaf rfl v cause hleaf, PatchOp.isTest]

/-- The fault behind a report, with the operation that it stopped at and the value that this one
came up on. -/
theorem fault_of_apply_error {doc : PatchDocument} {v : Json} {f : PatchFailure}
    (h : apply doc v = .error f) :
    ∃ cause scope, PatchOp.runAll 0 doc v = .error ⟨f.address, cause⟩ ∧
    Reaches doc v f.address f.failingOp scope ∧
      f.failingOp.run scope = .error ⟨[], cause⟩ ∧ f.actual = cause.actual ∧
      f.info = cause.message := by
  obtain ⟨cause, hrun, -, hactual, hinfo⟩ := apply_eq_error_iff.mp h
  obtain ⟨op, scope, below, hreaches, hfails, happend⟩ :=
    reaches_of_runAll_error hrun (List.cons_ne_nil _ _) List.prefix_rfl
  obtain rfl : op = f.failingOp := Option.some.inj (hreaches.at?.symm.trans (at?_address h))
  obtain rfl : below = [] := List.append_right_eq_self.mp happend
  exact ⟨cause, scope, hrun, hreaches, hfails, hactual, hinfo⟩

theorem apply_of_runAll_error {doc : PatchDocument} {v : Json} {address : List Nat}
    {cause : Obstacle} (h : PatchOp.runAll 0 doc v = .error ⟨address, cause⟩) :
    ∃ f, apply doc v = .error f ∧ f.address = address ∧ f.actual = cause.actual ∧
    f.info = cause.message := by
  cases happly : apply doc v with
  | ok w => rw [apply_eq_ok_iff.mp happly] at h; cases h
  | error f =>
    obtain ⟨cause', -, hrun, -, -, hactual, hinfo⟩ := fault_of_apply_error happly
    rw [h] at hrun
    cases hrun
    exact ⟨f, rfl, rfl, hactual, hinfo⟩

/-- A reached operation that is neither a test nor a nested patch stops the whole document with a
conflict exactly if it fails. The document then leaves its target as it was. -/
theorem conflict_iff_of_reaches {doc : PatchDocument} {v scope : Json} {address : List Nat}
    {op : PatchOp} (hreaches : Reaches doc v address op scope) (htest : op.isTest = false)
    (hpatch : ∀ path ops conditional, op ≠ .patch path ops conditional) :
    (∃ f, doc.applyTo v = (v, some f) ∧ f.address = address ∧ f.isAssertion = false) ↔
      ¬∃ w, op.run scope = .ok w := by
  constructor
  · rintro ⟨f, happly, rfl, -⟩ ⟨w, hok⟩
    have hf : apply doc v = .error f := by
      unfold applyTo at happly
      cases hdoc : apply doc v with
      | ok w' => simp [hdoc] at happly
      | error g => simpa [hdoc] using happly
    obtain ⟨cause, scope', -, hreaches', hfails, -⟩ := fault_of_apply_error hf
    obtain ⟨rfl, rfl⟩ := hreaches.unique hreaches'
    rw [hok] at hfails
    cases hfails
  · intro hfails
    cases hleaf : op.runLeaf scope with
    | ok w => exact absurd ⟨w, by rw [PatchOp.run_eq_runLeaf hpatch, hleaf, mapError_ok]⟩ hfails
    | error cause =>
      have hrun : op.run scope = .error ⟨[], cause⟩ := by
        rw [PatchOp.run_eq_runLeaf hpatch, hleaf, mapError_error]
      have hcause : cause.isAssertion = false :=
        PatchOp.Assertionless.runLeaf htest scope cause hleaf
      obtain ⟨f, hf, haddress, -⟩ := apply_of_runAll_error (hreaches.runAll_error hrun hcause)
      rw [List.append_nil] at haddress
      have hop : op = f.failingOp := by
        have hat := at?_address hf
        rw [haddress, hreaches.at?] at hat
        exact Option.some.inj hat
      exact ⟨f, by simp [applyTo, hf], haddress, by rw [PatchFailure.isAssertion, ← hop, htest]⟩

/-! ## Comparing applications -/

/-- Two applications come to the same end: the same value, or failures of the same operation for the
same reason. The addresses of failures in the second document are translated into the first. -/
inductive SameOutcome (place : List Nat → List Nat) :
    Except PatchFailure Json → Except PatchFailure Json → Prop where
  | success (w : Json) : SameOutcome place (.ok w) (.ok w)
  | failure {f g : PatchFailure} (translated : f.address = place g.address)
      (failingOp : f.failingOp = g.failingOp)
      (actual : f.actual = g.actual) (info : f.info = g.info) : SameOutcome place
        (.error f) (.error g)

/-- The reports of two runs that come to the same end. -/
theorem reports_of_sameRun {place : List Nat → List Nat}
    {Same : PatchOp → Obstacle → PatchOp → Obstacle → Prop} {doc doc' : PatchDocument} {v : Json}
    (h : SameRun place Same doc doc' (PatchOp.runAll 0 doc v) (PatchOp.runAll 0 doc' v)) :
    (∃ w, apply doc v = .ok w ∧ apply doc' v = .ok w) ∨
      ∃ f g cause cause', apply doc v = .error f ∧ apply doc' v = .error g ∧
      f.address = place g.address ∧
        Same f.failingOp cause g.failingOp cause' ∧
        (f.actual = cause.actual ∧ f.info = cause.message) ∧
        g.actual = cause'.actual ∧ g.info = cause'.message := by
  generalize hrun : PatchOp.runAll 0 doc v = run at h
  generalize hrun' : PatchOp.runAll 0 doc' v = run' at h
  cases h with
  | ok w => exact .inl ⟨w, apply_eq_ok_iff.mpr hrun, apply_eq_ok_iff.mpr hrun'⟩
  | error translated found found' same =>
    -- each report addresses the operation that its fault does
    obtain ⟨f, hf, haddress, hactual, hinfo⟩ := apply_of_runAll_error hrun
    obtain ⟨g, hg, haddress', hactual', hinfo'⟩ := apply_of_runAll_error hrun'
    rw [← haddress, at?_address hf] at found
    rw [← haddress', at?_address hg] at found'
    obtain rfl := Option.some.inj found
    obtain rfl := Option.some.inj found'
    rw [← haddress, ← haddress'] at translated
    exact .inr ⟨f, g, _, _, hf, hg, translated, same, ⟨hactual, hinfo⟩, hactual', hinfo'⟩

theorem sameOutcome_of_sameRun {place : List Nat → List Nat} {doc doc' : PatchDocument} {v : Json}
    (h : SameRun place (fun op cause op' cause' => op = op' ∧ cause = cause') doc doc'
      (PatchOp.runAll 0 doc v) (PatchOp.runAll 0 doc' v)) :
      SameOutcome place (apply doc v) (apply doc' v) := by
  rcases reports_of_sameRun h with
    ⟨w, hok, hok'⟩ | ⟨f, g, cause, cause', hf, hg, translated, ⟨hop, rfl⟩, ⟨hactual, hinfo⟩,
      hactual', hinfo'⟩
  · rw [hok, hok']
    exact .success w
  · rw [hf, hg]
    exact .failure translated hop (hactual.trans hactual'.symm) (hinfo.trans hinfo'.symm)

/-- The address that an operation had before the one at position `i` of its level was deleted. -/
def restored (i : Nat) : List Nat → List Nat
  | [] => []
  | j :: address => (if i ≤ j then j + 1 else j) :: address

/-- **An operation that changes nothing can be deleted.** If an operation is reached and leaves the
value that it comes up on as it is, the document comes to the same end without it. -/
theorem sameOutcome_eraseIdx {doc : PatchDocument} {v scope : Json} {level : List Nat} {i : Nat}
    {op : PatchOp} (h : Reaches doc v (level ++ [i]) op scope) (hrun : op.run scope = .ok scope) :
    SameOutcome (under (restored i) level) (apply doc v)
      (apply (editAt (·.eraseIdx i) level doc) v) := by
  obtain ⟨ops, outer, henters, hbefore, hfound⟩ := h.enters
  refine sameOutcome_of_sameRun (henters.sameRun _ (by simp) (by simp_all) ?_)
  obtain ⟨hi, -⟩ := List.getElem?_eq_some_iff.mp hfound
  -- at the level itself both runs go on with the operations behind the deleted one
  have hlength : (ops.take i).length = i := List.length_take_of_le (Nat.le_of_lt hi)
  have hlength' : (ops.take (i + 1)).length = i + 1 := List.length_take_of_le hi
  rw [runAll_of_before hbefore hfound, hrun, List.eraseIdx_eq_take_drop_succ, PatchOp.runAll_append,
    apply_eq_ok_iff.mp hbefore]
  simp only [hlength, Nat.zero_add]
  have hplace (j : Nat) (address : List Nat) :
      restored i (((ops.take i).length + j) :: address) =
        ((ops.take (i + 1)).length + j) :: address := by
    simp [hlength, hlength', restored, Nat.add_right_comm]
  have hrest : SameRun (restored i) (fun op cause op' cause' => op = op' ∧ cause = cause')
      (ops.take (i + 1) ++ ops.drop (i + 1)) (ops.take i ++ ops.drop (i + 1)) _ _ :=
    sameRun_append (by simp) hplace scope
  rwa [hlength, hlength', List.take_append_drop] at hrest

/-! ## Absorbed tests -/

theorem under_id (level : List Nat) : under id level = id := by
  funext address
  induction level generalizing address with
  | nil => rfl
  | cons i level ih =>
    cases address with
    | nil => rfl
    | cons j address => simp [under, ih]

/-- **A stopped conditional patch**: let a conditional patch be reached at position `i` of a level,
where its path addresses a value, and let its operations be stopped on that value, as the report `g`
says.

If they are stopped by a test that did not hold, the document comes to the same end as without the
patch; nothing else is skipped, whatever conditional patches lie around it. If they are stopped by
an operation that is no test, the whole document fails at that operation, just as it does when the
patch is not conditional. -/
theorem sameOutcome_of_stopped_conditional {doc ops : PatchDocument} {v scope inner : Json}
    {level : List Nat} {i : Nat} {path : String} {g : PatchFailure}
    (hreaches : Reaches doc v (level ++ [i]) (.patch path ops true) scope)
    (hinner : PatchOp.target? path scope = some inner) (hstopped : apply ops inner = .error g) :
    (g.isAssertion = true → (Pointer.parse? g.failingOp.path).isSome = true →
      SameOutcome (under (restored i) level) (apply doc v)
        (apply (editAt (·.eraseIdx i) level doc) v)) ∧
    (g.isAssertion = false →
      SameOutcome id (apply doc v) (apply (editAt (·.set i (.patch path ops false)) level doc) v) ∧
      ∃ f, apply doc v = .error f ∧ f.address = level ++ i :: g.address ∧
      f.failingOp = g.failingOp ∧
        f.actual = g.actual) := by
  obtain ⟨tokens, htokens, hat⟩ := PatchOp.target?_eq_some_iff.mp hinner
  obtain ⟨cause, deepest, hrun, hdeepest, hfails, hactual, -⟩ := fault_of_apply_error hstopped
  have hcause := isAssertion_iff_of_run_error hfails
  constructor
  · intro htest hparse
    -- the failure is absorbed, which leaves the value as it is
    have hassertion : cause.isAssertion = true := hcause.mpr ⟨htest, hparse⟩
    refine sameOutcome_eraseIdx hreaches ?_
    rw [PatchOp.run_patch_of_at? htokens hat, hrun]
    simp [hassertion]
  · intro hother
    -- the failure is passed on by this patch, and then by all around it
    have hconflict : cause.isAssertion = false := by
      refine Bool.eq_false_iff.mpr fun hassertion => ?_
      have htest : g.isAssertion = true := (hcause.mp hassertion).1
      simp [hother] at htest
    have hpatch (conditional : Bool) : (PatchOp.patch path ops conditional).run scope =
        .error ⟨g.address, cause⟩ := by
      rw [PatchOp.run_patch_of_at? htokens hat, hrun]
      simp [hconflict]
    constructor
    · obtain ⟨siblings, outer, henters, hbefore, hfound⟩ := hreaches.enters
      obtain ⟨hi, -⟩ := List.getElem?_eq_some_iff.mp hfound
      rw [← under_id level]
      refine sameOutcome_of_sameRun (henters.sameRun _ (by simp) (by simp_all) ?_)
      have hfound' : (siblings.set i (.patch path ops false))[i]? = some (.patch path ops false) :=
        List.getElem?_set_self hi
      rw [runAll_of_before hbefore hfound, runAll_set hbefore hfound, hpatch, hpatch]
      have hop := at?_address hstopped
      exact .error rfl (at?_nested hfound hop) (at?_nested hfound' hop) ⟨rfl, rfl⟩
    · have hdoc := hreaches.runAll_error (hpatch true) hconflict
      obtain ⟨f, hf, haddress, hactual', -⟩ := apply_of_runAll_error hdoc
      have haddress' : f.address = level ++ i :: g.address := by simp [haddress]
      have hop : doc.at? f.address = some g.failingOp := by
        rw [haddress, List.append_assoc]
        simpa using (hreaches.trans hinner hdeepest).at?
      have hsame := Option.some.inj ((at?_address hf).symm.trans hop)
      exact ⟨f, hf, haddress', hsame, hactual'.trans hactual.symm⟩

/-- A conditional patch in a plain one, between two operations: once stopped by a test, once by
another operation. -/
theorem stopped_conditional_between_operations :
    let doc (conditional : Bool) (stopped : PatchOp) : PatchDocument :=
      [.inc "/a" none,
        .patch "/in" [.inc "/b" none, .patch "" [.inc "/b" none, stopped] conditional, .remove "/c"]
        false]
    let v : Json := .ofPairs [("a", .ofNat 0), ("in", .ofPairs [("b", .ofNat 0)])]
    let fails : PatchOp := .test "/b" (.equals (.ofNat 7)) false
    SameOutcome (under (restored 1) [1]) (apply (doc true fails) v)
        (apply [.inc "/a" none, .patch "/in" [.inc "/b" none, .remove "/c"] false] v) ∧
      SameOutcome id (apply (doc true (.remove "/d")) v) (apply (doc false (.remove "/d")) v) := by
  intro doc v fails
  have hreaches (stopped : PatchOp) : Reaches (doc true stopped) v ([1] ++ [1])
      (.patch "" [.inc "/b" none, stopped] true) (.ofPairs [("b", .ofNat 1)]) :=
    .nested rfl rfl rfl (.here rfl rfl)
  have htest : apply [.inc "/b" none, fails] (.ofPairs [("b", .ofNat 1)]) =
      .error (failureOf [.inc "/b" none, fails] ⟨[1], .testFailed "/b" (some (.ofNat 2))⟩) := rfl
  have hmissing : apply [.inc "/b" none, .remove "/d"] (.ofPairs [("b", .ofNat 1)]) =
      .error (failureOf [.inc "/b" none, .remove "/d"] ⟨[1], .edit (.missing ["d"])⟩) := rfl
  exact ⟨(sameOutcome_of_stopped_conditional (hreaches fails) rfl htest).1 rfl (by decide),
    ((sameOutcome_of_stopped_conditional (hreaches (.remove "/d")) rfl hmissing).2 rfl).1⟩

/-! ## Failed tests -/

/-- One of the patches that enclose the operation at an address is conditional. -/
def UnderConditional (doc : PatchDocument) (address : List Nat) : Prop :=
  ∃ level path ops, level <+: address ∧ level ≠ address ∧
    doc.at? level = some (.patch path ops true)

/-- **When a failed test is not absorbed**: a document fails with an assertion inside a conditional
patch exactly if it reaches, inside that patch, a test whose path is no pointer. In particular a
test with a well-formed path never aborts a document from within a conditional patch. -/
theorem assertion_under_conditional_iff (doc : PatchDocument) (v : Json) (address : List Nat) :
    ((∃ f, apply doc v = .error f ∧ f.address = address ∧ f.isAssertion = true) ∧
      doc.UnderConditional address) ↔
      (∃ path expected negate scope, Reaches doc v address (.test path expected negate) scope ∧
        Pointer.parse? path = none) ∧ doc.UnderConditional address := by
  constructor
  · rintro ⟨⟨f, hf, rfl, htest⟩, hunder⟩
    refine ⟨?_, hunder⟩
    obtain ⟨cause, scope, hrun, hreaches, hfails, -⟩ := fault_of_apply_error hf
    have hcause := isAssertion_iff_of_run_error hfails
    -- the conditional patch has passed on the fault, so its cause is no assertion
    obtain ⟨level, path, ops, hinitial, hne, hat⟩ := hunder
    have hlevel : level ≠ [] := by
      rintro rfl
      simp [PatchDocument.at?] at hat
    obtain ⟨patch, outer, below, hreaches', hfails', happend⟩ :=
      reaches_of_runAll_error hrun hlevel hinitial
    obtain rfl : patch = .patch path ops true := Option.some.inj (hreaches'.at?.symm.trans hat)
    obtain ⟨i, rest, rfl⟩ : ∃ i rest, below = i :: rest := by
      refine List.exists_cons_of_ne_nil fun hnil => hne ?_
      rw [← happend, hnil, List.append_nil]
    obtain ⟨path', ops', conditional, inner, hpatch, -, -, hpassed⟩ := patch_of_run_error hfails'
    cases hpatch
    rw [Bool.true_and] at hpassed
    -- so the test has a path that is no pointer
    have hop : f.failingOp.isTest = true := htest
    cases hfailing : f.failingOp with
    | test path expected negate =>
      rw [hfailing] at hcause hreaches
      refine ⟨path, expected, negate, scope, hreaches, ?_⟩
      simpa [hpassed, PatchOp.isTest, PatchOp.path] using hcause
    | _ =>
      rw [hfailing] at hop
      cases hop
  · rintro ⟨⟨path, expected, negate, scope, hreaches, hparse⟩, hunder⟩
    refine ⟨?_, hunder⟩
    have hfails : (PatchOp.test path expected negate).run scope = .error ⟨[], .invalidPath path⟩ :=
      PatchOp.run_test_eq_error_iff.mpr (.inl ⟨hparse, rfl⟩)
    obtain ⟨f, hf, haddress, -⟩ := apply_of_runAll_error (hreaches.runAll_error hfails rfl)
    rw [List.append_nil] at haddress
    refine ⟨f, hf, haddress, ?_⟩
    have hop := at?_address hf
    rw [haddress, hreaches.at?] at hop
    simp [PatchFailure.isAssertion, ← Option.some.inj hop, PatchOp.isTest]

/-- A conditional patch does not absorb the failure of a test whose path lacks the slash. -/
theorem assertion_under_conditional_bare_path :
    let doc : PatchDocument := [.patch "" [.test "a" .present false] true]
    ∃ f, apply doc .null = .error f ∧ f.isAssertion = true ∧ doc.UnderConditional f.address :=
  ⟨failureOf [.patch "" [.test "a" .present false] true] ⟨[0, 0], .invalidPath "a"⟩, rfl,
    rfl, [0], "", [.test "a" .present false], List.prefix_append [0] [0], by decide, rfl⟩

end PatchDocument

end ItemStore
