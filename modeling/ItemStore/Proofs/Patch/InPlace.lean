import ItemStore.Proofs.Json.Frame
import ItemStore.Proofs.Patch.Address

/-!
# Operations in place

Some operations only look at the value at their path, or put another one in its place. Where their
path addresses a value, they are writes at that place (`PatchOp.exists_putAt_of_run`), nested
patches included, whatever the operations inside do. What they leave alone is then a matter of
writes (`PatchOp.touches_only_target`).
-/

namespace ItemStore.PatchOp

/-- Whether the operation changes nothing but the value at its path, if there is one. -/
def isInPlace : PatchOp → Bool
  | .replace .. | .inc .. | .merge .. | .init .. | .test .. | .patch .. => true
  | _ => false

variable {v w c : Json} {tokens : List String}

/-! ## Writes -/

/-- A step in place that succeeds is a write. -/
private theorem exists_putAt_of_alterAt {missing : Obstacle} {step : Json → Except Obstacle Json}
    (hat : v.at? tokens = some c) (h : Json.alterAt missing step tokens v = .ok w) :
    ∃ c', w = Json.putAt tokens c' v := by
  rw [Json.alterAt_of_at?_some hat, map_eq_ok_iff] at h
  obtain ⟨c', -, rfl⟩ := h
  exact ⟨c', rfl⟩

/-- To do nothing is to write what is there. -/
private theorem exists_putAt_self (hat : v.at? tokens = some c) :
    ∃ c', v = Json.putAt tokens c' v :=
  ⟨c, (Json.putAt_self hat).symm⟩

/-- A nested patch that succeeds writes what its operations make of the value at its path, or they
fail and it is skipped. -/
theorem cases_of_run_patch {path : String} {ops : PatchDocument} {conditional : Bool}
    (htokens : tokensOf path = .ok tokens) (hat : v.at? tokens = some c)
    (h : (patch path ops conditional).run v = .ok w) :
    (∃ c', PatchDocument.apply ops c = .ok c' ∧ w = Json.putAt tokens c' v) ∨
      (∃ f, PatchDocument.apply ops c = .error f) ∧ conditional = true ∧ w = v := by
  rw [run_patch_of_at? htokens hat] at h
  unfold PatchDocument.apply
  cases hrun : runAll 0 ops c with
  | ok c' =>
    rw [hrun] at h
    exact .inl ⟨c', rfl, (Except.ok.inj h).symm⟩
  | error fault =>
    rw [hrun] at h
    right
    refine ⟨⟨_, rfl⟩, ?_⟩
    cases conditional with
    | false => cases h
    | true =>
      dsimp only at h
      split at h
      next => exact ⟨rfl, (Except.ok.inj h).symm⟩
      next => cases h

/-- An operation goes on with the tokens of its path. -/
private theorem of_bind_tokensOf {path : String} {rest : List String → Except Obstacle Json}
    (htokens : tokensOf path = .ok tokens) (h : (tokensOf path >>= rest) = .ok w) :
    rest tokens = .ok w := by
  rwa [htokens] at h

/-- An operation in place without operations of its own that succeeds is a write. -/
theorem exists_putAt_of_runLeaf {op : PatchOp} (hop : op.isInPlace = true)
    (htokens : tokensOf op.path = .ok tokens) (hat : v.at? tokens = some c)
    (h : op.runLeaf v = .ok w) : ∃ c', w = Json.putAt tokens c' v := by
  cases op with
  | replace path value | inc path amount =>
    have hstep := of_bind_tokensOf htokens h
    exact exists_putAt_of_alterAt hat hstep
  | merge path value =>
    have hstep := of_bind_tokensOf htokens h
    rw [hat] at hstep
    exact exists_putAt_of_alterAt hat hstep
  | init path value =>
    have hstep := of_bind_tokensOf htokens h
    -- a value is there, so none is added
    rw [hat] at hstep
    cases hstep
    exact exists_putAt_self hat
  | test path expected negate =>
    have hstep := of_bind_tokensOf htokens h
    dsimp only at hstep
    split at hstep
    next =>
      cases hstep
      exact exists_putAt_self hat
    next => cases hstep
  | patch path ops conditional =>
    cases h
    exact exists_putAt_self hat
  | _ => cases hop

/-- **Operations in place are writes**: where the path addresses a value, an operation that succeeds
puts a value in its place. -/
theorem exists_putAt_of_run {op : PatchOp} (hop : op.isInPlace = true)
    (htokens : tokensOf op.path = .ok tokens) (hat : v.at? tokens = some c) (h : op.run v = .ok w) :
    ∃ c', w = Json.putAt tokens c' v := by
  cases op with
  | patch path ops conditional =>
    rcases cases_of_run_patch htokens hat h with ⟨c', -, hw⟩ | ⟨-, -, rfl⟩
    · exact ⟨c', hw⟩
    · exact exists_putAt_self hat
  | _ =>
    rw [run_eq_runLeaf (by simp), mapError_eq_ok_iff] at h
    exact exists_putAt_of_runLeaf hop htokens hat h

/-! ## What is left alone -/

/-- **Operations in place touch only their target**: let an operation in place succeed whose path
addresses a value. What stands neither above that value nor inside it is as it was; the containers
above it keep their kinds, and their keys or their lengths; and if the operation is a nested patch,
it has written exactly what its operations make of the value, or has been skipped, because they
fail, and has written nothing. -/
theorem touches_only_target {op : PatchOp} (hop : op.isInPlace = true)
    (hpath : Pointer.parse? op.path = some tokens) (hat : v.at? tokens = some c)
    (h : op.run v = .ok w) :
    (∀ others, ¬others <+: tokens → ¬tokens <+: others → w.at? others = v.at? others) ∧
      (∀ outer, outer <+: tokens → outer ≠ tokens →
        ∃ d d', v.at? outer = some d ∧ w.at? outer = some d' ∧ Json.SameShape d d') ∧
      ∀ path ops conditional, op = .patch path ops conditional →
        (∀ c', PatchDocument.apply ops c = .ok c' → w.at? tokens = some c') ∧
        (∀ f, PatchDocument.apply ops c = .error f → conditional = true ∧ w = v) := by
  have htokens : tokensOf op.path = .ok tokens := tokensOf_eq_ok_iff.mpr hpath
  obtain ⟨written, hwritten⟩ := exists_putAt_of_run hop htokens hat h
  refine ⟨?_, ?_, ?_⟩
  · intro others habove hinside
    rw [hwritten]
    exact Json.at?_putAt_of_apart habove hinside written v
  · intro outer habove hne
    rw [hwritten]
    exact Json.sameShape_putAt hat habove hne written
  · rintro path ops conditional rfl
    rcases cases_of_run_patch htokens hat h with ⟨c', hc', hw⟩ | ⟨⟨f, hf⟩, hskipped⟩
    · refine ⟨fun c'' hc'' => ?_, fun f hf => ?_⟩
      · rw [hw, Json.at?_putAt hat, Except.ok.inj (hc'.symm.trans hc'')]
      · cases hc'.symm.trans hf
    · refine ⟨fun c' hc' => ?_, fun _ _ => hskipped⟩
      cases hf.symm.trans hc'

/-- A nested patch on an element of an array inside an object, with an addition and a removal. -/
theorem touches_only_target_of_nested_patch :
    let ops : PatchDocument := [.inc "/n" none, .add "/k/-" (.bool true), .remove "/m"]
    let element : Json := .obj [("k", .arr []), ("m", .null), ("n", .ofNat 1)]
    let element' : Json := .obj [("k", .arr [.bool true]), ("n", .ofNat 2)]
    let v (element : Json) : Json :=
      .obj [("a~", .arr [.ofNat 0, element, .ofNat 7]), ("b", .arr [])]
    (patch "/a~0/1" ops true).run (v element) = .ok (v element') ∧
      (v element').at? ["a~", "2"] = (v element).at? ["a~", "2"] ∧
      (v element').at? ["a~", "1"] = some element' := by
  intro ops element element' v
  have hpath : Pointer.parse? "/a~0/1" = some ["a~", "1"] := rfl
  have hat : (v element).at? ["a~", "1"] = some element := rfl
  have hrun : (patch "/a~0/1" ops true).run (v element) = .ok (v element') := rfl
  have hop : (patch "/a~0/1" ops true).isInPlace = true := rfl
  obtain ⟨hothers, -, hnested⟩ := touches_only_target hop hpath hat hrun
  exact ⟨hrun, hothers ["a~", "2"] (by decide) (by decide),
    (hnested "/a~0/1" ops true rfl).1 element' rfl⟩

end ItemStore.PatchOp
