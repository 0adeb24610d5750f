import ItemStore.Proofs.Json.Focus
import ItemStore.Proofs.Patch.Conditional
import ItemStore.Proofs.Pointer

/-!
# Nested patches in place

A nested patch runs its operations on a copy of the value at its path. The same operations can be
run on the document itself, if the path is put in front of all of theirs.

## Architecture

- **Operations**: `PatchOp.relocate` puts a path in front of those of an operation.
  `PatchOp.run_relocate` says that this operation does to the document what the original does to the
  value at the path, which `Obstacle.within` words anew if it fails.
- **Lists of operations**: `PatchOp.runAll_relocate` carries this through a run, the value being put
  back after each step.
- **Documents**: `PatchDocument.inlineAt` replaces a nested patch by its operations, and
  `PatchDocument.sameEnd_inlineAt` says that application comes to the same end, with addresses
  translated by `PatchDocument.inlined`.
-/

namespace ItemStore

namespace PatchOp

/-! ## Operations below a path -/

/-- The paths of an operation, which are relative to the value that it is run on. -/
def paths : PatchOp → List String
  | .move source path | .copy source path => [source, path]
  | op => [op.path]

/-- The operation with `p` in front of its paths. The operations of a nested patch are relative to
its path and stay as they are. -/
def relocate (p : String) : PatchOp → PatchOp
  | .add path value => .add (p ++ path) value
  | .remove path => .remove (p ++ path)
  | .replace path value => .replace (p ++ path) value
  | .move source path => .move (p ++ source) (p ++ path)
  | .copy source path => .copy (p ++ source) (p ++ path)
  | .inc path amount => .inc (p ++ path) amount
  | .init path value => .init (p ++ path) value
  | .merge path value => .merge (p ++ path) value
  | .test path expected negate => .test (p ++ path) expected negate
  | .patch path ops conditional => .patch (p ++ path) ops conditional

@[simp]
theorem relocate_empty : relocate "" = id := by
  funext op
  cases op <;> simp [relocate]

end PatchOp

namespace Obstacle

/-- The cause in terms of the whole document, `p` being the path of the value that the operation is
relative to and `outer` its tokens. -/
def within (p : String) (outer : List String) : Obstacle → Obstacle
  | .invalidPath path => .invalidPath (p ++ path)
  | .absent path => .absent (p ++ path)
  | .edit e => .edit (e.within outer)
  | .intoOwnChild source path => .intoOwnChild (p ++ source) (p ++ path)
  | .notANumber path => .notANumber (p ++ path)
  | .outOfRange path => .outOfRange (p ++ path)
  | .testFailed path actual => .testFailed (p ++ path) actual

@[simp]
theorem isAssertion_within (p : String) (outer : List String) (cause : Obstacle) :
    (cause.within p outer).isAssertion = cause.isAssertion := by
  cases cause <;> rfl

@[simp]
theorem actual_within (p : String) (outer : List String) (cause : Obstacle) :
    (cause.within p outer).actual = cause.actual := by
  cases cause <;> rfl

end Obstacle

namespace PatchOp

/-- The path `p`, which is not that of the whole document, addresses `scope` in `v`. -/
structure Focus (p : String) (outer : List String) (v scope : Json) : Prop where
  proper : Pointer.IsProper p
  parse_eq : Pointer.parse? p = some outer
  at_eq : v.at? outer = some scope

variable {p : String} {outer : List String} {v scope : Json}

/-- The value that is put back is in focus again. -/
theorem Focus.putAt (h : Focus p outer v scope) (scope' : Json) :
    Focus p outer (Json.putAt outer scope' v) scope' :=
  ⟨h.proper, h.parse_eq, Json.at?_putAt h.at_eq scope'⟩

/-- What a path addresses below the focus. -/
theorem Focus.exists_tokens (h : Focus p outer v scope) {q : String} (hq : Pointer.IsProper q) :
    ∃ inner, inner ≠ [] ∧ tokensOf q = .ok inner ∧ tokensOf (p ++ q) = .ok (outer ++ inner) ∧
      v.at? (outer ++ inner) = scope.at? inner := by
  obtain ⟨inner, hparse, hne⟩ := hq.exists_parse?
  refine ⟨inner, hne, ?_, ?_, ?_⟩
  · exact tokensOf_eq_ok_iff.mpr hparse
  · exact tokensOf_eq_ok_iff.mpr (Pointer.parse?_append h.proper hq h.parse_eq hparse)
  · simp [Json.at?_append, h.at_eq]

/-- Adding a value below the focus. -/
theorem addAt_within (h : Focus p outer v scope) {q : String} (hq : Pointer.IsProper q)
    (value : Json) :
    addAt (p ++ q) value v =
      ((addAt q value scope).mapError (.within p outer)).map fun scope' =>
        Json.putAt outer scope' v := by
  obtain ⟨inner, hne, htokens, htokens', -⟩ := h.exists_tokens hq
  simp only [addAt, htokens, htokens', bind, Except.bind, Json.insertAt_append h.at_eq hne]
  cases Json.insertAt inner value scope <;> rfl

/-- A path continues another one if it does so below the focus. -/
theorem isBelow_append (p q q' : String) : isBelow (p ++ q) (p ++ q') = isBelow q q' := by
  rw [Bool.eq_iff_iff]
  simp only [isBelow, String.toList_append, List.append_assoc, List.isPrefixOf_iff_prefix,
    List.prefix_append_right_inj]

theorem alterAt_within (h : Focus p outer v scope) {inner : List String} (missing : Obstacle)
    {step step' : Json → Except Obstacle Json}
    (hstep : ∀ c, step' c = (step c).mapError (.within p outer)) :
    Json.alterAt (missing.within p outer) step' (outer ++ inner) v =
      ((Json.alterAt missing step inner scope).mapError (.within p outer)).map fun scope' =>
        Json.putAt outer scope' v := by
  rw [Json.alterAt_append h.at_eq, Json.alterAt_mapError (Obstacle.within p outer) hstep]

/-- An operation below the focus, nested patches apart: it does to the whole what it does to the
value in focus. -/
theorem runLeaf_relocate (h : Focus p outer v scope) {op : PatchOp}
    (hop : ∀ q ∈ op.paths, Pointer.IsProper q) :
    (op.relocate p).runLeaf v =
      ((op.runLeaf scope).mapError (.within p outer)).map fun scope' =>
        Json.putAt outer scope' v := by
  cases op with
  | add path value => exact addAt_within h (hop path List.mem_cons_self) value
  | remove path =>
    obtain ⟨inner, hne, htokens, htokens', -⟩ := h.exists_tokens (hop path List.mem_cons_self)
    simp only [relocate, runLeaf, htokens, htokens', bind, Except.bind,
      Json.removeAt_append h.at_eq hne]
    cases Json.removeAt inner scope <;> rfl
  | replace path value =>
    obtain ⟨inner, -, htokens, htokens', -⟩ := h.exists_tokens (hop path List.mem_cons_self)
    simp only [relocate, runLeaf, htokens, htokens', bind, Except.bind]
    exact alterAt_within h (.absent path) fun _ => rfl
  | move source path =>
    obtain ⟨inner, hne, htokens, htokens', -⟩ := h.exists_tokens (hop source List.mem_cons_self)
    have hpath : Pointer.IsProper path := hop path (List.mem_cons_of_mem _ List.mem_cons_self)
    have hself : p ++ source = p ++ path ↔ source = path := String.append_right_inj p
    simp only [relocate, runLeaf, hself, isBelow_append]
    split
    · -- nothing happens, here as there
      exact congrArg Except.ok (Json.putAt_self h.at_eq).symm
    · split
      · rfl
      · simp only [htokens, htokens', bind, Except.bind, Json.removeAt_append h.at_eq hne]
        cases Json.removeAt inner scope with
        | error e => rfl
        | ok found =>
          -- the value is added to what the removal has left
          obtain ⟨removed, rest⟩ := found
          have hadd := addAt_within (h.putAt rest) hpath removed
          simp only [Json.putAt_putAt h.at_eq] at hadd
          exact hadd
  | copy source path =>
    obtain ⟨inner, -, htokens, htokens', hat⟩ := h.exists_tokens (hop source List.mem_cons_self)
    have hpath : Pointer.IsProper path := hop path (List.mem_cons_of_mem _ List.mem_cons_self)
    simp only [relocate, runLeaf, htokens, htokens', bind, Except.bind, valueAt, hat]
    cases scope.at? inner with
    | none => rfl
    | some value => exact addAt_within h hpath value
  | inc path amount =>
    obtain ⟨inner, -, htokens, htokens', -⟩ := h.exists_tokens (hop path List.mem_cons_self)
    simp only [relocate, runLeaf, htokens, htokens', bind, Except.bind]
    refine alterAt_within h (.absent path) fun c => ?_
    unfold increment
    cases c with
    | num n =>
      dsimp only
      cases n.add? (amount.getD .one) <;> rfl
    | _ => rfl
  | init path value =>
    obtain ⟨inner, hne, htokens, htokens', hat⟩ := h.exists_tokens (hop path List.mem_cons_self)
    simp only [relocate, runLeaf, htokens, htokens', bind, Except.bind, hat]
    split
    · exact congrArg Except.ok (Json.putAt_self h.at_eq).symm
    · rw [Json.insertAt_append h.at_eq hne]
      cases Json.insertAt inner value scope <;> rfl
  | merge path value =>
    obtain ⟨inner, hne, htokens, htokens', hat⟩ := h.exists_tokens (hop path List.mem_cons_self)
    simp only [relocate, runLeaf, htokens, htokens', bind, Except.bind, hat]
    cases scope.at? inner with
    | some old => exact alterAt_within h (.absent path) fun _ => rfl
    | none =>
      dsimp only
      rw [Json.insertAt_append h.at_eq hne]
      cases Json.insertAt inner (Json.merge .null value) scope <;> rfl
  | test path expected negate =>
    obtain ⟨inner, -, htokens, htokens', hat⟩ := h.exists_tokens (hop path List.mem_cons_self)
    simp only [relocate, runLeaf, htokens, htokens', bind, Except.bind, hat]
    split
    · exact congrArg Except.ok (Json.putAt_self h.at_eq).symm
    · rfl
  | patch path ops conditional => exact congrArg Except.ok (Json.putAt_self h.at_eq).symm

/-! ## Runs below a path -/

/-- A run on a value and a run on the document `v` around it: the document has the new value at the
tokens `outer`, or both fail at the same address and have found the same. -/
inductive Relocated (outer : List String) (v : Json) :
    Except Fault Json → Except Fault Json → Prop where
  | ok (scope : Json) : Relocated outer v (.ok scope) (.ok (Json.putAt outer scope v))
  | error {address : List Nat} {cause cause' : Obstacle} (actual : cause.actual = cause'.actual)
      (isAssertion : cause.isAssertion = cause'.isAssertion) :
      Relocated outer v (.error ⟨address, cause⟩) (.error ⟨address, cause'⟩)

/-- If nothing changes, the document stays as it is. -/
theorem Relocated.ok_self (h : v.at? outer = some scope) :
    Relocated outer v (.ok scope) (.ok v) := by
  have hok : Relocated outer v (.ok scope) (.ok (Json.putAt outer scope v)) := .ok scope
  rwa [Json.putAt_self h] at hok

/-- The value that the document had at these tokens before does not matter. -/
theorem Relocated.of_putAt (h : v.at? outer = some scope) {c : Json} {x y : Except Fault Json}
    (hrun : Relocated outer (Json.putAt outer c v) x y) : Relocated outer v x y := by
  cases hrun with
  | ok scope' =>
    rw [Json.putAt_putAt h]
    exact .ok scope'
  | error actual isAssertion => exact .error actual isAssertion

/-- An operation below the focus. Only a failure of the operation itself is worded anew: the paths
inside a nested patch are relative and stay as they are. -/
theorem run_relocate (h : Focus p outer v scope) {op : PatchOp}
    (hop : ∀ q ∈ op.paths, Pointer.IsProper q) :
    Relocated outer v (op.run scope) ((op.relocate p).run v) := by
  by_cases hpatch : ∃ path ops conditional, op = .patch path ops conditional
  · obtain ⟨path, ops, conditional, rfl⟩ := hpatch
    obtain ⟨inner, -, htokens, htokens', hat⟩ := h.exists_tokens (hop path List.mem_cons_self)
    cases hscope : scope.at? inner with
    | none =>
      simp only [relocate, run, htokens, htokens', hat, hscope]
      exact .error rfl rfl
    | some deeper =>
      -- the operations of the patch run on the same value in both
      rw [hscope] at hat
      rw [relocate, run_patch_of_at? htokens hscope, run_patch_of_at? htokens' hat]
      cases runAll 0 ops deeper with
      | ok deeper' =>
        dsimp only
        rw [Json.putAt_append h.at_eq]
        exact .ok _
      | error fault =>
        dsimp only
        split
        · exact .ok_self h.at_eq
        · exact .error rfl rfl
  · have hother (path : String) (ops : List PatchOp) (conditional : Bool) : op ≠
        .patch path ops conditional :=
      fun heq => hpatch ⟨path, ops, conditional, heq⟩
    have hother' (path : String) (ops : List PatchOp) (conditional : Bool) :
        op.relocate p ≠ .patch path ops conditional := by
      cases op with
      | patch path ops conditional => exact absurd rfl (hother path ops conditional)
      | _ => simp [relocate]
    rw [run_eq_runLeaf hother, run_eq_runLeaf hother', runLeaf_relocate h hop]
    cases op.runLeaf scope with
    | ok scope' => exact .ok scope'
    | error cause =>
      exact .error (cause.actual_within p outer).symm (cause.isAssertion_within p outer).symm

/-- Operations below the focus, one after the other. -/
theorem runAll_relocate (h : Focus p outer v scope) {ops : List PatchOp}
    (hops : ∀ op ∈ ops, ∀ q ∈ op.paths, Pointer.IsProper q) (n : Nat) :
    Relocated outer v (runAll n ops scope) (runAll n (ops.map (relocate p)) v) := by
  induction ops generalizing n v scope with
  | nil =>
    rw [List.map_nil, runAll_nil, runAll_nil]
    exact .ok_self h.at_eq
  | cons op ops ih =>
    obtain ⟨hop, hrest⟩ := List.forall_mem_cons.mp hops
    have hrun := run_relocate h hop
    simp only [List.map_cons, runAll_cons]
    generalize op.run scope = run at hrun
    generalize (op.relocate p).run v = run' at hrun
    cases hrun with
    | ok scope' => exact .of_putAt h.at_eq (ih (h.putAt scope') hrest (n + 1))
    | error actual isAssertion => exact .error actual isAssertion

end PatchOp

namespace PatchDocument

/-! ## Documents -/

/-- The operations of a nested patch as operations of the document around it. A path to the whole
document puts nothing in front of theirs. -/
def unnested (path : String) (ops : PatchDocument) : PatchDocument :=
  ops.map (PatchOp.relocate (if path = "/" then "" else path))

/-- Replaces the nested patch at a position by its operations. -/
def inlineAt (i : Nat) (doc : PatchDocument) : PatchDocument :=
  match doc[i]? with
  | some (.patch path ops _) => doc.take i ++ unnested path ops ++ doc.drop (i + 1)
  | _ => doc

/-- Where the operation at an address stands once the nested patch at position `i`, with `n`
operations, is replaced by them. -/
def inlined (i n : Nat) : List Nat → List Nat
  | [] => []
  | j :: address =>
    if j < i then j :: address
    else if i < j then (j + n - 1) :: address
    else match address with
      | k :: rest => (i + k) :: rest
      | [] => [i]

/-- Where that operation stood before. -/
def nestedBack (i n : Nat) : List Nat → List Nat
  | [] => []
  | j :: address =>
    if j < i then j :: address
    else if j < i + n then i :: (j - i) :: address
    else (j + 1 - n) :: address

theorem inlined_nestedBack (i n : Nat) : inlined i n ∘ nestedBack i n = id := by
  funext address
  cases address with
  | nil => rfl
  | cons j address =>
    simp only [Function.comp_apply, nestedBack, id_eq]
    split
    next hbefore => simp [inlined, hbefore]
    next hbefore =>
      split
      next hinside => simp [inlined, Nat.add_sub_cancel' (Nat.le_of_not_lt hbefore)]
      next hinside =>
        -- behind the patch, whose place its operations have taken
        have hbehind : i < j + 1 - n := by omega
        have hback : j + 1 - n + n - 1 = j := by omega
        simp [inlined, hbehind, Nat.not_lt_of_gt hbehind, hback]

/-- The operations of a nested patch come to the same end in place. -/
theorem relocated_unnested {path : String} {ops : PatchDocument} {v inner : Json}
    (hinner : PatchOp.target? path v = some inner)
    (hpaths : (path = "" ∨ path = "/") ∨ ∀ op ∈ ops, ∀ q ∈ op.paths, Pointer.IsProper q) :
    ∃ tokens, PatchOp.tokensOf path = .ok tokens ∧ v.at? tokens = some inner ∧
      ∀ n, PatchOp.Relocated tokens v (PatchOp.runAll n ops inner)
        (PatchOp.runAll n (unnested path ops) v) := by
  obtain ⟨tokens, htokens, hat⟩ := PatchOp.target?_eq_some_iff.mp hinner
  refine ⟨tokens, htokens, hat, ?_⟩
  intro n
  by_cases hroot : path = "" ∨ path = "/"
  · -- the patch is on the whole document, and its operations stay as they are
    have hsame : unnested path ops = ops := by
      rcases hroot with rfl | rfl <;> simp [unnested]
    obtain rfl : tokens = [] := by
      rcases hroot with rfl | rfl <;> exact (Except.ok.inj htokens).symm
    obtain rfl : v = inner := by simpa [Json.at?] using hat
    rw [hsame]
    cases PatchOp.runAll n ops v with
    | ok w => exact .ok w
    | error fault => exact .error rfl rfl
  · have hparse : Pointer.parse? path = some tokens := PatchOp.tokensOf_eq_ok_iff.mp htokens
    obtain ⟨hempty, hslash⟩ := not_or.mp hroot
    have hfocus : PatchOp.Focus path tokens v inner :=
      ⟨Pointer.isProper_of_parse? hparse hempty hslash, hparse, hat⟩
    simp only [unnested, hslash, if_false]
    exact PatchOp.runAll_relocate hfocus (hpaths.resolve_left hroot) n

/-- At the level of the patch, the two runs come to the same end. -/
theorem sameRun_inlineAt {doc ops : PatchDocument} {v scope inner : Json} {i : Nat} {path : String}
    (hbefore : apply (doc.take i) v = .ok scope) (hfound : doc[i]? = some (.patch path ops false))
    (hinner : PatchOp.target? path scope = some inner)
    (hpaths : (path = "" ∨ path = "/") ∨ ∀ op ∈ ops, ∀ q ∈ op.paths, Pointer.IsProper q) :
    SameRun (nestedBack i ops.length)
      (fun _ cause _ cause' => cause.actual = cause'.actual ∧
        cause.isAssertion = cause'.isAssertion)
      doc (inlineAt i doc) (PatchOp.runAll 0 doc v) (PatchOp.runAll 0 (inlineAt i doc) v) := by
  obtain ⟨hi, -⟩ := List.getElem?_eq_some_iff.mp hfound
  have hlength : (doc.take i).length = i := List.length_take_of_le (Nat.le_of_lt hi)
  have hlength' : (doc.take (i + 1)).length = i + 1 := List.length_take_of_le hi
  have hinline : inlineAt i doc = doc.take i ++ unnested path ops ++ doc.drop (i + 1) := by
    simp [inlineAt, hfound]
  have hfront : (doc.take i ++ unnested path ops).length = i + ops.length := by
    simp [hlength, unnested]
  obtain ⟨tokens, htokens, hat, hrelocated⟩ := relocated_unnested hinner hpaths
  -- both runs come to the patch with the same value, and go on behind it with the same operations
  have hnested := runAll_of_before hbefore hfound
  rw [PatchOp.run_patch_of_at? htokens hat] at hnested
  have hunnested : (unnested path ops).length = ops.length := by simp [unnested]
  have hplain : PatchOp.runAll 0 (inlineAt i doc) v =
      PatchOp.runAll i (unnested path ops ++ doc.drop (i + 1)) scope := by
    rw [hinline, List.append_assoc, PatchOp.runAll_append, apply_eq_ok_iff.mp hbefore]
    simp only [hlength, Nat.zero_add]
  rw [PatchOp.runAll_append] at hplain
  have hrun := hrelocated i
  generalize hinside : PatchOp.runAll i ops inner = run at hrun
  generalize hinside' : PatchOp.runAll i (unnested path ops) scope = run' at hrun
  rw [hinside'] at hplain
  cases hrun with
  | ok inner' =>
    rw [hunnested] at hplain
    rw [PatchOp.runAll_ok_of_ok 0 hinside] at hnested
    have hplace (j : Nat) (address : List Nat) :
        nestedBack i ops.length (((doc.take i ++ unnested path ops).length + j) :: address) =
          ((doc.take (i + 1)).length + j) :: address := by
      have hbehind : ¬ i + ops.length + j < i := by omega
      have hbehind' : ¬ i + ops.length + j < i + ops.length := by omega
      have hback : i + ops.length + j + 1 - ops.length = i + 1 + j := by omega
      simp only [hfront, hlength', nestedBack, if_neg hbehind, if_neg hbehind', hback]
    have hrest : SameRun (nestedBack i ops.length)
        (fun _ cause _ cause' => cause.actual = cause'.actual ∧
          cause.isAssertion = cause'.isAssertion)
        (doc.take (i + 1) ++ doc.drop (i + 1))
          (doc.take i ++ unnested path ops ++ doc.drop (i + 1)) _ _ :=
      sameRun_append (by simp) hplace (Json.putAt tokens inner' scope)
    rw [List.take_append_drop, hlength', hfront, ← hinline] at hrest
    rwa [hnested, hplain]
  | error actual isAssertion =>
    obtain ⟨j, op, scope', below, hop, hfront, hfails, hfault⟩ :=
      PatchOp.runAll_eq_error_iff.mp hinside
    cases hfault
    -- counted from its own start, the failing operation has the position `j`
    rw [PatchOp.runAll_eq_error_iff.mpr
      ⟨j, op, scope', below, hop, PatchOp.runAll_ok_of_ok 0 hfront, hfails, rfl⟩,
      Nat.zero_add] at hnested
    obtain ⟨deepest, hdeepest⟩ := exists_at?_of_runAll_error hnested
    obtain ⟨deepest', hdeepest'⟩ := exists_at?_of_runAll_error hplain
    rw [hnested, hplain]
    refine .error ?_ hdeepest hdeepest' ⟨actual, isAssertion⟩
    have hj : j < ops.length := (List.getElem?_eq_some_iff.mp hop).1
    simp [nestedBack, hj]

/-- Two applications come to the same end: the same value, or failures that have found the same. The
addresses of failures in the first document are translated into the second. -/
inductive SameEnd (place : List Nat → List Nat) :
    Except PatchFailure Json → Except PatchFailure Json → Prop where
  | success (w : Json) : SameEnd place (.ok w) (.ok w)
  | failure {f g : PatchFailure} (translated : g.address = place f.address)
      (actual : g.actual = f.actual) :
      SameEnd place (.error f) (.error g)

/-- **A nested patch can be replaced by its operations**: let a patch that is not conditional be
reached at position `i` of a level, where its path addresses a value; and let its path be one of
those of the whole document, or let all paths of its operations lead below the value. Then the
document with the operations in place of the patch, its path in front of theirs, comes to the same
end. -/
theorem sameEnd_inlineAt {doc ops : PatchDocument} {v scope inner : Json} {level : List Nat}
    {i : Nat} {path : String}
    (hreaches : Reaches doc v (level ++ [i]) (.patch path ops false) scope)
    (hinner : PatchOp.target? path scope = some inner)
    (hpaths : (path = "" ∨ path = "/") ∨ ∀ op ∈ ops, ∀ q ∈ op.paths, Pointer.IsProper q) :
    SameEnd (under (inlined i ops.length) level) (apply doc v)
      (apply (editAt (inlineAt i) level doc) v) := by
  obtain ⟨siblings, outer, henters, hbefore, hfound⟩ := hreaches.enters
  have hlevel := sameRun_inlineAt hbefore hfound hinner hpaths
  have hrun := henters.sameRun (v := v) (inlineAt i) (by simp) (fun _ _ _ _ same => same.2) hlevel
  rcases reports_of_sameRun hrun with
    ⟨w, hok, hok'⟩ | ⟨f, g, cause, cause', hf, hg, translated, same, ⟨hactual, -⟩, hactual', -⟩
  · rw [hok, hok']
    exact .success w
  · rw [hf, hg]
    refine .failure ?_ (hactual'.trans (same.1.symm.trans hactual.symm))
    rw [translated, under_under, inlined_nestedBack, under_id]
    rfl

/-- A patch inside another one, with an append, a move and a test that fails. -/
theorem sameEnd_of_failing_test :
    let ops : PatchDocument :=
      [.add "/l/-" (.ofNat 3), .move "/l/0" "/m~1", .test "/l" (.equals (.arr [.ofNat 2])) false]
    let doc : PatchDocument :=
      [.inc "/n" none, .patch "/in" [.inc "/k" none, .patch "/x/0" ops false, .remove "/k"] false]
    let doc' : PatchDocument :=
      [.inc "/n" none,
        .patch "/in" [.inc "/k" none, .add "/x/0/l/-" (.ofNat 3), .move "/x/0/l/0" "/x/0/m~1",
          .test "/x/0/l" (.equals (.arr [.ofNat 2])) false, .remove "/k"] false]
    let inner : Json := .ofPairs [("l", .arr [.ofNat 1, .ofNat 2])]
    let v : Json := .ofPairs
      [("in", .ofPairs [("k", .ofNat 0), ("x", .arr [inner])]), ("n", .ofNat 0)]
    SameEnd (under (inlined 1 3) [1]) (apply doc v) (apply doc' v) := by
  intro ops doc doc' inner v
  have hinner : PatchOp.target? "/x/0" (.ofPairs [("k", .ofNat 1), ("x", .arr [inner])]) =
      some inner := by decide +kernel
  have hreaches : Reaches doc v ([1] ++ [1]) (.patch "/x/0" ops false)
      (.ofPairs [("k", .ofNat 1), ("x", .arr [inner])]) := .nested rfl rfl rfl (.here rfl rfl)
  have hpaths : ∀ op ∈ ops, ∀ q ∈ op.paths, Pointer.IsProper q := by
    simp [ops, PatchOp.paths, PatchOp.path, Pointer.IsProper]
  have hedit : editAt (inlineAt 1) [1] doc = doc' := by rfl
  rw [← hedit]
  exact sameEnd_inlineAt hreaches hinner (.inr hpaths)

end PatchDocument

end ItemStore
