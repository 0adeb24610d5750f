import ItemStore.Proofs.Json.Removal
import ItemStore.Proofs.Json.Text
import ItemStore.Proofs.Patch.Conditional

/-!
# Moves

A move takes a value away and then adds it somewhere else in what is left. Two guards come first: a
move to the very text of its source does nothing, and a path that continues the text of the source
is refused.

## Main results

- `PatchOp.source_of_move_iff`: moves that succeed have a source, but for those whose two paths are
  the same text;
- `PatchDocument.move_into_itself_iff`: a move into the value that is moved is refused, unless the
  path spells the source differently and the value would end up inside the next element of its
  array.

## Architecture

The second guard compares texts, and a pointer can be spelled in several ways: a tilde in a token
can stand for itself. What a move does behind the guards is a matter of tokens only:
`PatchOp.run_move_eq_ok_iff` describes it by a removal and an addition, and `Json.successor?` is
what the addition finds when the path goes through the place of the source.
-/

namespace ItemStore

namespace PatchOp

variable {source path : String} {v w : Json}

/-- A move succeeds because it does nothing, or because nothing is in the way of a removal and of an
addition to what that leaves. -/
theorem run_move_eq_ok_iff :
    (move source path).run v = .ok w ↔
      (source = path ∧ w = v) ∨
      (source ≠ path ∧ isBelow source path = false ∧
        ∃ outer target removed rest, Pointer.parse? source = some outer ∧
        Pointer.parse? path = some target ∧
          v.removeAt outer = .ok (removed, rest) ∧ Json.insertAt target removed rest = .ok w) := by
  rw [run_eq_runLeaf (by simp), mapError_eq_ok_iff, runLeaf]
  by_cases heq : source = path
  · rw [if_pos heq]
    constructor
    · intro h
      cases h
      exact .inl ⟨heq, rfl⟩
    · rintro (⟨-, rfl⟩ | ⟨hne, -⟩)
      · rfl
      · exact absurd heq hne
  · rw [if_neg heq]
    cases hbelow : isBelow source path with
    | true => simp [heq]
    | false =>
      simp only [heq, Bool.false_eq_true, if_false, false_and, false_or, ne_eq, not_false_eq_true,
        true_and, addAt, tokensOf]
      cases Pointer.parse? source with
      | none => simp [bind, Except.bind]
      | some outer =>
        cases hremoved : v.removeAt outer with
        | error e => simp [bind, Except.bind, hremoved]
        | ok removed =>
          obtain ⟨removed, rest⟩ := removed
          cases Pointer.parse? path with
          | none => simp [bind, Except.bind, hremoved]
          | some target => simp [bind, Except.bind, hremoved, and_assoc]

/-! ## The source -/

/-- **Which moves need their source**: a move that succeeds has a value at its source, exactly
unless the two paths are the same text and no value is there. -/
theorem source_of_move_iff (source path : String) (v : Json) :
    ((∃ w, (move source path).run v = .ok w) → (target? source v).isSome) ↔
      (source = path → (target? source v).isSome) := by
  constructor
  · rintro h rfl
    exact h ⟨v, run_move_eq_ok_iff.mpr (.inl ⟨rfl, rfl⟩)⟩
  · rintro h ⟨w, hw⟩
    rcases run_move_eq_ok_iff.mp hw with
      ⟨heq, -⟩ | ⟨-, -, outer, target, removed, rest, hsource, -, hremoved, -⟩
    · exact h heq
    · -- what was removed was there
      cases hat : v.at? outer with
      | none =>
        rw [Json.removeAt_of_at?_none hat] at hremoved
        cases hremoved
      | some found => simp [target?, hsource, hat]

/-- A move of a missing member to itself. -/
theorem move_without_source :
    ¬((∃ w, (move "/a" "/a").run (.obj []) = .ok w) → (target? "/a" (.obj [])).isSome) := by
  rw [source_of_move_iff]
  decide

/-! ## Moves into the moved value -/

/-- The value at `outer` would end up inside the element that follows it in its array: there is such
an element, and it takes the value at `inner`. -/
def EntersSuccessor (outer inner : List String) (v : Json) : Prop :=
  ∃ removed next next', v.at? outer = some removed ∧ v.successor? outer = some next ∧
    Json.insertAt inner removed next = .ok next'

/-- A move into the value that is moved succeeds only if the guard lets its spelling pass, and then
inside the element that moves up to the place of the source. -/
theorem exists_run_move_into_itself_iff (hv : v.Canonical) {outer inner : List String}
    (hsource : Pointer.parse? source = some outer)
    (hpath : Pointer.parse? path = some (outer ++ inner)) (hinner : inner ≠ []) :
    (∃ w, (move source path).run v = .ok w) ↔
      isBelow source path = false ∧ EntersSuccessor outer inner v := by
  have hne : source ≠ path := by
    rintro rfl
    have hsame : outer = outer ++ inner := Option.some.inj (hsource.symm.trans hpath)
    exact hinner (List.append_right_eq_self.mp hsame.symm)
  constructor
  · rintro ⟨w, hw⟩
    rcases run_move_eq_ok_iff.mp hw with
      ⟨heq, -⟩ | ⟨-, hbelow, outer', target, removed, rest, houter, htarget, hremoved, hadded⟩
    · exact absurd heq hne
    obtain rfl : outer = outer' := Option.some.inj (hsource.symm.trans houter)
    obtain rfl : outer ++ inner = target := Option.some.inj (hpath.symm.trans htarget)
    obtain ⟨next, next', hnext, hadded⟩ :=
      (Json.exists_insertAt_append_iff hinner removed).mp ⟨w, hadded⟩
    cases hat : v.at? outer with
    | none =>
      rw [Json.removeAt_of_at?_none hat] at hremoved
      cases hremoved
    | some found =>
      have houter : outer ≠ [] := by
        rintro rfl
        cases hremoved
      obtain ⟨rest', hremoved', hsuccessor⟩ := Json.removeAt_of_at? hv hat houter
      rw [hremoved] at hremoved'
      cases hremoved'
      exact ⟨hbelow, removed, next, next', hat, hsuccessor.symm.trans hnext, hadded⟩
  · rintro ⟨hbelow, removed, next, next', hat, hnext, hadded⟩
    have houter : outer ≠ [] := by
      rintro rfl
      cases hnext
    obtain ⟨rest, hremoved, hsuccessor⟩ := Json.removeAt_of_at? hv hat houter
    obtain ⟨w, hw⟩ := (Json.exists_insertAt_append_iff hinner removed).mpr
      ⟨next, next', hsuccessor.trans hnext, hadded⟩
    exact ⟨w, run_move_eq_ok_iff.mpr
      (.inr ⟨hne, hbelow, outer, _, removed, rest, hsource, hpath, hremoved, hw⟩)⟩

end PatchOp

namespace PatchDocument

/-- **Moves of a value into itself**: let a move be reached whose path leads through the place of
its source and on. The document fails at that move, with a conflict that changes nothing, exactly
unless the path does not continue the text of the source, and the value that is moved has a
successor in its array, which would take it at the rest of the path. -/
theorem move_into_itself_iff {doc : PatchDocument} {v scope : Json} {address : List Nat}
    {source path : String} {outer inner : List String}
    (hreaches : Reaches doc v address (.move source path) scope) (hscope : scope.Canonical)
    (hsource : Pointer.parse? source = some outer)
    (hpath : Pointer.parse? path = some (outer ++ inner)) (hinner : inner ≠ []) :
    (∃ f, doc.applyTo v = (v, some f) ∧ f.address = address ∧ f.isAssertion = false) ↔
      ¬(PatchOp.isBelow source path = false ∧ PatchOp.EntersSuccessor outer inner scope) := by
  rw [conflict_iff_of_reaches hreaches rfl (by simp),
    PatchOp.exists_run_move_into_itself_iff hscope hsource hpath hinner]

/-- A move of an array's last element into itself, with two spellings of a tilde, in a nested
patch. -/
theorem move_into_itself_of_last_element :
    let doc : PatchDocument := [.inc "/n" none, .patch "/in" [.move "/~/0" "/~0/0/x"] true]
    let scope : Json := .obj [("~", .arr [.obj []])]
    let v : Json := .obj [("in", scope), ("n", .ofNat 0)]
    ∃ f, doc.applyTo v = (v, some f) ∧ f.address = [1, 0] ∧ f.isAssertion = false := by
  intro doc scope v
  have hreaches : Reaches doc v [1, 0] (.move "/~/0" "/~0/0/x") scope :=
    .nested rfl rfl rfl (.here rfl rfl)
  have hscope : scope.Canonical := by decide
  have hsource : Pointer.parse? "/~/0" = some ["~", "0"] := rfl
  have hpath : Pointer.parse? "/~0/0/x" = some (["~", "0"] ++ ["x"]) := rfl
  refine (move_into_itself_iff hreaches hscope hsource hpath (by decide)).mpr ?_
  rintro ⟨-, removed, next, next', -, hnext, -⟩
  cases hnext

/-- With the same spellings the first of two elements is moved into itself, that is, into the second
one. -/
theorem move_into_successor :
    let doc : PatchDocument := [.move "/~/0" "/~0/0/x"]
    let v : Json := .obj [("~", .arr [.ofNat 1, .obj []])]
    Pointer.parse? "/~/0" = some ["~", "0"] ∧
    Pointer.parse? "/~0/0/x" = some (["~", "0"] ++ ["x"]) ∧
      doc.applyTo v = (.obj [("~", .arr [.obj [("x", .ofNat 1)]])], none) :=
  ⟨rfl, rfl, rfl⟩

end PatchDocument

end ItemStore
