import ItemStore.Proofs.Except
import ItemStore.Proofs.Json.Canonical
import ItemStore.Proofs.Json.Focus
import ItemStore.Proofs.Position

/-!
# What a removal leaves behind

When the value at a place is removed, the elements that follow it in its array move up by one, so
the next one then stands at that place; in an object nothing stands there. An addition at a longer
list of tokens then works inside that element.

- `Json.successor?`: the next element;
- `Json.removeAt_of_at?`: it stands at the place after the removal;
- `Json.exists_insertAt_append_iff`: an addition inside a value succeeds exactly if the value is
  there and takes it.
-/

namespace ItemStore.Json

variable {v c : Json} {tokens : List String} {last : String}

/-- The value that takes the place of the one at a place when that is removed: the next element of
its array. -/
def successor? (tokens : List String) (v : Json) : Option Json :=
  match tokens.getLast?, v.at? tokens.dropLast with
  | some last, some (.arr items) =>
    (Pointer.arrayIndex? last items.length).bind fun i => items[i + 1]?
  | _, _ => none

/-- From a container the value under a token can be removed, and then a following element stands
there. -/
theorem removeFrom_of_child? (tokens : List String) (hc : c.Canonical) {removed : Json}
    (h : c.child? last = some removed) :
    ∃ c', removeFrom tokens last c = .ok c' ∧ c'.child? last = successor? [last] c := by
  cases c with
  | obj members =>
    have hgone : Assoc.get? last (Assoc.erase last members) = none := by
      rw [Assoc.get?_erase (canonical_obj.mp hc).1, if_pos rfl]
    have hsome : (Assoc.get? last members).isSome := Option.isSome_of_eq_some h
    exact ⟨.obj (Assoc.erase last members), if_pos hsome, hgone⟩
  | arr items =>
    obtain ⟨i, hi, hremoved⟩ := Option.bind_eq_some_iff.mp h
    have hlt := Pointer.lt_of_arrayIndex? hi
    refine ⟨.arr (items.eraseIdx i), by simp only [removeFrom, hi], ?_⟩
    have hsucc : successor? [last] (arr items) = items[i + 1]? := by
      simp only [successor?, List.getLast?_singleton, List.dropLast_singleton, at?, hi,
        Option.bind_some]
    rw [hsucc, child?, List.length_eraseIdx_of_lt hlt]
    by_cases hbefore : i < items.length - 1
    · rw [Pointer.arrayIndex?_of_lt hi hbefore, Option.bind_some,
        List.getElem?_eraseIdx_of_ge (Nat.le_refl i)]
    · -- the last element has no successor
      rw [Pointer.arrayIndex?_of_le hi (Nat.le_of_not_lt hbefore), Option.bind_none]
      exact (List.getElem?_eq_none (by omega)).symm
  | _ => cases h

/-- **Removal**: a value below the root can be removed, and then the next element of its array
stands in its place, if there is one. -/
theorem removeAt_of_at? (hv : v.Canonical) {removed : Json} (h : v.at? tokens = some removed)
    (hne : tokens ≠ []) :
    ∃ rest, removeAt tokens v = .ok (removed, rest) ∧ rest.at? tokens = v.successor? tokens := by
  obtain ⟨front, last, rfl⟩ : ∃ front last, tokens = front ++ [last] :=
    ⟨tokens.dropLast, tokens.getLast hne, (List.dropLast_concat_getLast hne).symm⟩
  obtain ⟨c, hc, hlast⟩ : ∃ c, v.at? front = some c ∧ c.at? [last] = some removed := by
    rwa [at?_append, Option.bind_eq_some_iff] at h
  have hchild : c.child? last = some removed := by simpa [at?] using hlast
  obtain ⟨c', hc', hthen⟩ := removeFrom_of_child? (front ++ [last]) (hv.at? hc) hchild
  refine ⟨putAt front c' v, ?_, ?_⟩
  · simp only [removeAt, List.getLast?_concat, List.dropLast_concat, h, alterAt_of_at?_some hc, hc']
    rfl
  · have hsucc : v.successor? (front ++ [last]) = successor? [last] c := by
      simp only [successor?, List.getLast?_concat, List.dropLast_concat, hc,
        List.getLast?_singleton, List.dropLast_singleton, at?]
    rw [at?_append, at?_putAt hc, Option.bind_some, hsucc, ← hthen]
    simp only [at?]
    cases c'.child? last <;> rfl

/-- What cannot be found cannot be removed. -/
theorem removeAt_of_at?_none (h : v.at? tokens = none) :
    removeAt tokens v = .error (.missing tokens) := by
  cases tokens with
  | nil => cases h
  | cons token tokens =>
    have hlast : (token :: tokens).getLast? =
        some ((token :: tokens).getLast (List.cons_ne_nil _ _)) :=
      List.getLast?_eq_some_getLast (List.cons_ne_nil _ _)
    simp only [removeAt, hlast, h]

/-- An addition inside a value succeeds exactly if the value is there and takes the addition. -/
theorem exists_insertAt_append_iff {outer inner : List String} (hinner : inner ≠ [])
    (value : Json) :
    (∃ w, insertAt (outer ++ inner) value v = .ok w) ↔
      ∃ c c', v.at? outer = some c ∧ insertAt inner value c = .ok c' := by
  cases hc : v.at? outer with
  | none =>
    -- the container of the addition is not there either
    obtain ⟨front, last, rfl⟩ : ∃ front last, inner = front ++ [last] :=
      ⟨inner.dropLast, inner.getLast hinner, (List.dropLast_concat_getLast hinner).symm⟩
    have hparent : v.at? (outer ++ front) = none := by rw [at?_append, hc, Option.bind_none]
    simp only [insertAt, ← List.append_assoc, List.getLast?_concat, List.dropLast_concat,
      alterAt_of_at?_none hparent]
    simp
  | some c =>
    have hwrite : (∃ w, insertAt (outer ++ inner) value v = .ok w) ↔
        ∃ c', insertAt inner value c = .ok c' := by
      simp only [insertAt_append hc hinner, map_eq_ok_iff, mapError_eq_ok_iff]
      constructor
      · rintro ⟨w, c', hc', -⟩
        exact ⟨c', hc'⟩
      · rintro ⟨c', hc'⟩
        exact ⟨_, c', hc', rfl⟩
    simpa using hwrite

end ItemStore.Json
