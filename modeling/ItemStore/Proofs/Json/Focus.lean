import ItemStore.Proofs.Assoc
import ItemStore.Proofs.Json.Place

/-!
# Working inside a value

A value inside a document can be taken out, worked on, and put back. The same can be had by working
on the document in place, with longer lists of tokens. This module says that the two agree.

## Architecture

- **One token**: `Json.child?` and `Json.setChild` are a reader and a writer of one place, as are
  `Json.at?` and `Json.putAt` for several tokens: what was put is found, the later of two writes
  stays, and writing back what was read changes nothing.
- **Edits**: `Json.alterAt_append`, `Json.insertAt_append` and `Json.removeAt_append` split the list
  of tokens: an edit at `outer ++ inner` is the edit at `inner` of what `outer` addresses, which is
  then put back.

Errors name all tokens, so the error of an edit inside is the one in place after `EditError.within`.
-/

namespace ItemStore.Json

/-! ## One token -/

/-- What was put under a token is found there. -/
theorem child?_setChild {token : String} {v c : Json} (h : v.child? token = some c) (c' : Json) :
    (setChild token c' v).child? token = some c' := by
  cases v with
  | obj ms => exact Assoc.get?_set_self h c'
  | arr items =>
    simp only [child?, Option.bind_eq_some_iff] at h
    obtain ⟨i, hi, hitem⟩ := h
    obtain ⟨hlt, -⟩ := List.getElem?_eq_some_iff.mp hitem
    simp [setChild, child?, hi, hlt]
  | _ => cases h

/-- Of two writes under a token the later one stays. -/
theorem setChild_setChild (token : String) (c c' v : Json) :
    setChild token c' (setChild token c v) = setChild token c' v := by
  cases v with
  | obj ms => exact congrArg Json.obj (Assoc.set_set token c c' ms)
  | arr items => cases hi : Pointer.arrayIndex? token items.length <;> simp [setChild, hi]
  | _ => rfl

/-- Writing back what is there changes nothing. -/
theorem setChild_self {token : String} {v c : Json} (h : v.child? token = some c) :
    setChild token c v = v := by
  cases v with
  | obj ms => exact congrArg Json.obj (Assoc.set_eq_self h)
  | arr items =>
    simp only [child?, Option.bind_eq_some_iff] at h
    obtain ⟨i, hi, hitem⟩ := h
    obtain ⟨hlt, rfl⟩ := List.getElem?_eq_some_iff.mp hitem
    simp [setChild, hi]
  | _ => cases h

/-! ## Several tokens -/

/-- Looking up in two steps. -/
theorem at?_append (v : Json) (outer inner : List String) :
    v.at? (outer ++ inner) = (v.at? outer).bind fun c => c.at? inner := by
  induction outer generalizing v with
  | nil => simp [at?]
  | cons token rest ih => simp only [List.cons_append, at?, Option.bind_assoc, ih]

variable {outer : List String} {v c : Json}

/-- What was put at a place is found there. -/
theorem at?_putAt (h : v.at? outer = some c) (c' : Json) :
    (putAt outer c' v).at? outer = some c' := by
  induction outer generalizing v with
  | nil => rfl
  | cons token rest ih =>
    simp only [at?, Option.bind_eq_some_iff] at h
    obtain ⟨d, hd, hrest⟩ := h
    simp only [putAt, hd, at?, child?_setChild hd, Option.bind_some]
    exact ih hrest

/-- Of two writes at a place the later one stays. -/
theorem putAt_putAt (h : v.at? outer = some c) (c' c'' : Json) :
    putAt outer c'' (putAt outer c' v) = putAt outer c'' v := by
  induction outer generalizing v with
  | nil => rfl
  | cons token rest ih =>
    simp only [at?, Option.bind_eq_some_iff] at h
    obtain ⟨d, hd, hrest⟩ := h
    simp only [putAt, hd, child?_setChild hd, setChild_setChild, ih hrest]

/-- Putting back what is there changes nothing. -/
theorem putAt_self (h : v.at? outer = some c) : putAt outer c v = v := by
  induction outer generalizing v with
  | nil => simpa [at?, putAt, eq_comm] using h
  | cons token rest ih =>
    simp only [at?, Option.bind_eq_some_iff] at h
    obtain ⟨d, hd, hrest⟩ := h
    simp only [putAt, hd, ih hrest, setChild_self hd]

/-- Writing in two steps. -/
theorem putAt_append (h : v.at? outer = some c) (inner : List String) (value : Json) :
    putAt (outer ++ inner) value v = putAt outer (putAt inner value c) v := by
  induction outer generalizing v with
  | nil =>
    obtain rfl : v = c := by simpa [at?] using h
    rfl
  | cons token rest ih =>
    simp only [at?, Option.bind_eq_some_iff] at h
    obtain ⟨d, hd, hrest⟩ := h
    simp only [List.cons_append, putAt, hd, ih hrest]

/-! ## Edits -/

/-- A step on a place inside is a step on what it is in. -/
theorem alterAt_append {ε : Type} {missing : ε} {step : Json → Except ε Json}
    (h : v.at? outer = some c) (inner : List String) :
    alterAt missing step (outer ++ inner) v = (alterAt missing step inner c).map fun c' =>
      putAt outer c' v := by
  cases hinner : c.at? inner with
  | none =>
    have hwhole : v.at? (outer ++ inner) = none := by simp [at?_append, h, hinner]
    rw [alterAt_of_at?_none hwhole, alterAt_of_at?_none hinner]
    rfl
  | some d =>
    have hwhole : v.at? (outer ++ inner) = some d := by simp [at?_append, h, hinner]
    rw [alterAt_of_at?_some hwhole, alterAt_of_at?_some hinner]
    cases step d with
    | error e => rfl
    | ok d' => exact congrArg Except.ok (putAt_append h inner d')

/-- An alteration with other errors is the alteration itself, and then its error is another one. -/
theorem alterAt_mapError {ε ε' : Type} (f : ε → ε') {missing : ε} {step : Json → Except ε Json}
    {step' : Json → Except ε' Json} (hstep : ∀ c, step' c = (step c).mapError f)
    (tokens : List String) (v : Json) :
    alterAt (f missing) step' tokens v = (alterAt missing step tokens v).mapError f := by
  cases hv : v.at? tokens with
  | none =>
    rw [alterAt_of_at?_none hv, alterAt_of_at?_none hv]
    rfl
  | some c =>
    rw [alterAt_of_at?_some hv, alterAt_of_at?_some hv, hstep]
    cases step c <;> rfl

namespace EditError

/-- The error in terms of the whole document, `outer` being the tokens of the value that was
edited. -/
def within (outer : List String) : EditError → EditError
  | .parentMissing tokens => .parentMissing (outer ++ tokens)
  | .parentNotContainer tokens => .parentNotContainer (outer ++ tokens)
  | .invalidIndex token => .invalidIndex token
  | .missing tokens => .missing (outer ++ tokens)
  | .rootRemoval => .rootRemoval

end EditError

/-- The container that is changed does not depend on how its place is called. -/
theorem insertInto_within (outer tokens : List String) (last : String) (value v : Json) :
    insertInto (outer ++ tokens) last value v =
      (insertInto tokens last value v).mapError (.within outer) := by
  cases v with
  | arr items =>
    unfold insertInto
    dsimp only
    split
    · rfl
    · cases Pointer.arrayIndex? last (items.length + 1) <;> rfl
  | _ => rfl

theorem removeFrom_within (outer tokens : List String) (last : String) (v : Json) :
    removeFrom (outer ++ tokens) last v = (removeFrom tokens last v).mapError (.within outer) := by
  cases v with
  | obj ms =>
    unfold removeFrom
    dsimp only
    split <;> rfl
  | arr items =>
    unfold removeFrom
    dsimp only
    cases Pointer.arrayIndex? last items.length <;> rfl
  | _ => rfl

/-- Adding a value inside. -/
theorem insertAt_append (h : v.at? outer = some c) {inner : List String} (hinner : inner ≠ [])
    (value : Json) :
    insertAt (outer ++ inner) value v =
      ((insertAt inner value c).mapError (.within outer)).map fun c' => putAt outer c' v := by
  obtain ⟨front, last, rfl⟩ : ∃ front last, inner = front ++ [last] :=
    ⟨inner.dropLast, inner.getLast hinner, (List.dropLast_concat_getLast hinner).symm⟩
  have hlast : (outer ++ (front ++ [last])).getLast? = some last := by simp
  have hfront : (outer ++ (front ++ [last])).dropLast = outer ++ front := by
    rw [← List.append_assoc, List.dropLast_concat]
  have hstep := insertInto_within outer (front ++ [last]) last value
  simp only [insertAt, hlast, hfront, List.getLast?_concat, List.dropLast_concat]
  rw [alterAt_append h, ← alterAt_mapError (EditError.within outer) hstep]
  rfl

/-- Removing a value inside. -/
theorem removeAt_append (h : v.at? outer = some c) {inner : List String} (hinner : inner ≠ []) :
    removeAt (outer ++ inner) v =
      ((removeAt inner c).mapError (.within outer)).map fun (removed, c') =>
        (removed, putAt outer c' v) := by
  obtain ⟨front, last, rfl⟩ : ∃ front last, inner = front ++ [last] :=
    ⟨inner.dropLast, inner.getLast hinner, (List.dropLast_concat_getLast hinner).symm⟩
  have hlast : (outer ++ (front ++ [last])).getLast? = some last := by simp
  have hfront : (outer ++ (front ++ [last])).dropLast = outer ++ front := by
    rw [← List.append_assoc, List.dropLast_concat]
  have hat : v.at? (outer ++ (front ++ [last])) = c.at? (front ++ [last]) := by simp [at?_append, h]
  have hstep := removeFrom_within outer (front ++ [last]) last
  simp only [removeAt, hlast, hfront, List.getLast?_concat, List.dropLast_concat, hat]
  cases c.at? (front ++ [last]) with
  | none => rfl
  | some removed =>
    dsimp only
    rw [alterAt_append h, show EditError.missing (outer ++ (front ++ [last])) =
      EditError.within outer (.missing _) from rfl, alterAt_mapError (EditError.within outer) hstep]
    cases alterAt (.missing (front ++ [last])) (removeFrom (front ++ [last]) last) front c <;> rfl

end ItemStore.Json
