import ItemStore.Proofs.Except
import ItemStore.Proofs.Json.Canonical
import ItemStore.Proofs.Json.Frame
import ItemStore.Proofs.Json.Text
import Mathlib.Data.List.InsertIdx

/-!
# What an addition leaves behind

An addition changes the container above the last token: an object has another member, or another
value for one, and an array has one element more. A removal takes the same from it.

## Architecture

- **Containers**: `Json.child?_of_insertInto` finds the value that was added to one container, and
  `Json.insertInto_of_removeFrom` and `Json.removeFrom_of_insertInto` say that the two edits of a
  container undo each other.
- **Documents**: `Json.insertAt_concat_eq_ok_iff` and `Json.removeAt_concat_eq_ok_iff` are the edits
  of a document in these terms. `Json.Added` describes what an addition makes of a document
  (`Json.added_of_insertAt`), and `Json.edits_undo_each_other` joins the two edits.
-/

namespace ItemStore.Json

variable {v w c c' x : Json} {front tokens : List String} {last : String}

/-! ## Containers -/

/-- An element that is inserted stands between those before the position and the others. -/
theorem insertIdx_eq_take_append {α : Type} {items : List α} {i : Nat}
    (hi : i ≤ items.length) (x : α) :
    items.insertIdx i x = items.take i ++ x :: items.drop i := by
  induction i generalizing items with
  | zero => simp
  | succ i ih =>
    cases items with
    | nil => simp at hi
    | cons item rest => simp [ih (Nat.le_of_succ_le_succ hi)]

/-- What was added to a container is found there, unless it has become the last element of an array
by way of a dash. -/
theorem child?_of_insertInto (h : insertInto tokens last x c = .ok c')
    (hlast : ∀ items, c = .arr items → last ≠ "-") :
    c'.child? last = some x := by
  cases c with
  | obj members =>
    cases h
    rw [child?, Assoc.get?_insert, if_pos rfl]
  | arr items =>
    rw [insertInto, if_neg (hlast items rfl)] at h
    split at h
    next i hi =>
      cases h
      have hle : i ≤ items.length := Nat.le_of_lt_succ (Pointer.lt_of_arrayIndex? hi)
      rw [child?, List.length_insertIdx_of_le_length hle, hi, Option.bind_some,
        List.getElem?_insertIdx_self, if_pos hle]
    next => cases h
  | _ => cases h

/-- An addition to a container undoes the removal of the value. -/
theorem insertInto_of_removeFrom (hc : c.Canonical) (hx : c.child? last = some x)
    (h : removeFrom tokens last c = .ok c') (tokens' : List String) :
    insertInto tokens' last x c' = .ok c := by
  cases c with
  | obj members =>
    have hsome : (Assoc.get? last members).isSome = true := Option.isSome_of_eq_some hx
    rw [removeFrom, if_pos hsome] at h
    cases h
    rw [insertInto, Assoc.insert_erase (canonical_obj.mp hc).1 hx]
  | arr items =>
    obtain ⟨i, hi, hitem⟩ := Option.bind_eq_some_iff.mp hx
    obtain ⟨hlt, rfl⟩ := List.getElem?_eq_some_iff.mp hitem
    rw [removeFrom, hi] at h
    cases h
    have hdash : last ≠ "-" := by
      rintro rfl
      cases hi
    have hposition : Pointer.arrayIndex? last (items.length - 1 + 1) = some i :=
      Pointer.arrayIndex?_of_lt hi (by omega)
    rw [insertInto, if_neg hdash, List.length_eraseIdx_of_lt hlt, hposition]
    dsimp only
    rw [List.insertIdx_eraseIdx_getElem hlt]
  | _ => cases h

/-- The token is a new one for the container: an object has no such key, and in an array the token
is a position. -/
def IsNewIn (token : String) : Json → Prop
  | .obj members => Assoc.get? token members = none
  | .arr _ => token ≠ "-"
  | _ => False

/-- The removal of the value undoes an addition to a container under a new token. -/
theorem removeFrom_of_insertInto (hc : c.Canonical) (hnew : IsNewIn last c)
    (h : insertInto tokens last x c = .ok c') (tokens' : List String) :
    removeFrom tokens' last c' = .ok c := by
  cases c with
  | obj members =>
    cases h
    have hsome : (Assoc.get? last (Assoc.insert last x members)).isSome = true := by
      rw [Assoc.get?_insert, if_pos rfl]
      rfl
    rw [removeFrom, if_pos hsome, Assoc.erase_insert (canonical_obj.mp hc).1 hnew]
  | arr items =>
    rw [insertInto, if_neg hnew] at h
    split at h
    next i hi =>
      cases h
      have hle : i ≤ items.length := Nat.le_of_lt_succ (Pointer.lt_of_arrayIndex? hi)
      rw [removeFrom, List.length_insertIdx_of_le_length hle, hi]
      dsimp only
      rw [List.eraseIdx_insertIdx_self]
    next => cases h
  | _ => cases h

/-! ## Documents -/

theorem at?_singleton (v : Json) (token : String) : v.at? [token] = v.child? token := by
  rw [at?]
  cases v.child? token <;> rfl

/-- An addition below the root is one to the container above. -/
theorem insertAt_concat_eq_ok_iff :
    insertAt (front ++ [last]) x v = .ok w ↔
      ∃ c c', v.at? front = some c ∧ insertInto (front ++ [last]) last x c = .ok c' ∧
      w = putAt front c' v := by
  rw [insertAt, List.getLast?_concat, List.dropLast_concat]
  dsimp only
  cases hc : v.at? front with
  | none => simp [alterAt_of_at?_none hc]
  | some c =>
    rw [alterAt_of_at?_some hc, map_eq_ok_iff]
    simp [eq_comm]

/-- A removal below the root is one from the container above. -/
theorem removeAt_concat_eq_ok_iff :
    removeAt (front ++ [last]) v = .ok (x, w) ↔
      ∃ c c', v.at? front = some c ∧ c.child? last = some x ∧
      removeFrom (front ++ [last]) last c = .ok c' ∧
        w = putAt front c' v := by
  rw [removeAt, List.getLast?_concat, List.dropLast_concat, at?_append]
  dsimp only
  cases hc : v.at? front with
  | none => simp
  | some c =>
    rw [alterAt_of_at?_some hc, Option.bind_some, at?_singleton]
    cases hchild : c.child? last with
    | none => simp [hchild]
    | some removed =>
      dsimp only
      rw [map_eq_ok_iff]
      constructor
      · rintro ⟨rest, hrest, heq⟩
        obtain ⟨c', hc', rfl⟩ := map_eq_ok_iff.mp hrest
        cases heq
        exact ⟨c, c', rfl, hchild, hc', rfl⟩
      · rintro ⟨d, c', hd, hx, hc', rfl⟩
        cases hd
        cases hchild.symm.trans hx
        exact ⟨_, map_eq_ok_iff.mpr ⟨c', hc', rfl⟩, rfl⟩

/-- What a removal hands out was there before. -/
theorem at?_of_removeAt (h : removeAt tokens v = .ok (x, w)) : v.at? tokens = some x := by
  rcases List.eq_nil_or_concat tokens with rfl | ⟨front, last, rfl⟩
  · cases h
  · rw [List.concat_eq_append] at h ⊢
    obtain ⟨c, c', hc, hx, -⟩ := removeAt_concat_eq_ok_iff.mp h
    rw [at?_append, hc, Option.bind_some, at?_singleton, hx]

/-- The tokens end in a dash that stands for the place behind the last element of an array. -/
def AppendsAt (tokens : List String) (v : Json) : Prop :=
  ∃ front items, tokens = front ++ ["-"] ∧ v.at? front = some (.arr items)

/-- The document `w` is what `base` becomes when the value `x` is added at a place. -/
structure Added (tokens : List String) (x base w : Json) : Prop where
  /-- A value that is added behind the last element of an array is its new last element. -/
  appended : ∀ front items, tokens = front ++ ["-"] → base.at? front = some (.arr items) →
    w.at? front = some (.arr (items ++ [x]))
  /-- Everywhere else the value is found at its place. -/
  found : ¬AppendsAt tokens base → w.at? tokens = some x
  /-- In an array the elements before the position keep their places, and the others move up by
  one. -/
  element : ∀ front last items, tokens = front ++ [last] → base.at? front = some (.arr items) →
    last ≠ "-" → ∃ i ≤ items.length, last = toString i ∧
    w.at? front = some (.arr (items.take i ++ x :: items.drop i))
  /-- In an object all other keys have what they had. -/
  member : ∀ front last members, tokens = front ++ [last] → base.at? front = some (.obj members) →
    ∃ members', w.at? front = some (.obj members') ∧
      ∀ key, key ≠ last → Assoc.get? key members' = Assoc.get? key members
  /-- What is not in that array or object is as it was. -/
  others : ∀ others, ¬others <+: tokens.dropLast → ¬tokens.dropLast <+: others →
    w.at? others = base.at? others

/-- **Additions**: what an addition makes of a document. -/
theorem added_of_insertAt (h : insertAt tokens x v = .ok w) : Added tokens x v w := by
  rcases List.eq_nil_or_concat tokens with rfl | ⟨front, last, rfl⟩
  · -- at the root the value takes the place of the whole
    cases h
    exact ⟨by simp, fun _ => rfl, by simp, by simp,
      fun _ _ hinside => absurd List.nil_prefix hinside⟩
  · rw [List.concat_eq_append] at h ⊢
    obtain ⟨c, c', hc, hinsert, rfl⟩ := insertAt_concat_eq_ok_iff.mp h
    have hc' : (putAt front c' v).at? front = some c' := at?_putAt hc c'
    refine ⟨?appended, ?found, ?element, ?member, ?others⟩
    case appended =>
      intro front' items htokens harray
      obtain ⟨rfl, hlast⟩ := List.append_inj' htokens rfl
      cases hlast
      cases hc.symm.trans harray
      cases hinsert
      exact hc'
    case found =>
      intro hdash
      rw [at?_append, hc', Option.bind_some, at?_singleton]
      apply child?_of_insertInto hinsert
      rintro items rfl rfl
      exact hdash ⟨front, items, rfl, hc⟩
    case element =>
      intro front' last' items htokens harray hlast'
      obtain ⟨rfl, hlast⟩ := List.append_inj' htokens rfl
      cases hlast
      cases hc.symm.trans harray
      rw [insertInto, if_neg hlast'] at hinsert
      split at hinsert
      next i hi =>
        cases hinsert
        obtain ⟨htoken, hlt, -⟩ := Pointer.arrayIndex?_eq_some_iff.mp hi
        have hle : i ≤ items.length := Nat.le_of_lt_succ hlt
        exact ⟨i, hle, htoken, by rw [hc', insertIdx_eq_take_append hle]⟩
      next => cases hinsert
    case member =>
      intro front' last' members htokens hobject
      obtain ⟨rfl, hlast⟩ := List.append_inj' htokens rfl
      cases hlast
      cases hc.symm.trans hobject
      cases hinsert
      refine ⟨_, hc', fun key hkey => ?_⟩
      rw [Assoc.get?_insert, if_neg (Ne.symm hkey)]
    case others =>
      intro others habove hinside
      rw [List.dropLast_concat] at habove hinside
      exact at?_putAt_of_apart habove hinside c' v

/-! ## Both edits -/

/-- **Additions and removals undo each other**: the addition of the removed value undoes a removal,
and the removal of the added value undoes an addition under a token that is new for its
container. -/
theorem edits_undo_each_other (hv : v.Canonical) (tokens : List String) :
    (∀ x w, removeAt tokens v = .ok (x, w) → insertAt tokens x w = .ok v) ∧
      ∀ front last c x w, tokens = front ++ [last] → v.at? front = some c → IsNewIn last c →
        insertAt tokens x v = .ok w → removeAt tokens w = .ok (x, v) := by
  constructor
  · intro x w h
    rcases List.eq_nil_or_concat tokens with rfl | ⟨front, last, rfl⟩
    · cases h
    · rw [List.concat_eq_append] at h ⊢
      obtain ⟨c, c', hc, hx, hremove, rfl⟩ := removeAt_concat_eq_ok_iff.mp h
      refine insertAt_concat_eq_ok_iff.mpr
        ⟨c', c, at?_putAt hc c', insertInto_of_removeFrom (hv.at? hc) hx hremove _, ?_⟩
      rw [putAt_putAt hc, putAt_self hc]
  · rintro front last c x w rfl hc hnew h
    obtain ⟨d, c', hd, hinsert, rfl⟩ := insertAt_concat_eq_ok_iff.mp h
    cases hc.symm.trans hd
    have hx : c'.child? last = some x := by
      apply child?_of_insertInto hinsert
      rintro items rfl
      exact hnew
    refine removeAt_concat_eq_ok_iff.mpr
      ⟨c', c, at?_putAt hc c', hx, removeFrom_of_insertInto (hv.at? hc) hnew hinsert _, ?_⟩
    rw [putAt_putAt hc, putAt_self hc]

/-- The first element of an array inside an object is removed and added again, and another one is
added behind the last and removed. -/
theorem edits_undo_each_other_in_nested_array :
    let v (items : List Json) : Json :=
      .obj [("a", .null), ("o~", .obj [("-", .arr items), ("b", .ofNat 2)])]
    let first : Json := .obj [("x", .ofNat 0)]
    (v [first, .ofNat 5]).Canonical ∧
      removeAt ["o~", "-", "0"] (v [first, .ofNat 5]) = .ok (first, v [.ofNat 5]) ∧
      insertAt ["o~", "-", "0"] first (v [.ofNat 5]) = .ok (v [first, .ofNat 5]) ∧
      insertAt ["o~", "-", "2"] .null (v [first, .ofNat 5]) = .ok (v [first, .ofNat 5, .null]) ∧
      removeAt ["o~", "-", "2"] (v [first, .ofNat 5, .null]) =
        .ok (.null, v [first, .ofNat 5]) := by
  intro v first
  have hv : (v [first, .ofNat 5]).Canonical := by decide
  have hremoved : removeAt ["o~", "-", "0"] (v [first, .ofNat 5]) = .ok (first, v [.ofNat 5]) := rfl
  have hadded : insertAt ["o~", "-", "2"] .null (v [first, .ofNat 5]) =
      .ok (v [first, .ofNat 5, .null]) := rfl
  have hparent : (v [first, .ofNat 5]).at? ["o~", "-"] = some (.arr [first, .ofNat 5]) := rfl
  have hnew : IsNewIn "2" (.arr [first, .ofNat 5]) := by
    show "2" ≠ "-"
    decide
  exact ⟨hv, hremoved, (edits_undo_each_other hv _).1 _ _ hremoved, hadded,
    (edits_undo_each_other hv _).2 ["o~", "-"] "2" _ _ _ rfl hparent hnew hadded⟩

end ItemStore.Json
