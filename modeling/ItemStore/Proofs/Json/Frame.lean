import ItemStore.Proofs.Json.Focus
import ItemStore.Proofs.Position

/-!
# What a write leaves alone

A write at a place is seen at that place, above it and below it, and nowhere else: two different
tokens never address the same child, in an array no more than in an object.

## Main results

- `Json.at?_putAt_of_apart`: a list of tokens that neither begins nor continues that of the place
  addresses what it did;
- `Json.sameShape_putAt`: the containers above the place keep their kind, and their keys or their
  length.
-/

namespace ItemStore.Json

variable {v c : Json} {token : String} {tokens : List String}

/-! ## One token -/

/-- A write under one token is not seen under another. -/
theorem child?_setChild_of_ne {token' : String} (hne : token' ≠ token) (c v : Json) :
    (setChild token c v).child? token' = v.child? token' := by
  cases v with
  | obj members => exact Assoc.get?_set_of_ne (Ne.symm hne) c members
  | arr items =>
    cases hi : Pointer.arrayIndex? token items.length with
    | none => simp only [setChild, hi]
    | some i =>
      simp only [setChild, hi, child?, List.length_set]
      cases hj : Pointer.arrayIndex? token' items.length with
      | none => rfl
      | some j =>
        have hposition : i ≠ j := by
          rintro rfl
          exact hne (Pointer.arrayIndex?_inj hj hi)
        rw [Option.bind_some, Option.bind_some, List.getElem?_set_ne hposition]
  | _ => rfl

/-- Two containers of one kind that have the same keys, or the same number of elements. -/
inductive SameShape : Json → Json → Prop where
  | object {members members' : Members} (keys : Assoc.keys members' = Assoc.keys members) :
      SameShape (.obj members) (.obj members')
  | array {items items' : List Json} (length : items'.length = items.length) : SameShape
      (.arr items) (.arr items')

/-- A container keeps its shape when a child that is there is overwritten. -/
theorem sameShape_setChild (h : v.child? token = some c) (c' : Json) :
    SameShape v (setChild token c' v) := by
  cases v with
  | obj members => exact .object (Assoc.keys_set token c' members)
  | arr items =>
    obtain ⟨i, hi, -⟩ := Option.bind_eq_some_iff.mp h
    simp only [setChild, hi]
    exact .array List.length_set
  | _ => cases h

/-! ## Several tokens -/

/-- **Frame**: what stands neither above a place nor inside it is not changed by a write there. -/
theorem at?_putAt_of_apart {tokens' : List String} (habove : ¬tokens' <+: tokens)
    (hinside : ¬tokens <+: tokens') (c v : Json) :
    (putAt tokens c v).at? tokens' = v.at? tokens' := by
  -- the two lists go the same way up to a first difference, where the write turns off to another
  -- child
  induction tokens generalizing tokens' v with
  | nil => exact absurd List.nil_prefix hinside
  | cons token rest ih =>
    cases tokens' with
    | nil => exact absurd List.nil_prefix habove
    | cons token' rest' =>
      cases hd : v.child? token with
      | none => simp only [putAt, hd]
      | some d =>
        simp only [putAt, hd, at?]
        by_cases heq : token' = token
        · subst heq
          have habove' : ¬rest' <+: rest := fun h => habove (List.cons_prefix_cons.mpr ⟨rfl, h⟩)
          have hinside' : ¬rest <+: rest' := fun h => hinside (List.cons_prefix_cons.mpr ⟨rfl, h⟩)
          rw [child?_setChild hd, hd, Option.bind_some, Option.bind_some]
          exact ih habove' hinside' d
        · rw [child?_setChild_of_ne heq]

/-- Above the place of a write the containers keep their shapes. -/
theorem sameShape_putAt {outer : List String} (h : v.at? tokens = some c)
    (habove : outer <+: tokens) (hne : outer ≠ tokens) (c' : Json) :
    ∃ d d', v.at? outer = some d ∧ (putAt tokens c' v).at? outer = some d' ∧ SameShape d d' := by
  obtain ⟨inner, rfl⟩ := habove
  rw [at?_append, Option.bind_eq_some_iff] at h
  obtain ⟨d, hd, hinner⟩ := h
  cases inner with
  | nil => exact absurd (List.append_nil outer).symm hne
  | cons token rest =>
    obtain ⟨e, he, -⟩ := Option.bind_eq_some_iff.mp hinner
    refine ⟨d, setChild token (putAt rest c' e) d, hd, ?_, sameShape_setChild he _⟩
    rw [putAt_append hd, at?_putAt hd]
    simp only [putAt, he]

end ItemStore.Json
