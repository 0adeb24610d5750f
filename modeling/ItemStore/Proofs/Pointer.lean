import ItemStore.Pointer
import ItemStore.Proofs.Text.Pieces

/-!
# Pointers one behind the other

Two pointers below the root, written one behind the other, address what the second one addresses
below the first. The position that a token denotes in an array lies below the array's size.
-/

namespace ItemStore.Pointer

/-- The path starts with a slash and goes on: it is a pointer, and not one to the whole document. -/
def IsProper (path : String) : Prop :=
  ∃ c rest, path.toList = '/' :: c :: rest

theorem parse?_of_slash {path : String} {c : Char} {rest : List Char}
    (h : path.toList = '/' :: c :: rest) :
    parse? path =
      some ((Text.pieces '/' (c :: rest)).map fun token => String.ofList (unescape token)) := by
  simp [parse?, h]

/-- A pointer other than the two for the whole document is a proper one. -/
theorem isProper_of_parse? {path : String} {tokens : List String} (h : parse? path = some tokens)
    (hempty : path ≠ "") (hslash : path ≠ "/") : IsProper path := by
  unfold parse? at h
  split at h
  next hnil => exact absurd (String.toList_eq_nil_iff.mp hnil) hempty
  next hone => exact absurd (String.toList_inj.mp hone) hslash
  next rest hne hrest =>
    cases rest with
    | nil => exact absurd rfl hne
    | cons c rest => exact ⟨c, rest, hrest⟩
  next => cases h

theorem IsProper.exists_parse? {path : String} (h : IsProper path) :
    ∃ tokens, parse? path = some tokens ∧ tokens ≠ [] := by
  obtain ⟨c, rest, hpath⟩ := h
  exact ⟨_, parse?_of_slash hpath, by simpa using Text.pieces_ne_nil '/' (c :: rest)⟩

theorem parse?_append {p q : String} (hp : IsProper p) (hq : IsProper q) {outer inner : List String}
    (hparse : parse? p = some outer) (hparse' : parse? q = some inner) :
    parse? (p ++ q) = some (outer ++ inner) := by
  obtain ⟨c, rest, hpath⟩ := hp
  obtain ⟨c', rest', hpath'⟩ := hq
  have happend : (p ++ q).toList = '/' :: c :: (rest ++ '/' :: c' :: rest') := by
    simp [hpath, hpath']
  rw [parse?_of_slash hpath, Option.some.injEq] at hparse
  rw [parse?_of_slash hpath', Option.some.injEq] at hparse'
  rw [parse?_of_slash happend, ← List.cons_append, Text.pieces_append, List.map_append,
    hparse, hparse']

/-! ## Positions -/

theorem lt_of_arrayIndex? {token : String} {size i : Nat} (h : arrayIndex? token size = some i) :
    i < size := by
  simp only [arrayIndex?] at h
  split at h
  next => cases h
  next =>
    split at h
    next => cases h
    next =>
      obtain ⟨-, hlt⟩ := Option.filter_eq_some_iff.mp h
      exact of_decide_eq_true hlt

end ItemStore.Pointer
