import ItemStore.Proofs.Json.Insertion
import ItemStore.Proofs.Patch.Move

/-!
# Additions by operations

Four operations add a value: `add` and `init` carry it, `copy` takes it from another place, and so
does `move`, which removes it there first. `PatchOp.Adds` names the value and the document that it
is added to, and `PatchOp.exists_adds_of_run` says that these operations do nothing else. So what
they write is found at their path (`PatchOp.written_is_found`).
-/

namespace ItemStore.PatchOp

/-- The operation adds a value if it succeeds on `v`: an addition, a copy, a move to another text
than that of its source, or an initialisation of a place where nothing is. -/
def IsAddition (v : Json) : PatchOp → Prop
  | .add .. | .copy .. => True
  | .move source path => source ≠ path
  | .init path _ => target? path v = none
  | _ => False

/-- On `v` the operation adds the value `x` to the document `base`. -/
inductive Adds : PatchOp → Json → Json → Json → Prop where
  /-- An addition adds its value. -/
  | add {path : String} {x v : Json} : Adds (.add path x) v x v
  /-- A copy adds what its source holds. -/
  | copy {source path : String} {x v : Json} (held : target? source v = some x) : Adds
      (.copy source path) v x v
  /-- A move adds what its source holds to what is left without it. -/
  | move {source path : String} {x v base : Json} (held : target? source v = some x)
      (removed : (PatchOp.remove source).run v = .ok base) : Adds (.move source path) v x base
  /-- An initialisation adds its value. -/
  | init {path : String} {x v : Json} : Adds (.init path x) v x v

variable {op : PatchOp} {path source : String} {v w x : Json} {tokens : List String}

/-! ## Single operations -/

theorem addAt_eq_ok_iff :
    addAt path x v = .ok w ↔ ∃ tokens, Pointer.parse? path = some tokens ∧
    Json.insertAt tokens x v = .ok w := by
  rw [addAt, tokensOf]
  cases Pointer.parse? path with
  | none => simp [bind, Except.bind]
  | some tokens => simp [bind, Except.bind]

theorem run_remove_eq_ok_iff :
    (remove path).run v = .ok w ↔ ∃ tokens x, Pointer.parse? path = some tokens ∧
    v.removeAt tokens = .ok (x, w) := by
  rw [run_eq_runLeaf (by simp), mapError_eq_ok_iff, runLeaf, tokensOf]
  cases Pointer.parse? path with
  | none => simp [bind, Except.bind]
  | some tokens =>
    cases hremoved : v.removeAt tokens with
    | error e => simp [bind, Except.bind, hremoved]
    | ok removed => simp [bind, Except.bind, hremoved, pure, Except.pure, Prod.ext_iff]

/-- An initialisation of a place where something is does nothing, and another one is an addition. -/
theorem run_init (hpath : Pointer.parse? path = some tokens) (x v : Json) :
    (init path x).run v =
      if (v.at? tokens).isSome then .ok v
        else (Json.insertAt tokens x v).mapError fun e => ⟨[], .edit e⟩ := by
  rw [run_eq_runLeaf (by simp), runLeaf, tokensOf_eq_ok_iff.mpr hpath]
  change Except.mapError _
    (if (v.at? tokens).isSome then Except.ok v
      else (Json.insertAt tokens x v).mapError Obstacle.edit) = _
  split
  · rfl
  · cases Json.insertAt tokens x v <;> rfl

/-- **Operations that add**: an operation of the four that succeeds has added its value at its
path. -/
theorem exists_adds_of_run (hop : op.IsAddition v) (h : op.run v = .ok w) :
    ∃ x base tokens, op.Adds v x base ∧ Pointer.parse? op.path = some tokens ∧
    Json.insertAt tokens x base = .ok w := by
  cases op with
  | add path x =>
    rw [run_eq_runLeaf (by simp), mapError_eq_ok_iff] at h
    obtain ⟨tokens, hpath, hadded⟩ := addAt_eq_ok_iff.mp h
    exact ⟨x, v, tokens, .add, hpath, hadded⟩
  | copy source path =>
    rw [run_eq_runLeaf (by simp), mapError_eq_ok_iff] at h
    obtain ⟨outer, houter, h⟩ := exists_of_bind_eq_ok h
    obtain ⟨x, hx, h⟩ := exists_of_bind_eq_ok h
    obtain ⟨tokens, hpath, hadded⟩ := addAt_eq_ok_iff.mp h
    have hheld : target? source v = some x :=
      target?_eq_some_iff.mpr ⟨outer, houter, valueAt_eq_ok_iff.mp hx⟩
    exact ⟨x, v, tokens, .copy hheld, hpath, hadded⟩
  | move source path =>
    rcases run_move_eq_ok_iff.mp h with
      ⟨hself, -⟩ | ⟨-, -, outer, tokens, x, base, hsource, hpath, hremoved, hadded⟩
    · exact absurd hself hop
    · have hheld : target? source v = some x :=
        target?_eq_some_iff.mpr
          ⟨outer, tokensOf_eq_ok_iff.mpr hsource, Json.at?_of_removeAt hremoved⟩
      have hbase : (PatchOp.remove source).run v = .ok base :=
        run_remove_eq_ok_iff.mpr ⟨outer, x, hsource, hremoved⟩
      exact ⟨x, base, tokens, .move hheld hbase, hpath, hadded⟩
  | init path x =>
    cases hpath : Pointer.parse? path with
    | none =>
      rw [run_eq_runLeaf (by simp), mapError_eq_ok_iff, runLeaf, tokensOf, hpath] at h
      cases h
    | some tokens =>
      have habsent : v.at? tokens = none := by
        have hnone : target? path v = none := hop
        rwa [target?, hpath, Option.bind_some] at hnone
      rw [run_init hpath, habsent] at h
      exact ⟨x, v, tokens, .init, hpath, mapError_eq_ok_iff.mp h⟩
  | _ => exact hop.elim

/-! ## What is written -/

/-- **What is written is found**: an operation of the four that succeeds has added its value to the
document, or a move to what the removal of its source has left of it; in particular the value is
found at the path, unless the path ends in a dash that stands for the place behind the last element
of an array. So an initialisation can be repeated and then does nothing, with the same exception. -/
theorem written_is_found (h : op.run v = .ok w) :
    (op.IsAddition v →
      ∃ x base tokens, op.Adds v x base ∧ Pointer.parse? op.path = some tokens ∧
      Json.Added tokens x base w) ∧
      ∀ path x tokens, op = .init path x → Pointer.parse? path = some tokens →
      ¬Json.AppendsAt tokens v →
        op.run w = .ok w := by
  constructor
  · intro hop
    obtain ⟨x, base, tokens, hadds, hpath, hadded⟩ := exists_adds_of_run hop h
    exact ⟨x, base, tokens, hadds, hpath, Json.added_of_insertAt hadded⟩
  · rintro path x tokens rfl hpath hdash
    rw [run_init hpath] at h ⊢
    -- whether or not something was there before, something is there now
    suffices hfound : (w.at? tokens).isSome = true from if_pos hfound
    split at h
    next hpresent =>
      cases h
      exact hpresent
    next =>
      have hadded := Json.added_of_insertAt (mapError_eq_ok_iff.mp h)
      exact Option.isSome_of_eq_some (hadded.found hdash)

/-- A move inside one array, which shifts its place, and an initialisation of a member whose key is
a dash. -/
theorem written_is_found_of_move_and_init :
    let v : Json := .obj [("l", .arr [.ofNat 1, .ofNat 2, .ofNat 3]), ("o", .obj [])]
    let v' : Json := .obj [("l", .arr [.ofNat 2, .ofNat 3, .ofNat 1]), ("o", .obj [])]
    let w : Json := .obj [("l", .arr [.ofNat 1, .ofNat 2, .ofNat 3]), ("o", .obj [("-", .null)])]
    ((move "/l/0" "/l/2").run v = .ok v' ∧
        ∃ x base tokens, (move "/l/0" "/l/2").Adds v x base ∧ Pointer.parse? "/l/2" = some tokens ∧
          Json.Added tokens x base v') ∧
      (init "/o/-" .null).run v = .ok w ∧ (init "/o/-" .null).run w = .ok w := by
  intro v v' w
  have hmoved : (move "/l/0" "/l/2").run v = .ok v' := rfl
  have hinit : (init "/o/-" .null).run v = .ok w := rfl
  have hdash : ¬Json.AppendsAt (["o"] ++ ["-"]) v := by
    rintro ⟨front, items, htokens, harray⟩
    obtain ⟨rfl, -⟩ := List.append_inj' htokens rfl
    cases harray
  have hmove : (move "/l/0" "/l/2").IsAddition v := by
    show "/l/0" ≠ "/l/2"
    decide
  exact ⟨⟨hmoved, (written_is_found hmoved).1 hmove⟩, hinit,
    (written_is_found hinit).2 "/o/-" .null _ rfl rfl hdash⟩

end ItemStore.PatchOp
