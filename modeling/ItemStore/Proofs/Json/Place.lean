import ItemStore.Json.Edit

/-!
# Writing at a place

`Json.alterAt` looks a place up and writes there in one pass. Its two halves are kept apart here:
`Json.at?` says whether there is a place, and `Json.putAt` writes to a place that is there.

- `Json.alterAt_of_at?_none`, `Json.alterAt_of_at?_some`: the one pass is the two halves in turn;
- `Json.alterAt_error`: it fails only for want of a place, or because the step does.
-/

namespace ItemStore.Json

/-- Overwrites the value at a place. A document without that place is left as it is. -/
def putAt : List String → Json → Json → Json
  | [], value, _ => value
  | token :: rest, value, v =>
    match v.child? token with
    | some c => setChild token (putAt rest value c) v
    | none => v

variable {ε : Type} {missing : ε} {step : Json → Except ε Json}

/-- Without a place there is nothing to run the step on. -/
theorem alterAt_of_at?_none {tokens : List String} {v : Json} (h : v.at? tokens = none) :
    alterAt missing step tokens v = .error missing := by
  induction tokens generalizing v with
  | nil => simp [at?] at h
  | cons token rest ih =>
    unfold alterAt
    cases hc : v.child? token with
    | none => rfl
    | some c =>
      have hrest : c.at? rest = none := by simpa [at?, hc] using h
      simp only [ih hrest]
      rfl

/-- At a place that is there, the step runs on its value and its outcome is written back. -/
theorem alterAt_of_at?_some {tokens : List String} {v c : Json} (h : v.at? tokens = some c) :
    alterAt missing step tokens v = (step c).map fun c' => putAt tokens c' v := by
  induction tokens generalizing v with
  | nil =>
    obtain rfl : v = c := by simpa [at?] using h
    unfold alterAt
    cases step v <;> rfl
  | cons token rest ih =>
    unfold alterAt putAt
    cases hc : v.child? token with
    | none => simp [at?, hc] at h
    | some d =>
      have hrest : d.at? rest = some c := by simpa [at?, hc] using h
      simp only [ih hrest]
      cases step c <;> rfl

/-- Altering fails only for want of a place, or because the step fails on the value there. -/
theorem alterAt_error {tokens : List String} {v : Json} {e : ε}
    (h : alterAt missing step tokens v = .error e) : e = missing ∨ ∃ c, step c = .error e := by
  cases hv : v.at? tokens with
  | none =>
    rw [alterAt_of_at?_none hv] at h
    left
    injection h with h
    exact h.symm
  | some c =>
    rw [alterAt_of_at?_some hv] at h
    right
    refine ⟨c, ?_⟩
    cases hs : step c with
    | ok c' => rw [hs] at h; cases h
    | error e' => rw [hs] at h; exact h

end ItemStore.Json
