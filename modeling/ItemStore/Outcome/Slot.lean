import ItemStore.Error.Basic

/-!
# Results that arrive once

A slot holds the result of a request as soon as there is one. Only the first result that is put in
counts; one that is abandoned without a result gets an error instead.
-/

namespace ItemStore

/-- The place of a result of type `α` or an error. -/
abbrev Slot (α : Type) := Option (Except StoreError α)

namespace Slot

variable {α : Type}

/-- A slot without a result. -/
def empty : Slot α := none

/-- Whether there is a result. -/
def isResolved (s : Slot α) : Bool :=
  s.isSome

/-- Puts a result in, and tells whether it counts. -/
def complete (s : Slot α) (result : Except StoreError α) : Bool × Slot α :=
  match s with
  | some r => (false, some r)
  | none => (true, some result)

/-- The error of a request that nobody works on any more. -/
def abandonedError (id : String) : StoreError :=
  { kind := .transport, message := "request abandoned before completion", requestId := some id }

end Slot

end ItemStore
