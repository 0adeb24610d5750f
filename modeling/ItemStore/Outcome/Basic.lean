import ItemStore.Client.Basic
import ItemStore.Outcome.Slot
import ItemStore.Verdict.Interpret

/-!
# Outcomes

An outcome stands for the result of a request, which may still be on its way. The outcome of a paged
request also knows how to ask for the page behind a link.
-/

namespace ItemStore

/-- What it takes to ask for a further page: the client, the envelope that asked for the first one,
and the decoder. -/
structure Pager (α : Type) where
  client : Client
  template : Envelope
  decode : Decoder α

/-- The result of a request, or the place where it will be. -/
structure Outcome (α : Type) where
  slot : Slot α
  /-- The id of the request; empty if there was none. -/
  requestId : String
  pager : Option (Pager α)
  /-- Those who wait for the result, in the order in which they came. -/
  watchers : List Nat := []

namespace Outcome

variable {α : Type}

/-- The outcome of a request that is on its way. -/
def pending (requestId : String) (pager : Option (Pager α)) : Outcome α :=
  { slot := .empty, requestId, pager }

/-- An outcome with a result from the start. -/
def ready (result : Except StoreError α) : Outcome α :=
  { slot := some result
    requestId := match result with
      | .error e => e.requestId.getD ""
      | .ok _ => ""
    pager := none }

/-- The outcome of a request that is sent where nothing can carry it out. -/
def stranded (requestId : String) : Outcome α :=
  .ready (.error
    { kind := .configuration
      message := "requests must be sent from within a Tokio runtime"
      requestId := some requestId })

/-- The error of waiting too long for the result. -/
def timeoutError (o : Outcome α) (ms : Nat) : StoreError :=
  { kind := .timeout
    message := "no result within " ++ Text.duration ms
    requestId := if o.requestId = "" then none else some o.requestId }

/-- The error of asking for a further page where the request was not paged. -/
def notPagedError : StoreError :=
  { kind := .invalidArgument,
    message := "outcome was not created by a paged send and cannot follow links" }

/-- Inspection text. -/
def inspect (o : Outcome α) : String :=
  Text.record "Outcome"
    [("request_id", Text.quoted o.requestId), ("resolved", Text.flag o.slot.isResolved),
      ("paged", Text.flag o.pager.isSome)] true

end Outcome

end ItemStore
