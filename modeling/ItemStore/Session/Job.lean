import ItemStore.Outcome.Basic
import ItemStore.Session.Site

/-!
# Jobs

What is done on behalf of users while others go on: sending a request and resolving its outcome,
getting a channel, exchanging a message over one, and delivering a result to a callback.
-/

namespace ItemStore

/-- How a send ended: the channel that it used, if it got one, and the response or the error. -/
structure Ending where
  channel : Option Channel
  result : Except StoreError Response

/-- How far a send is. -/
inductive Sending where
  | acquiring (a : Acquisition)
  | exchanging (x : Exchange)
  | finished

namespace Sending

/-- The next time at which something happens by itself. -/
def deadline? : Sending → Option Nat
  | .acquiring a => a.deadline?
  | .exchanging x => x.deadline?
  | .finished => none

/-- Goes on from an exchange. -/
def proceed : Exchange × Site → Sending × Option Ending × Site
  | (.over channel result, s) => (.finished, some ⟨some channel, result⟩, s)
  | (x, s) => (.exchanging x, none, s)

/-- Lets a send look again. It ends at most once. -/
def step (user : Nat) (request : Request) (s : Site) : Sending → Sending × Option Ending × Site
  | .acquiring a =>
    match a.step user s with
    | (.settled (.error e), s) => (.finished, some ⟨none, .error e⟩, s)
    | (.settled (.ok channel), s) => proceed (Exchange.start s channel request)
    | (a, s) => (.acquiring a, none, s)
  | .exchanging x => proceed (x.step s)
  | .finished => (.finished, none, s)

end Sending

/-- What is done on behalf of a user. -/
inductive Job (α : Type) where
  /-- A request is sent, and an outcome resolved. -/
  | send (outcome : Nat) (request : Request) (success : StatusSet) (decode : Decoder α)
      (stage : Sending)
  /-- A channel is got. -/
  | acquire (a : Acquisition)
  /-- A message is exchanged. -/
  | exchange (x : Exchange)
  /-- The result of an outcome is delivered. -/
  | deliver (outcome : Nat) (delivered : Bool)

namespace Job

variable {α : Type}

/-- The next time at which something happens by itself. -/
def deadline? : Job α → Option Nat
  | .send _ _ _ _ stage => stage.deadline?
  | .acquire a => a.deadline?
  | .exchange x => x.deadline?
  | .deliver _ _ => none

/-- The channel that was got, or why there is none, once that is known. -/
def acquired? : Job α → Option (Except StoreError Channel)
  | .acquire (.settled result) => some result
  | _ => none

/-- What an exchange leaves, once it is over. -/
def exchanged? : Job α → Option (Channel × Except StoreError Response)
  | .exchange (.over channel result) => some (channel, result)
  | _ => none

end Job

end ItemStore
