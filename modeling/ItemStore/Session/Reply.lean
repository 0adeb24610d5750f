import ItemStore.Message.Request
import ItemStore.Message.Response
import ItemStore.Pool.Basic
import ItemStore.Text.Utf8

/-!
# Scripted replies

How a simulated service reacts to one request: it answers, breaks the channel, or refuses, perhaps
after some delays.
-/

namespace ItemStore

/-- The reaction to one request. -/
inductive Reply where
  /-- A response that tells what was asked. -/
  | echo
  | respond (response : Response)
  /-- The channel breaks. -/
  | fault (fault : StoreError.IoFault)
  /-- The exchange fails and the channel stays open. -/
  | reject (error : StoreError)
  /-- A reaction some milliseconds later. -/
  | delayed (ms : Nat) (reply : Reply)

/-- How an exchange ends, delays aside. -/
inductive Conclusion where
  | respond (response : Response)
  | fault (fault : StoreError.IoFault)
  | reject (error : StoreError)

/-- The response that tells what was asked. -/
def Request.echo (q : Request) : Response :=
  let told := Response.ofJson 200 (.ofPairs [
    ("requestId", .str q.id),
    ("method", .str q.method.text),
    ("path", .str q.url.path),
    ("query", (q.url.query.map Json.str).getD .null),
    ("body", (q.body.map fun body => Json.str (Text.decodeLossy body)).getD .null)])
  match q.headers.get? "X-Request-Id" with
  | some id => told.withHeader "X-Request-Id" id
  | none => told

namespace Reply

/-- The delays before the reaction. -/
def delays : Reply → List Nat
  | .delayed ms reply => ms :: reply.delays
  | _ => []

/-- What the reaction to a request is in the end. -/
def conclude (q : Request) : Reply → Conclusion
  | .echo => .respond q.echo
  | .respond r => .respond r
  | .fault f => .fault f
  | .reject e => .reject e
  | .delayed _ reply => reply.conclude q

end Reply

/-- What is said when a simulated channel breaks. -/
def Conclusion.faultText : String := "simulated channel fault"

/-- The result of the exchange. Errors carry the id of the request. -/
def Conclusion.result (q : Request) : Conclusion → Except StoreError Response
  | .respond r => .ok r
  | .fault f => .error ((StoreError.ofIo f faultText).withRequestId q.id)
  | .reject e => .error (e.withRequestId q.id)

/-- Whether the exchange leaves the channel open. -/
def Conclusion.keepsOpen : Conclusion → Bool
  | .fault _ => false
  | _ => true

/-- The channel after the exchange. -/
def Conclusion.leave (e : Conclusion) (c : Channel) : Channel :=
  if e.keepsOpen then c else c.closed

end ItemStore
