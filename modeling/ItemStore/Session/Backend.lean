import ItemStore.Server.Handle
import ItemStore.Session.Reply

/-!
# Simulated services

A service at the other end of the channels: either a server with a store, or a script of replies. It
counts connections, keeps a journal of what it received, and can be told to refuse connections.
-/

namespace ItemStore

/-- Who answers. -/
inductive Behaviour where
  /-- The server. -/
  | serve
  /-- Replies in turn; the last one is repeated. -/
  | script (first : Reply) (rest : List Reply)

/-- A simulated service. -/
structure Backend where
  behaviour : Behaviour
  server : Server
  /-- The reference that the server gives to incidents. -/
  locator : String
  /-- How long a connection takes. -/
  connectDelay : Nat := 0
  /-- The error in which connections end, if they do. -/
  connectFailure : Option StoreError := none
  /-- How many connections were made. -/
  connects : Nat := 0
  /-- What was received, in order, and how each exchange ends. -/
  journal : List (Request × Conclusion) := []
  /-- How many exchanges are going on. -/
  inFlight : Nat := 0
  /-- The highest number of exchanges that went on at once. -/
  maxInFlight : Nat := 0

namespace Backend

/-- The requests that were received, in order. -/
def requests (b : Backend) : List Request :=
  b.journal.map Prod.fst

/-- How many exchanges were started. -/
def exchanges (b : Backend) : Nat :=
  b.journal.length

/-- Inspection text. -/
def inspect (b : Backend) : String :=
  Text.record "MockConnector"
    [("connects", toString b.connects), ("exchanges", toString b.exchanges)] false

/-- Makes a connection. -/
def connect (b : Backend) : Except StoreError Channel × Backend :=
  match b.connectFailure with
  | some e => (.error e, b)
  | none => (.ok ⟨b.connects, true⟩, { b with connects := b.connects + 1 })

/-- The reply to a request. -/
def react (b : Backend) (q : Request) : Reply × Backend :=
  match b.behaviour with
  | .serve =>
    let (r, server) := b.server.handle b.locator q
    (.respond r, { b with server })
  | .script first [] => (first, b)
  | .script first (second :: rest) => (first, { b with behaviour := .script second rest })

/-- Receives a request: how long the answer takes, in steps, and what it is. -/
def receive (b : Backend) (q : Request) : (List Nat × Conclusion) × Backend :=
  let (reply, b) := b.react q
  let conclusion := reply.conclude q
  ((reply.delays, conclusion),
    { b with
      journal := b.journal ++ [(q, conclusion)]
      inFlight := b.inFlight + 1
      maxInFlight := max b.maxInFlight (b.inFlight + 1) })

/-- Ends an exchange. -/
def finish (b : Backend) : Backend :=
  { b with inFlight := b.inFlight - 1 }

/-- Gives the same reply from now on. -/
def always (b : Backend) (reply : Reply) : Backend :=
  { b with behaviour := .script reply [] }

/-- The highest number of delays in a row that a reply can have. -/
def longestReply (b : Backend) : Nat :=
  match b.behaviour with
  | .serve => 0
  | .script first rest => (first :: rest).foldl (fun n reply => max n reply.delays.length) 0

end Backend

end ItemStore
