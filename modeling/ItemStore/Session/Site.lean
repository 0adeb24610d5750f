import ItemStore.Session.Backend

/-!
# Channels over time

The steps by which a user gets a channel and exchanges a message over it, each step taken when the
user has a reason to look again: a slot was given, a connection was made, a time has come.

- A `Site` is what all users share: the pool, the service, the clock, and the line of users who have
  a reason to look;
- `Acquisition.step` takes a user from asking for a slot to holding a channel;
- `Exchange.step` takes a request from the channel to the end of its exchange.

Both leave a user who has no reason to look where he is, so that looking too often does no harm.
-/

namespace ItemStore

/-- What all users of a pool share. -/
structure Site where
  pool : Pool
  backend : Backend
  /-- The time in milliseconds. -/
  now : Nat := 0
  /-- The users who have a reason to look again, in the order in which they got it. -/
  ready : List Nat := []

namespace Site

/-- Gives users a reason to look again. -/
def wake (s : Site) (users : List Nat) : Site :=
  { s with ready := s.ready ++ users }

/-- Gives a slot back. -/
def freeSlot (s : Site) : Site :=
  let (next, pool) := s.pool.freeSlot
  ({ s with pool } : Site).wake next.toList

/-- Takes a channel and its slot back. -/
def release (s : Site) (c : Channel) (healthy : Bool) : Site :=
  ({ s with pool := s.pool.putBack c healthy } : Site).freeSlot

/-- Takes a channel back that its user dropped: it is given up, and its slot is free. -/
def drop (s : Site) (c : Channel) : Site :=
  ({ s with pool := s.pool.retire c } : Site).freeSlot

/-- Closes the pool. -/
def close (s : Site) : Site :=
  let (users, pool) := s.pool.close
  ({ s with pool } : Site).wake users

end Site

/-! ## Getting a channel -/

/-- How far a user is on the way to a channel. -/
inductive Acquisition where
  /-- The user has not asked yet. -/
  | fresh
  /-- The user waits for a slot. -/
  | queued (deadline : Nat)
  /-- The user holds a slot and waits for a connection. -/
  | connecting (arrival deadline : Nat)
  /-- The user holds a channel and a slot, or has neither. -/
  | settled (result : Except StoreError Channel)

namespace Acquisition

/-- The next time at which something happens by itself. -/
def deadline? : Acquisition → Option Nat
  | .queued deadline => some deadline
  | .connecting arrival deadline => some (min arrival deadline)
  | _ => none

/-- Gives the slot back and ends in an error. -/
def fail (s : Site) (e : StoreError) : Acquisition × Site :=
  (.settled (.error e), s.freeSlot)

/-- Waits for a connection, with a slot in hand. -/
def connect (s : Site) (arrival deadline : Nat) : Acquisition × Site :=
  -- a connection that arrives just in time counts
  if arrival ≤ s.now then
    match s.backend.connect with
    | (.ok channel, backend) =>
      (.settled (.ok channel), { s with backend, pool := s.pool.countOpened })
    | (.error e, backend) => fail { s with backend } e
  else if deadline ≤ s.now then fail s s.pool.connectError
  else (.connecting arrival deadline, s)

/-- Takes an idle channel or opens a new one, with a slot in hand. -/
def checkOut (s : Site) : Acquisition × Site :=
  match s.pool.takeIdle with
  | (some channel, pool) => (.settled (.ok channel), { s with pool })
  | (none, pool) =>
    connect { s with pool } (s.now + s.backend.connectDelay) (s.now + s.pool.config.connectTimeout)

/-- Goes on from an answer about a slot; `deadline` is how long a user in line will wait. -/
def proceed (s : Site) (deadline : Nat) : Pool.Admission → Acquisition × Site
  | .admitted => checkOut s
  | .queued => (.queued deadline, s)
  | .expired => (.settled (.error s.pool.exhaustedError), s)
  | .refused => (.settled (.error Pool.closedError), s)

/-- Lets a user look again. -/
def step (user : Nat) (s : Site) : Acquisition → Acquisition × Site
  | .fresh =>
    let (admission, pool) := s.pool.enter user
    proceed { s with pool } (s.now + s.pool.config.acquireTimeout) admission
  | .queued deadline =>
    let (admission, pool) := s.pool.claim user (deadline ≤ s.now)
    proceed { s with pool } deadline admission
  | .connecting arrival deadline => connect s arrival deadline
  | .settled result => (.settled result, s)

end Acquisition

/-! ## Exchanging a message -/

/-- How far an exchange is. -/
inductive Exchange where
  /-- The service works on the answer. -/
  | pending (channel : Channel) (request : Request) (wakeAt : Nat) (delays : List Nat)
      (conclusion : Conclusion)
  /-- The exchange is over and leaves the channel. -/
  | over (channel : Channel) (result : Except StoreError Response)

namespace Exchange

/-- The error of an exchange over a closed channel. -/
def closedError : StoreError :=
  { kind := .transport, message := "channel is closed" }

/-- The next time at which something happens by itself. -/
def deadline? : Exchange → Option Nat
  | .pending _ _ wakeAt _ _ => some wakeAt
  | .over _ _ => none

/-- Goes through the delays, each counted from the end of the one before: what is left of them, or
none if all are over. -/
def wait (now : Nat) : (wakeAt : Nat) → (delays : List Nat) → Option (Nat × List Nat)
  | wakeAt, [] => if wakeAt ≤ now then none else some (wakeAt, [])
  | wakeAt, ms :: delays =>
    if wakeAt ≤ now then wait now (now + ms) delays else some (wakeAt, ms :: delays)

/-- Lets an exchange look again. -/
def step (s : Site) : Exchange → Exchange × Site
  | .pending channel request wakeAt delays conclusion =>
    match wait s.now wakeAt delays with
    | some (wakeAt, delays) => (.pending channel request wakeAt delays conclusion, s)
    | none =>
      (.over (conclusion.leave channel) (conclusion.result request),
        { s with backend := s.backend.finish })
  | .over channel result => (.over channel result, s)

/-- Starts an exchange. Nothing is sent over a closed channel. -/
def start (s : Site) (channel : Channel) (request : Request) : Exchange × Site :=
  if channel.isOpen then
    let ((delays, conclusion), backend) := s.backend.receive request
    step { s with backend } (.pending channel request s.now delays conclusion)
  else (.over channel (.error closedError), s)

end Exchange

end ItemStore
