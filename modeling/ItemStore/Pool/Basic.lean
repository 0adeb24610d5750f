import ItemStore.Pool.Config
import ItemStore.Request.Endpoint

/-!
# Pools of channels

A pool bounds how many channels are in use. A user first takes one of the pool's slots, then a
channel that lies idle or a new one, and gives both back in the end. Users who find no slot free
wait in line.

- `Pool.enter` and `Pool.claim` are about slots: the first asks for one, the second asks again after
  waiting;
- `Pool.takeIdle`, `Pool.putBack` and `Pool.retire` are about channels: every channel is idle, in
  the hands of a user, or retired.

The clock by which idle channels grow stale is the pool's own.
-/

namespace ItemStore

/-- A connection to a service. It carries one exchange at a time. -/
structure Channel where
  /-- Tells channels of one service apart. -/
  serial : Nat
  isOpen : Bool
deriving DecidableEq, Repr

/-- The channel after it was closed. -/
def Channel.closed (c : Channel) : Channel := { c with isOpen := false }

/-- Inspection text of a channel that is in use. -/
def Channel.inspect (c : Channel) : String :=
  Text.record "PooledChannel" [("open", Text.flag c.isOpen)] false

/-- A channel that waits for a user. -/
structure IdleChannel where
  channel : Channel
  /-- When it was put back. -/
  since : Nat
deriving DecidableEq, Repr

/-- The state of a pool. Users are told apart by numbers. -/
structure Pool where
  endpoint : Endpoint
  config : PoolConfig
  /-- How many slots nobody holds. -/
  free : Nat
  /-- The users who wait for a slot, the first in line first. -/
  waiting : List Nat := []
  /-- The users who were given a slot while they waited and do not know it yet. -/
  granted : List Nat := []
  /-- The channels that can be used again, the latest first. -/
  idle : List IdleChannel := []
  /-- The channels that were given up, the latest first. -/
  retired : List Channel := []
  /-- How many channels were opened. -/
  opened : Nat := 0
  /-- How often an idle channel was used again. -/
  reused : Nat := 0
  /-- How many users gave up waiting. -/
  acquireTimeouts : Nat := 0
  isClosed : Bool := false
  clock : Nat := 0
deriving DecidableEq, Repr

/-- What a pool reports about itself. -/
structure PoolStats where
  maxChannels : Nat
  inUse : Nat
  idle : Nat
  opened : Nat
  closed : Nat
  reused : Nat
  acquireTimeouts : Nat
deriving DecidableEq, Repr

/-- Inspection text. -/
def PoolStats.inspect (s : PoolStats) : String :=
  Text.record "PoolStats"
    [("max_channels", toString s.maxChannels), ("in_use", toString s.inUse),
      ("idle", toString s.idle),
      ("opened", toString s.opened), ("closed", toString s.closed), ("reused", toString s.reused),
      ("acquire_timeouts", toString s.acquireTimeouts)] true

namespace Pool

/-- An empty pool, if the limits are acceptable. -/
def new (endpoint : Endpoint) (config : PoolConfig) : Except StoreError Pool :=
  config.validate.map fun _ => { endpoint, config, free := config.maxChannels }

/-! ## Views -/

/-- How many slots are held. -/
def inUse (p : Pool) : Nat :=
  p.config.maxChannels - p.free

/-- What the pool reports about itself. -/
def stats (p : Pool) : PoolStats :=
  ⟨p.config.maxChannels, p.inUse, p.idle.length, p.opened, p.retired.length, p.reused,
    p.acquireTimeouts⟩

/-- Inspection text. -/
def inspect (p : Pool) : String :=
  Text.record "ChannelPool"
    [("endpoint", Text.quoted p.endpoint.text), ("stats", p.stats.inspect)] false

/-- The error of a user who comes to a closed pool. -/
def closedError : StoreError :=
  { kind := .channelUnavailable, message := "channel pool is closed" }

/-- The error of a user who waited in vain. -/
def exhaustedError (p : Pool) : StoreError :=
  { kind := .channelUnavailable
    message := "no channel became available within " ++ Text.duration p.config.acquireTimeout }

/-- The error of a user whose connection was not made in time. -/
def connectError (p : Pool) : StoreError :=
  { kind := .transport
    message := "connecting to " ++ p.endpoint.text ++ " timed out after " ++
      Text.duration p.config.connectTimeout }

/-! ## Slots -/

/-- How a request for a slot stands. -/
inductive Admission where
  /-- The slot is the user's. -/
  | admitted
  /-- The user waits in line. -/
  | queued
  /-- The user waited too long and has left the line. -/
  | expired
  /-- The pool is closed. -/
  | refused
deriving DecidableEq, Repr

/-- Asks for a slot. -/
def enter (p : Pool) (user : Nat) : Admission × Pool :=
  if p.isClosed then (.refused, p)
  else if 0 < p.free then (.admitted, { p with free := p.free - 1 })
  else (.queued, { p with waiting := p.waiting ++ [user] })

/-- Asks again after waiting. A closed pool takes back even a slot that was given already. -/
def claim (p : Pool) (user : Nat) (tooLate : Bool) : Admission × Pool :=
  if p.isClosed then
    -- the slot that was given goes back to the free ones, since nobody waits any more
    if user ∈ p.granted then
      (.refused, { p with granted := p.granted.erase user, free := p.free + 1 })
    else (.refused, p)
  else if user ∈ p.granted then (.admitted, { p with granted := p.granted.erase user })
  else if tooLate then
    (.expired, { p with waiting := p.waiting.erase user, acquireTimeouts := p.acquireTimeouts + 1 })
  else (.queued, p)

/-- Gives a slot back. It goes to the first in line, who is returned. -/
def freeSlot (p : Pool) : Option Nat × Pool :=
  match p.waiting with
  | [] => (none, { p with free := p.free + 1 })
  | user :: rest => (some user, { p with waiting := rest, granted := p.granted ++ [user] })

/-! ## Channels -/

/-- Gives a channel up. -/
def retire (p : Pool) (c : Channel) : Pool :=
  { p with retired := c.closed :: p.retired }

/-- Whether an idle channel can be used again. -/
def isFresh (p : Pool) (i : IdleChannel) : Bool :=
  i.channel.isOpen && p.clock - i.since < p.config.idleTimeout

/-- Takes the latest idle channel that can be used again. Those passed over are given up. -/
def takeIdle (p : Pool) : Option Channel × Pool :=
  let stale := p.idle.takeWhile fun i => !p.isFresh i
  let retired := (stale.map fun i => i.channel.closed).reverse ++ p.retired
  match p.idle.dropWhile fun i => !p.isFresh i with
  | [] => (none, { p with idle := [], retired })
  | i :: rest => (some i.channel, { p with idle := rest, retired, reused := p.reused + 1 })

/-- Counts a channel that was opened. -/
def countOpened (p : Pool) : Pool :=
  { p with opened := p.opened + 1 }

/-- Takes a channel back. It lies idle if it can be used again and there is room. -/
def putBack (p : Pool) (c : Channel) (healthy : Bool) : Pool :=
  if healthy && c.isOpen && !p.isClosed && p.idle.length < p.config.maxIdle then
    { p with idle := ⟨c, p.clock⟩ :: p.idle }
  else p.retire c

/-- Takes a channel and its slot back. -/
def release (p : Pool) (c : Channel) (healthy : Bool) : Option Nat × Pool :=
  (p.putBack c healthy).freeSlot

/-- Closes the pool: idle channels are given up and nobody waits any more. Those who waited are
returned. -/
def close (p : Pool) : List Nat × Pool :=
  (p.waiting,
    { p with
      isClosed := true
      waiting := []
      idle := []
      retired := (p.idle.map fun i => i.channel.closed).reverse ++ p.retired })

/-- Lets time pass for idle channels. -/
def elapse (p : Pool) (ms : Nat) : Pool :=
  { p with clock := p.clock + ms }

end Pool

end ItemStore
