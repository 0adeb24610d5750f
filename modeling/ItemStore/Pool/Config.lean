import ItemStore.Error.Basic

/-!
# Limits of a pool of channels

How many channels a pool may hold, and how long it waits. Times are in milliseconds.
-/

namespace ItemStore

/-- The limits of a pool. -/
structure PoolConfig where
  /-- How many channels may be in use at once. -/
  maxChannels : Nat := 16
  /-- How many channels are kept for later use. -/
  maxIdle : Nat := 8
  /-- How long to wait for a channel. -/
  acquireTimeout : Nat := 10000
  /-- How long an idle channel stays fresh. -/
  idleTimeout : Nat := 90000
  /-- How long to wait for a connection. -/
  connectTimeout : Nat := 10000
  /-- How long a channel waits for input and output. -/
  ioTimeout : Nat := 30000
deriving DecidableEq, Repr

namespace PoolConfig

/-- Refuses limits under which no channel could ever be handed out or kept. -/
def validate (c : PoolConfig) : Except StoreError Unit :=
  if c.maxChannels = 0 then
    .error { kind := .configuration, message := "max_channels must be at least 1" }
  else if c.maxChannels < c.maxIdle then
    .error
      { kind := .configuration
        message := "max_idle (" ++ toString c.maxIdle ++ ") cannot exceed max_channels (" ++
          toString c.maxChannels ++ ")" }
  else if c.acquireTimeout = 0 then
    .error { kind := .configuration, message := "acquire_timeout must be non-zero" }
  else .ok ()

/-- Inspection text. -/
def inspect (c : PoolConfig) : String :=
  Text.record "PoolConfig"
    [("max_channels", toString c.maxChannels), ("max_idle", toString c.maxIdle),
      ("acquire_timeout", Text.duration c.acquireTimeout),
      ("idle_timeout", Text.duration c.idleTimeout),
      ("connect_timeout", Text.duration c.connectTimeout),
      ("io_timeout", Text.duration c.ioTimeout)] true

end PoolConfig

end ItemStore
