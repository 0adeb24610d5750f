import ItemStore.Session.Basic

/-!
# Channels of a session

What a user does who takes channels from the pool by hand: getting one at once or in the background,
exchanging messages over it, and giving it back.
-/

namespace ItemStore.Session

variable {α : Type}

/-- Gets a channel. -/
def acquire (s : Session α) : Option (Except StoreError Channel) × Session α :=
  s.perform (.acquire .fresh) Job.acquired?

/-- Gets a channel in the background; the number of the job is returned. -/
def acquireLater (s : Session α) : Nat × Session α :=
  s.spawn (.acquire .fresh)

/-- Waits for a channel that is got in the background. -/
def join (s : Session α) (job : Nat) : Option (Except StoreError Channel) × Session α :=
  let got (s : Session α) := (s.jobs[job]?).bind Job.acquired?
  let s := s.await none none fun s => (got s).isSome
  (got s, s)

/-- Exchanges a message over a channel. What becomes of the channel is returned with the result. -/
def exchange (s : Session α) (channel : Channel) (request : Request) :
    Option (Channel × Except StoreError Response) × Session α :=
  let (x, site) := Exchange.start s.site channel request
  { s with site }.perform (.exchange x) Job.exchanged?

/-- Gives a channel back. -/
def release (s : Session α) (channel : Channel) (healthy : Bool) : Session α :=
  { s with site := s.site.release channel healthy }

/-- Drops a channel. -/
def drop (s : Session α) (channel : Channel) : Session α :=
  { s with site := s.site.drop channel }

/-- Closes the pool. -/
def close (s : Session α) : Session α :=
  { s with site := s.site.close }

end ItemStore.Session
