import ItemStore.Session.Job

/-!
# Sessions

A session is the common life of jobs over one site. Jobs are run one at a time in the order in which
they got a reason to look. Time stands still while there is such a job, and then jumps to the next
deadline.

- `Session.run` runs one job, `Session.runReady` all that have a reason to look;
- `Session.await` lets all this happen until a condition holds or a time has come.

One job may be the caller's own. It has no place in the line: the caller runs it first, and again
whenever the line is empty.
-/

namespace ItemStore

/-- The state of a session. Jobs and outcomes are numbered in the order of their creation. -/
structure Session (α : Type) where
  site : Site
  jobs : List (Job α) := []
  outcomes : List (Outcome α) := []
  /-- The results that were delivered, in order, each with the number of its outcome. -/
  delivered : List (Nat × Except StoreError α) := []

namespace Session

variable {α : Type}

/-- A session in which nothing has happened. -/
def start (pool : Pool) (backend : Backend) : Session α :=
  { site := { pool, backend } }

/-! ## Views -/

/-- The result of an outcome, if there is one yet. -/
def result? (s : Session α) (outcome : Nat) : Option (Except StoreError α) :=
  (s.outcomes[outcome]?).bind Outcome.slot

/-- The next time at which something happens by itself. -/
def nextTime? (s : Session α) : Option Nat :=
  (s.jobs.filterMap Job.deadline?).min?

/-! ## Running jobs -/

/-- Puts a job in the place of another one. -/
def setJob (s : Session α) (i : Nat) (job : Job α) : Session α :=
  { s with jobs := s.jobs.set i job }

/-- Resolves an outcome, unless it is resolved already, and wakes those who wait for it. -/
def resolve (s : Session α) (outcome : Nat) (result : Except StoreError α) : Session α :=
  match s.outcomes[outcome]? with
  | none => s
  | some o =>
    { s with
      outcomes := s.outcomes.set outcome
        { o with slot := (o.slot.complete result).2, watchers := [] }
      site := s.site.wake o.watchers }

/-- The result of a send, from its ending. -/
def resultOf (request : Request) (success : StatusSet) (decode : Decoder α) (e : Ending) :
    Except StoreError α :=
  match e.result with
  | .ok r => r.interpret success decode request.id
  | .error cause => .error (cause.tagged request.id)

/-- Gives back the channel that a send used, and its slot. -/
def giveBack (s : Session α) (e : Ending) : Session α :=
  match e.channel with
  | some channel => { s with site := s.site.release channel channel.isOpen }
  | none => s

/-- Lets a job look again. -/
def run (s : Session α) (i : Nat) : Session α :=
  match s.jobs[i]? with
  | none => s
  | some (.send outcome request success decode stage) =>
    let (stage, ending, site) := stage.step i request s.site
    let s := { s with site }.setJob i (.send outcome request success decode stage)
    match ending with
    | none => s
    -- those who wait for the result are woken before those who wait for the slot
    | some e => (s.resolve outcome (resultOf request success decode e)).giveBack e
  | some (.acquire a) =>
    let (a, site) := a.step i s.site
    { s with site }.setJob i (.acquire a)
  | some (.exchange x) =>
    let (x, site) := x.step s.site
    { s with site }.setJob i (.exchange x)
  | some (.deliver _ true) => s
  | some (.deliver outcome false) =>
    match s.outcomes[outcome]? with
    | none => s
    | some o =>
      match o.slot with
      | some result =>
        { s with delivered := s.delivered ++ [(outcome, result)] }.setJob i (.deliver outcome true)
      | none =>
        { s with outcomes := s.outcomes.set outcome { o with watchers := o.watchers ++ [i] } }

/-- Runs the jobs that have a reason to look until none has, except the caller's own; at most `fuel`
times. -/
def runLine (own : Option Nat) : (fuel : Nat) → Session α → Session α
  | 0, s => s
  | fuel + 1, s =>
    match s.site.ready with
    | [] => s
    | i :: rest =>
      let s := { s with site := { s.site with ready := rest } }
      runLine own fuel (if own = some i then s else s.run i)

/-- Runs all jobs that have a reason to look. A job gives others such a reason only when it frees a
slot or resolves an outcome, which each job does once, and each callback waits for one outcome; so
three times the number of jobs is enough. -/
def runReady (own : Option Nat) (s : Session α) : Session α :=
  s.runLine own (s.site.ready.length + 3 * s.jobs.length + 1)

/-! ## Time -/

/-- Lets time pass, and gives the jobs whose deadline has come a reason to look. -/
def advanceTo (s : Session α) (time : Nat) : Session α :=
  let due := (List.range s.jobs.length).filter fun i =>
    match (s.jobs[i]?).bind Job.deadline? with
    | some deadline => deadline ≤ time
    | none => false
  { s with site := ({ s.site with now := time } : Site).wake due }

/-- The earlier of two times. -/
def earlier? : Option Nat → Option Nat → Option Nat
  | some a, some b => some (min a b)
  | some a, none => some a
  | none, b => b

/-- Runs the caller's own job, if there is one. -/
def runOwn (own : Option Nat) (s : Session α) : Session α :=
  match own with
  | some i => s.run i
  | none => s

/-- Whether a time has come. -/
def isDue (s : Session α) (deadline : Option Nat) : Bool :=
  match deadline with
  | some time => time ≤ s.site.now
  | none => false

/-- Waits until a condition holds or a time has come, for at most `fuel` jumps of time. -/
def awaitFor (own deadline : Option Nat) (done : Session α → Bool) :
    (fuel : Nat) → Session α → Session α
  | 0, s => s
  | fuel + 1, s =>
    let s := s.runOwn own
    if done s || s.isDue deadline then s
    else
      -- all others first, then the caller once more before time moves
      let s := (s.runReady own).runOwn own
      if done s then s
      else match earlier? s.nextTime? deadline with
        | none => s
        | some time => awaitFor own deadline done fuel (s.advanceTo time)

/-- A bound on the number of deadlines that can come: each job waits for a slot, a connection and
the delays of a reply. -/
def horizon (s : Session α) : Nat :=
  (s.jobs.length + 1) * (s.site.backend.longestReply + 4)
    + (s.jobs.map fun job => match job with
      | .exchange (.pending _ _ _ delays _) => delays.length
      | .send _ _ _ _ (.exchanging (.pending _ _ _ delays _)) => delays.length
      | _ => 0).foldl (· + ·) 0

/-- Waits until a condition holds or a time has come. -/
def await (own deadline : Option Nat) (done : Session α → Bool) (s : Session α) : Session α :=
  s.awaitFor own deadline done s.horizon

/-! ## Jobs of the caller -/

/-- Adds a job that runs when its turn comes. -/
def spawn (s : Session α) (job : Job α) : Nat × Session α :=
  (s.jobs.length, { s with jobs := s.jobs ++ [job], site := s.site.wake [s.jobs.length] })

/-- Adds a job of the caller's own, and waits until it has a result of the wanted kind. -/
def perform {β : Type} (s : Session α) (job : Job α) (result? : Job α → Option β) :
    Option β × Session α :=
  let i := s.jobs.length
  let finished? (s : Session α) : Option β := (s.jobs[i]?).bind result?
  let s := ({ s with jobs := s.jobs ++ [job] } : Session α).await (some i) none fun s =>
    (finished? s).isSome
  (finished? s, s)

/-- Waits for some milliseconds. -/
def sleep (s : Session α) (ms : Nat) : Session α :=
  s.await none (some (s.site.now + ms)) fun _ => false

end Session

end ItemStore
