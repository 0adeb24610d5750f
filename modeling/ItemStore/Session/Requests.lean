import ItemStore.Page
import ItemStore.Session.Basic

/-!
# Requests of a session

What a client does with a session: it sends envelopes, waits for outcomes, asks for callbacks, and
follows the links from page to page.

- `Session.next` asks for the page behind an outcome;
- `Session.pages` is the stream of an outcome's page and all behind it, of which each page is asked
  for before the one before it is handed out.
-/

namespace ItemStore

namespace Session

variable {α : Type}

/-! ## Sending -/

/-- Adds an outcome. -/
def addOutcome (s : Session α) (o : Outcome α) : Nat × Session α :=
  (s.outcomes.length, { s with outcomes := s.outcomes ++ [o] })

/-- Sends an envelope; the number of the outcome is returned. -/
def dispatch (s : Session α) (client : Client) (e : Envelope) (decode : Decoder α)
    (pager : Option (Pager α)) (id : String) : Nat × Session α :=
  let (outcome, s) := s.addOutcome (.pending id pager)
  (outcome, (s.spawn (.send outcome (client.request e id) e.success decode (.acquiring .fresh))).2)

/-- Sends an envelope. -/
def send (s : Session α) (client : Client) (e : Envelope) (decode : Decoder α) (id : String) :
    Nat × Session α :=
  s.dispatch client e decode none id

/-- Sends an envelope whose result can link to a further page. -/
def sendPaged (s : Session α) (client : Client) (e : Envelope) (decode : Decoder α) (id : String) :
    Nat × Session α :=
  s.dispatch client e decode (some ⟨client, e, decode⟩) id

/-! ## Waiting -/

/-- Waits for a result, at most for some milliseconds if they are given. -/
def wait (s : Session α) (outcome : Nat) (limit : Option Nat) :
    Option (Except StoreError α) × Session α :=
  let s' := s.await none (limit.map (s.site.now + ·)) fun s => (s.result? outcome).isSome
  (s'.result? outcome, s')

/-- The result, or the error of having waited too long for it. -/
def orTimeout (s : Session α) (outcome ms : Nat) : Option (Except StoreError α) :=
  (s.outcomes[outcome]?).map fun o => match o.slot with
    | some result => result
    | none => .error (o.timeoutError ms)

/-- Waits for a result at most for some milliseconds. -/
def waitAtMost (s : Session α) (outcome ms : Nat) : Option (Except StoreError α) × Session α :=
  let (_, s) := s.wait outcome (some ms)
  (s.orTimeout outcome ms, s)

/-- Has the result of an outcome delivered when there is one. -/
def onComplete (s : Session α) (outcome : Nat) : Session α :=
  (s.spawn (.deliver outcome false)).2

/-- Takes the results that were delivered. -/
def takeDelivered (s : Session α) : List (Nat × Except StoreError α) × Session α :=
  (s.delivered, { s with delivered := [] })

/-! ## Pages -/

variable [Paginated α]

/-- Asks for the page behind a link. -/
def follow (s : Session α) (pager : Pager α) (link id : String) :
    Except StoreError Nat × Session α :=
  match pager.template.follow link with
  | .error e => (.error e, s)
  | .ok e =>
    let (outcome, s) := s.dispatch pager.client e pager.decode (some pager) id
    (.ok outcome, s)

/-- Waits for an outcome and asks for the page behind it, if there is one. The request gets the id
that is given. -/
def next (s : Session α) (outcome : Nat) (id : String) :
    Except StoreError (Option Nat) × Session α :=
  let (result, s) := s.wait outcome none
  match result with
  | none => (.ok none, s)
  | some (.error e) => (.error e, s)
  | some (.ok page) =>
    match Paginated.nextLink page with
    | none => (.ok none, s)
    | some link =>
      match (s.outcomes[outcome]?).bind Outcome.pager with
      | none => (.error Outcome.notPagedError, s)
      | some pager =>
        let (following, s) := s.follow pager link id
        (following.map some, s)

/-- What a stream of pages yields next. -/
inductive PageStream where
  /-- The page of an outcome. -/
  | at (outcome : Nat)
  /-- An error, and then nothing. -/
  | failing (e : StoreError)
  /-- Nothing. -/
  | ended

/-- Takes one item from a stream of pages. A page that is asked for gets the id that is given. -/
def takePage (s : Session α) (id : String) :
    PageStream → Option (Except StoreError α × PageStream) × Session α
  | .ended => (none, s)
  | .failing e => (some (.error e, .ended), s)
  | .at outcome =>
    let (result, s) := s.wait outcome none
    match result with
    | none => (none, s)
    | some (.error e) => (some (.error e, .ended), s)
    | some (.ok page) =>
      let (following, s) := s.next outcome id
      let rest := match following with
        | .ok (some outcome) => .at outcome
        | .ok none => .ended
        | .error e => .failing e
      (some (.ok page, rest), s)

/-- Takes at most `limit` items from a stream of pages. The request asked for with the item number
`k` gets the id `idOf k`. -/
def takePages (idOf : Nat → String) :
    (limit : Nat) → PageStream → Session α → List (Except StoreError α) × Session α
  | 0, _, s => ([], s)
  | limit + 1, stream, s =>
    match s.takePage (idOf 0) stream with
    | (none, s) => ([], s)
    | (some (item, rest), s) =>
      let (items, s) := takePages (fun k => idOf (k + 1)) limit rest s
      (item :: items, s)

/-- The page of an outcome and all pages behind it, at most `limit`. -/
def pages (s : Session α) (outcome : Nat) (idOf : Nat → String) (limit : Nat) :
    List (Except StoreError α) × Session α :=
  takePages idOf limit (.at outcome) s

end Session

end ItemStore
