import ItemStore.Proofs.Pool.Users
import ItemStore.Proofs.Session.Look
import ItemStore.Session.Channels

/-!
# Sends side by side

Any number of requests are sent over one session, in any order and at any pace, while the service
behaves as it likes, time passes, and the pool is closed at some time. A chronicle follows such a
session and keeps a ledger of who was handed which channel and who made which exchange.

## Architecture

- `Move` is what can happen, `Chronicle.run` lets a list of moves happen;
- `Standing` says how the stage of a send and its record in the ledger go together, and
  `Standing.looked` that a look keeps this so;
- `Sending.Looked.custody` says the same of the books of the pool;
- `Chronicle.Sound` is the invariant. A move is a new send, a look, or a change of the site, and
  there is a lemma for each: `Sound.send`, `Sound.look` and `Sound.atSite`.
-/

namespace ItemStore

/-! ## Moves -/

/-- What can happen in a session whose users only send requests. -/
inductive Move (α : Type) where
  | send (client : Client) (e : Envelope) (decode : Decoder α) (pager : Option (Pager α))
      (id : String)
  /-- A send looks, whether it has a reason or not. -/
  | look (i : Nat)
  /-- The first in line looks. -/
  | turn
  /-- Time passes for sends. -/
  | pass (ms : Nat)
  /-- Time passes for idle channels. -/
  | elapse (ms : Nat)
  | close
  /-- The service behaves in another way from now on, so that it can reply to each request as it
  likes. -/
  | service (backend : Backend)

/-- A session with a ledger. Sends are numbered in the order in which they came. -/
structure Chronicle (α : Type) where
  session : Session α
  /-- The channels that were handed out, each with the number of the send that got it. -/
  handed : List (Nat × Channel) := []
  /-- The requests that went over a channel, with the end of the exchange and the number of the
  send. -/
  exchanged : List (Nat × Request × Conclusion) := []

/-- What is known of one send: its result, the channels that it got, and the exchanges that it
made. -/
structure Record (α : Type) where
  result : Option (Except StoreError α)
  handed : List Channel
  exchanged : List (Request × Conclusion)

/-- What is on record under a number. -/
def ofNumber {β : Type} (i : Nat) (entries : List (Nat × β)) : List β :=
  entries.filterMap fun entry => if entry.1 = i then some entry.2 else none

/-- The channel that the pool hands to a user who looks, if it does. -/
def Sending.handsOut (user : Nat) (s : Site) : Sending → List Channel
  | .acquiring x => (Sending.acquiring (x.step user s).1).channel?.toList
  | _ => []

/-- How far a job is, if it is a send. -/
def Job.stage {α : Type} : Job α → Sending
  | .send _ _ _ _ stage => stage
  | _ => .finished

namespace Chronicle

variable {α : Type}

/-- The chronicle of a session in which nothing has happened. -/
def start (pool : Pool) (backend : Backend) : Chronicle α :=
  { session := .start pool backend }

/-- What is on record of a send. -/
def record (c : Chronicle α) (i : Nat) : Record α :=
  ⟨c.session.result? i, ofNumber i c.handed, ofNumber i c.exchanged⟩

/-- Lets a send look. What the service receives meanwhile is its exchange. -/
def look (c : Chronicle α) (i : Nat) : Chronicle α :=
  { session := c.session.run i
    handed := c.handed ++
      ((c.session.jobs[i]?).elim [] fun job => job.stage.handsOut i c.session.site).map (i, ·)
    exchanged := c.exchanged ++
      ((c.session.run i).site.backend.journal.drop c.session.site.backend.journal.length).map
      (i, ·) }

/-- Changes the site of the session. -/
def atSite (c : Chronicle α) (site : Site) : Chronicle α :=
  { c with session := { c.session with site } }

/-- Lets something happen. -/
def act (c : Chronicle α) : Move α → Chronicle α
  | .send client e decode pager id =>
    { c with session := (c.session.dispatch client e decode pager id).2 }
  | .look i => c.look i
  | .turn =>
    match c.session.site.ready with
    | [] => c
    | i :: rest => (c.atSite { c.session.site with ready := rest }).look i
  | .pass ms => { c with session := c.session.advanceTo (c.session.site.now + ms) }
  | .elapse ms => c.atSite { c.session.site with pool := c.session.site.pool.elapse ms }
  | .close => { c with session := c.session.close }
  -- however it behaves, it goes on numbering its channels and keeping its journal
  | .service backend => c.atSite { c.session.site with
      backend := { backend with
        connects := c.session.site.backend.connects
        journal := c.session.site.backend.journal
        inFlight := c.session.site.backend.inFlight
        maxInFlight := c.session.site.backend.maxInFlight } }

/-- Lets moves happen one after another. -/
def run (c : Chronicle α) (moves : List (Move α)) : Chronicle α :=
  moves.foldl act c

end Chronicle

/-! ## What is known of a send -/

/-- What a send resolves to whose request went over a channel: a response is interpreted, and
anything else is an error with the id of the request. -/
def Conclusion.outcome {α : Type} (request : Request) (success : StatusSet) (decode : Decoder α) :
    Conclusion → Except StoreError α
  | .respond r => r.interpret success decode request.id
  | .fault f => .error ((StoreError.ofIo f faultText).withRequestId request.id)
  | .reject e => .error (e.withRequestId request.id)

/-- How far a send is, and what is on record of it. -/
inductive Standing {α : Type} (request : Request) (success : StatusSet) (decode : Decoder α) :
    Sending → Record α → Prop where
  /-- It has no channel yet, and nothing was sent. -/
  | acquiring {x : Acquisition} (hunsettled : ∀ result, x ≠ .settled result) :
      Standing request success decode (.acquiring x) ⟨none, [], []⟩
  /-- It has a channel, and its request was sent over it. -/
  | exchanging {channel : Channel} (hopen : channel.isOpen = true) (wakeAt : Nat)
      (delays : List Nat) (conclusion : Conclusion) :
      Standing request success decode
        (.exchanging (.pending channel request wakeAt delays conclusion))
        ⟨none, [channel], [(request, conclusion)]⟩
  /-- It got no channel, and ended in an error with an id. -/
  | refused {e : StoreError} (hid : e.requestId.isSome = true) :
      Standing request success decode .finished ⟨some (.error e), [], []⟩
  /-- Its exchange is over, and its result follows from it. -/
  | answered {channel : Channel} (hopen : channel.isOpen = true) (conclusion : Conclusion) :
      Standing request success decode .finished
        ⟨some (conclusion.outcome request success decode), [channel], [(request, conclusion)]⟩

section
variable {α : Type} {request : Request} {success : StatusSet} {decode : Decoder α}
  {stage stage' : Sending}

theorem Standing.isResting {r : Record α} (h : Standing request success decode stage r) :
    stage.IsResting := by
  cases h with
  | acquiring hunsettled => exact .acquiring hunsettled
  | exchanging => exact .exchanging ..
  | refused => exact .finished
  | answered => exact .finished

/-- A send has a result as soon as it is finished. -/
theorem Standing.isSome_result_iff {r : Record α} (h : Standing request success decode stage r) :
    r.result.isSome = true ↔ stage = .finished := by
  cases h <;> simp

theorem Standing.ne_finished {r : Record α} (h : Standing request success decode stage r)
    (hnone : r.result = none) :
    stage ≠ .finished := by
  rintro rfl
  have hsome := h.isSome_result_iff.mpr rfl
  rw [hnone] at hsome
  cases hsome

/-- A user without an answer has no channel. -/
theorem Sending.channel?_of_unsettled {x : Acquisition} (h : ∀ result, x ≠ .settled result) :
    (Sending.acquiring x).channel? = none := by
  cases x with
  | settled result => exact absurd rfl (h result)
  | _ => rfl

theorem resultOf_conclusion (request : Request) (success : StatusSet) (decode : Decoder α)
    (channel : Option Channel) (conclusion : Conclusion) :
    Session.resultOf request success decode ⟨channel, conclusion.result request⟩ =
      conclusion.outcome request success decode := by
  cases conclusion <;> rfl

theorem StoreError.requestId_tagged (e : StoreError) (id : String) :
    (e.tagged id).requestId.isSome = true := by
  unfold StoreError.tagged
  split
  next h => simp [h]
  next => rfl

/-- How an ending goes with what is on record: what is given back is the channel that was handed
out, as its exchange leaves it. -/
def Ending.Fits (e : Ending) (request : Request) (r : Record α) : Prop :=
  match e.channel with
  | none => r.handed = []
  | some left =>
    ∃ channel conclusion, r.handed = [channel] ∧ r.exchanged = [(request, conclusion)] ∧
      channel.isOpen = true ∧ left = conclusion.leave channel

theorem Exchange.Goes.standing (success : StatusSet) (decode : Decoder α) {s site : Site}
    {channel : Channel} (hopen : channel.isOpen = true) {wakeAt : Nat} {delays : List Nat}
    {conclusion : Conclusion} {ending : Option Ending} {o : Outcome α} (hslot : o.slot = none)
    (h : Goes s (.pending channel request wakeAt delays conclusion) stage' ending site) :
    let r : Record α :=
      ⟨(Session.settled request success decode o ending).slot, [channel], [(request, conclusion)]⟩
    site.backend.journal = s.backend.journal ∧ Standing request success decode stage' r ∧
      ∀ e, ending = some e → e.Fits request r := by
  cases h with
  | on =>
    refine ⟨rfl, ?_, fun e h => by cases h⟩
    rw [Session.settled, hslot]
    exact .exchanging hopen ..
  | ends =>
    refine ⟨rfl, ?_, ?_⟩
    · rw [Session.settled, hslot]
      exact resultOf_conclusion request success decode
        (some (conclusion.leave channel)) conclusion ▸ .answered hopen conclusion
    · intro e h
      cases h
      exact ⟨channel, conclusion, rfl, rfl, hopen, rfl⟩

/-- **A look of a send** keeps its stage and its record together. What the service receives
meanwhile is on record, too. -/
theorem Standing.looked {s site : Site} {i : Nat} {r : Record α}
    (h : Standing request success decode stage r) (hpositive : 0 < s.pool.config.acquireTimeout)
    {ending : Option Ending} (hlooked : Sending.Looked i request s stage stage' ending site)
    {o : Outcome α} (hslot : o.slot = r.result) :
    ∃ received,
      let r' : Record α :=
        ⟨(Session.settled request success decode o ending).slot, r.handed ++ stage.handsOut i s,
        r.exchanged ++ received⟩
      site.backend.journal = s.backend.journal ++ received ∧
      Standing request success decode stage' r' ∧
        ∀ e, ending = some e → e.Fits request r' := by
  cases h with
  | @acquiring x hunsettled =>
    have hstep := Acquisition.looked_step hpositive hunsettled i
    cases hlooked with
    | waits hx hwaits =>
      rw [hx] at hstep
      refine ⟨[], by rw [hstep.journal_eq, List.append_nil], ?_, fun e h => by cases h⟩
      rw [Session.settled, hslot, Sending.handsOut, hx, Sending.channel?_of_unsettled hwaits]
      exact .acquiring hwaits
    | refused hx =>
      rw [hx] at hstep
      refine ⟨[], by rw [hstep.journal_eq, List.append_nil], ?_, ?_⟩
      · rw [Session.settled, hslot, Sending.handsOut, hx]
        exact .refused (StoreError.requestId_tagged _ _)
      · intro e h
        cases h
        rw [Sending.handsOut, hx]
        exact rfl
    | @takes _ channel site₁ _ _ _ hx hgoes =>
      rw [hx] at hstep
      obtain ⟨hjournal, hstanding⟩ :=
        Exchange.Goes.standing success decode (hstep.isOpen channel rfl) hslot hgoes
      have hreceive := (Backend.receive_spec (Nat.le_refl site₁.backend.longestReply) request).2.2
      refine ⟨_, hjournal.trans (hreceive.trans (congrArg (· ++ _) hstep.journal_eq)), ?_⟩
      rw [Sending.handsOut, hx]
      exact hstanding
  | exchanging hopen wakeAt delays conclusion =>
    cases hlooked with
    | goes hgoes =>
      obtain ⟨hjournal, hstanding⟩ := Exchange.Goes.standing success decode hopen hslot hgoes
      exact ⟨[], by rw [hjournal, List.append_nil], hstanding⟩
  | refused hid =>
    cases hlooked
    refine ⟨[], (List.append_nil _).symm, ?_, fun e h => by cases h⟩
    rw [Session.settled, hslot]
    exact .refused hid
  | answered hopen conclusion =>
    cases hlooked
    refine ⟨[], (List.append_nil _).symm, ?_, fun e h => by cases h⟩
    rw [Session.settled, hslot]
    exact .answered hopen conclusion

end

/-! ## The books of the pool -/

section
variable {t : Terms} {a : Account} {s site : Site} {stage stage' : Sending} {ending : Option Ending}

/-- When an exchange goes on, its send has the channel, and when it is over, the send has given it
back. -/
theorem Exchange.Goes.custody {x : Exchange} (h : Goes s x stage ending site)
    (hbooks : s.pool.Custody t s.backend.connects
      { a with channels := x.serial :: a.channels, slots := a.slots + 1 })
    (user : Nat) :
    (site.after ending).pool.Custody t (site.after ending).backend.connects (a.add user stage) := by
  cases h with
  | on => exact hbooks.wait user _
  | @ends channel request wakeAt delays conclusion hwait =>
    have hserial : (conclusion.leave channel).serial = channel.serial := by
      unfold Conclusion.leave
      split <;> rfl
    rw [serial, ← hserial] at hbooks
    exact Account.custody_freeSlot
      (s := { s with pool :=
        s.pool.putBack (conclusion.leave channel) (conclusion.leave channel).isOpen,
                     backend := s.backend.finish }) (hbooks.putBack _) user

/-- **A look of a send** keeps the books, whatever the other sends have. -/
theorem Sending.Looked.custody {user : Nat} {request : Request}
    (h : Looked user request s stage stage' ending site) (hresting : stage.IsResting)
    (hbooks : s.pool.Custody t s.backend.connects (a.add user stage)) (hnew : ¬ a.Queued user) :
    (site.after ending).pool.Custody t (site.after ending).backend.connects
      (({ a with handed := a.handed ++ stage.handsOut user s } : Account).add user stage') := by
  cases hresting with
  | @acquiring x hunsettled =>
    have hstep := Acquisition.accounted_step hbooks hnew hunsettled
    cases h with
    | waits hx _ =>
      rw [handsOut, hx]
      rw [hx] at hstep
      exact hstep
    | refused hx =>
      rw [handsOut, hx]
      rw [hx] at hstep
      exact hstep
    | @takes _ channel site₁ _ _ _ hx hgoes =>
      rw [handsOut, hx]
      rw [hx] at hstep
      -- between the two steps of the look the send holds a channel that it has not used yet
      have hchannel : (acquiring (.settled (.ok channel))).channel? = some channel := rfl
      have hheld := Account.custody_of_channel hchannel hstep
      rw [← Exchange.connects_receive site₁.backend request] at hheld
      exact hgoes.custody hheld user
  | exchanging channel request' wakeAt delays conclusion =>
    cases h with
    | goes hgoes =>
      have hchannel : (exchanging (.pending channel request' wakeAt delays conclusion)).channel? =
          some channel := rfl
      have hheld := Account.custody_of_channel hchannel hbooks
      simp only [handsOut, List.append_nil]
      exact hgoes.custody hheld user
  | finished =>
    cases h
    simp only [handsOut, List.append_nil]
    exact hbooks

end

/-! ## The ledger -/

section
variable {β : Type} (i : Nat) (entries : List (Nat × β)) (more : List β)

theorem ofNumber_append_self :
    ofNumber i (entries ++ more.map (i, ·)) = ofNumber i entries ++ more := by
  rw [ofNumber, List.filterMap_append, List.filterMap_map]
  simp [ofNumber]

theorem ofNumber_append_of_ne {j : Nat} (h : j ≠ i) :
    ofNumber j (entries ++ more.map (i, ·)) = ofNumber j entries := by
  rw [ofNumber, List.filterMap_append, List.filterMap_map]
  simp [ofNumber, h.symm]

end

/-! ## All sends -/

namespace Chronicle

variable {α : Type}

/-- The sends of a chronicle as users of its pool. -/
def scene (c : Chronicle α) : Scene :=
  ⟨c.session.site, c.session.jobs.map Job.stage, c.handed.map Prod.snd⟩

/-- What was sent under a number: the request, the statuses that count as success, and how the
response is decoded. -/
def Sends (c : Chronicle α) (i : Nat) (request : Request) (success : StatusSet)
    (decode : Decoder α) : Prop :=
  ∃ stage, c.session.jobs[i]? = some (.send i request success decode stage) ∧
    Standing request success decode stage (c.record i)

/-- The books of the pool agree with the stages of the sends, and each stage with what is on
record. -/
structure Sound (t : Terms) (received : List (Request × Conclusion)) (c : Chronicle α) : Prop where
  books : c.scene.Custody t
  positive : 0 < t.config.acquireTimeout
  /-- What the service received is on record. -/
  journal_eq : c.session.site.backend.journal = received ++ c.exchanged.map Prod.snd
  outcomes_length : c.session.outcomes.length = c.session.jobs.length
  watchers_eq : ∀ o ∈ c.session.outcomes, o.watchers = []
  sends : ∀ i < c.session.jobs.length, ∃ request success decode, c.Sends i request success decode
  /-- Nothing is on record under a number that is still to come. -/
  record_eq : ∀ i, c.session.jobs.length ≤ i → c.record i = ⟨none, [], []⟩

variable {t : Terms} {received : List (Request × Conclusion)} {c : Chronicle α} {i : Nat}
  {request : Request} {success : StatusSet} {decode : Decoder α} {stage : Sending}

/-! ### A look -/

/-- What a look of a send comes to: its next stage, perhaps its end, and the site before its channel
is given back. -/
structure Advance (c : Chronicle α) (i : Nat) (request : Request) (success : StatusSet)
    (decode : Decoder α) (stage stage' : Sending) (ending : Option Ending)
    (site : Site) : Prop where
  looked : Sending.Looked i request c.session.site stage stage' ending site
  site_eq : (c.look i).session.site = site.after ending
  jobs_eq : (c.look i).session.jobs = c.session.jobs.set i (.send i request success decode stage')
  outcomes_length : (c.look i).session.outcomes.length = c.session.outcomes.length
  watchers_eq : ∀ o ∈ (c.look i).session.outcomes, o.watchers = []
  handed_eq : (c.look i).handed = c.handed ++ (stage.handsOut i c.session.site).map (i, ·)
  exchanged_eq : ∃ entries, site.backend.journal = c.session.site.backend.journal ++ entries ∧
    (c.look i).exchanged = c.exchanged ++ entries.map (i, ·)
  standing : Standing request success decode stage' ((c.look i).record i)
  fits : ∀ e, ending = some e → e.Fits request ((c.look i).record i)
  record_eq : ∀ j, j ≠ i → (c.look i).record j = c.record j

theorem Sound.acquireTimeout_pos (h : c.Sound t received) :
    0 < c.session.site.pool.config.acquireTimeout := by
  have hconfig : c.session.site.pool.config = t.config := h.books.config_eq
  rw [hconfig]
  exact h.positive

theorem Sound.exists_advance (h : c.Sound t received)
    (hjob : c.session.jobs[i]? = some (.send i request success decode stage))
    (hstanding : Standing request success decode stage (c.record i)) :
    ∃ stage' ending site, c.Advance i request success decode stage stage' ending site := by
  have hpositive := h.acquireTimeout_pos
  have hplace : i < c.session.outcomes.length :=
    h.outcomes_length ▸ (List.getElem?_eq_some_iff.mp hjob).1
  have houtcome : c.session.outcomes[i]? = some c.session.outcomes[i] :=
    List.getElem?_eq_getElem hplace
  generalize c.session.outcomes[i] = o at houtcome
  have hslot : o.slot = (c.record i).result := by simp [record, Session.result?, houtcome]
  have hlooked := Sending.looked_step hpositive hstanding.isResting i request
  obtain ⟨entries, hjournal, hnext, hfits⟩ := hstanding.looked hpositive hlooked hslot
  generalize hstep : stage.step i request c.session.site = step at hlooked hjournal hnext hfits
  obtain ⟨stage', ending, site⟩ := step
  dsimp only at hlooked hjournal hnext hfits
  have hwatchers := h.watchers_eq o (List.mem_of_getElem? houtcome)
  have hrun := Session.run_send hjob houtcome hwatchers hstep
  -- giving the channel back adds nothing to what the service received
  have hexchanged : (c.look i).exchanged = c.exchanged ++ entries.map (i, ·) := by
    simp only [look, hrun, Site.backend_after, hjournal, List.drop_left]
  have hhanded : (c.look i).handed = c.handed ++ (stage.handsOut i c.session.site).map (i, ·) := by
    simp only [look, hjob, Option.elim_some, Job.stage]
  have hrecord : (c.look i).record i = ⟨(Session.settled request success decode o ending).slot,
      (c.record i).handed ++ stage.handsOut i c.session.site,
      (c.record i).exchanged ++ entries⟩ := by
    rw [record, hhanded, hexchanged, ofNumber_append_self, ofNumber_append_self]
    simp [look, hrun, Session.result?, hplace, record]
  refine ⟨stage', ending, site, ?_⟩
  exact
    { looked := hlooked
      site_eq := congrArg Session.site hrun
      jobs_eq := congrArg Session.jobs hrun
      outcomes_length := (congrArg (fun s => s.outcomes.length) hrun).trans List.length_set
      watchers_eq := by
        intro o' ho'
        rw [look, hrun] at ho'
        rcases List.mem_or_eq_of_mem_set ho' with hold | rfl
        · exact h.watchers_eq o' hold
        · cases ending <;> exact hwatchers
      handed_eq := hhanded
      exchanged_eq := ⟨entries, hjournal, hexchanged⟩
      standing := by
        rw [hrecord]
        exact hnext
      fits := by
        rw [hrecord]
        exact hfits
      record_eq := fun j hj => by
        rw [record, hhanded, hexchanged, ofNumber_append_of_ne _ _ _ hj,
          ofNumber_append_of_ne _ _ _ hj]
        simp [look, hrun, Session.result?, List.getElem?_set_ne hj.symm, record] }

/-- Nobody looks under a number that is still to come. -/
theorem look_of_none (h : c.session.jobs[i]? = none) : c.look i = c := by
  simp [look, Session.run, h]

/-- A send that is finished rests. -/
theorem look_of_finished
    (h : c.session.jobs[i]? = some (.send i request success decode .finished)) : c.look i = c := by
  obtain ⟨hplace, hjob⟩ := List.getElem?_eq_some_iff.mp h
  have hkept : c.session.jobs.set i (.send i request success decode .finished) =
      c.session.jobs := by
    rw [← hjob]
    exact List.set_getElem_self hplace
  simp [look, Session.run, h, Sending.step, Session.setJob, hkept, Job.stage, Sending.handsOut]

theorem Advance.scene_eq {stage' : Sending} {ending : Option Ending} {site : Site}
    (h : c.Advance i request success decode stage stage' ending site) :
    (c.look i).scene =
      ({ c.scene with handed := c.scene.handed ++ stage.handsOut i c.session.site } : Scene).put i
        stage'
      (site.after ending) := by
  rw [scene, h.site_eq, h.jobs_eq, h.handed_eq]
  simp [scene, Scene.put, List.map_set, Job.stage, Function.comp_def]

/-- A look concerns nobody but the send that looks. -/
theorem Sound.look_of_ne (h : c.Sound t received) {j : Nat} (hj : j ≠ i) :
    (c.look i).session.jobs[j]? = c.session.jobs[j]? ∧ (c.look i).record j = c.record j := by
  cases hjob : c.session.jobs[i]? with
  | none =>
    rw [look_of_none hjob]
    exact ⟨rfl, rfl⟩
  | some job =>
    obtain ⟨request, success, decode, stage, hjob, hstanding⟩ :=
      h.sends i (List.getElem?_eq_some_iff.mp hjob).1
    obtain ⟨stage', ending, site, hadvance⟩ := h.exists_advance hjob hstanding
    refine ⟨?_, hadvance.record_eq j hj⟩
    rw [hadvance.jobs_eq, List.getElem?_set_ne hj.symm]

/-- A chronicle that comes after another one: what was sent is as it was, and what has a result does
not change. -/
structure Follows (c c' : Chronicle α) : Prop where
  sends : ∀ {i request success decode}, c.Sends i request success decode →
    c'.Sends i request success decode
  record_eq : ∀ {i}, (c.record i).result.isSome = true → c'.record i = c.record i

theorem Follows.refl (c : Chronicle α) : c.Follows c :=
  ⟨id, fun _ => rfl⟩

theorem Follows.trans {c₁ c₂ c₃ : Chronicle α} (h : c₁.Follows c₂) (h' : c₂.Follows c₃) :
    c₁.Follows c₃ where
  sends hsends := h'.sends (h.sends hsends)
  record_eq hresult := by
    have hfirst := h.record_eq hresult
    rw [← hfirst] at hresult
    rw [h'.record_eq hresult, hfirst]

theorem Sound.follows_look (h : c.Sound t received) (i : Nat) : c.Follows (c.look i) where
  sends {j request success decode} hsends := by
    obtain ⟨stage, hjob, hstanding⟩ := hsends
    by_cases hj : j = i
    · subst hj
      obtain ⟨stage', ending, site, hadvance⟩ := h.exists_advance hjob hstanding
      refine ⟨stage', ?_, hadvance.standing⟩
      rw [hadvance.jobs_eq]
      exact List.getElem?_set_self (List.getElem?_eq_some_iff.mp hjob).1
    · obtain ⟨hjobs, hrecord⟩ := h.look_of_ne hj
      refine ⟨stage, hjobs.trans hjob, ?_⟩
      rw [hrecord]
      exact hstanding
  record_eq {j} hresult := by
    by_cases hj : j = i
    · subst hj
      by_cases hplace : j < c.session.jobs.length
      · -- a send with a result is finished, so that it rests
        obtain ⟨request, success, decode, stage, hjob, hstanding⟩ := h.sends j hplace
        have hfinished : stage = .finished := hstanding.isSome_result_iff.mp hresult
        subst hfinished
        rw [look_of_finished hjob]
      · rw [look_of_none (List.getElem?_eq_none (Nat.not_lt.mp hplace))]
    · exact (h.look_of_ne hj).2

/-- **A look** keeps the chronicle sound. -/
theorem Sound.look (h : c.Sound t received) (i : Nat) : (c.look i).Sound t received := by
  by_cases hplace : i < c.session.jobs.length
  case neg =>
    rw [look_of_none (List.getElem?_eq_none (Nat.not_lt.mp hplace))]
    exact h
  obtain ⟨request, success, decode, stage, hjob, hstanding⟩ := h.sends i hplace
  obtain ⟨stage', ending, site, hadvance⟩ := h.exists_advance hjob hstanding
  have hlength : (c.look i).session.jobs.length = c.session.jobs.length := by
    rw [hadvance.jobs_eq, List.length_set]
  exact
    { books := by
        have huser : c.scene.users[i]? = some stage := by simp [scene, hjob, Job.stage]
        have hbooks := hadvance.looked.custody hstanding.isResting
          ((Scene.custody_iff huser).mp h.books) (c.scene.not_queued_others i)
        rw [hadvance.scene_eq]
        exact Scene.custody_put huser hbooks
      positive := h.positive
      journal_eq := by
        obtain ⟨entries, hjournal, hexchanged⟩ := hadvance.exchanged_eq
        rw [hadvance.site_eq, Site.backend_after, hjournal, hexchanged, h.journal_eq]
        simp [Function.comp_def]
      outcomes_length := by rw [hadvance.outcomes_length, hlength, h.outcomes_length]
      watchers_eq := hadvance.watchers_eq
      sends := by
        intro j hj
        obtain ⟨request, success, decode, hsends⟩ := h.sends j (hlength ▸ hj)
        exact ⟨request, success, decode, (h.follows_look i).sends hsends⟩
      record_eq := by
        intro j hj
        rw [hlength] at hj
        rw [hadvance.record_eq j (Nat.ne_of_gt (Nat.lt_of_lt_of_le hplace hj)), h.record_eq j hj] }

/-! ### A new send -/

section
variable (h : c.Sound t received) (client : Client) (e : Envelope) (decode : Decoder α)
  (pager : Option (Pager α)) (id : String)

/-- An element at the end leaves the other places alone. -/
theorem getElem?_concat_of_ne {β : Type} {l : List β} (b : β) (h : i ≠ l.length) :
    (l ++ [b])[i]? = l[i]? := by
  rcases Nat.lt_or_gt_of_ne h with hlt | hgt
  · exact List.getElem?_append_left hlt
  · rw [List.getElem?_eq_none (Nat.le_of_lt hgt), List.getElem?_eq_none]
    rw [List.length_append]
    exact hgt

include h in
/-- Outcomes and jobs are numbered alike. -/
theorem Sound.jobs_send : (c.act (.send client e decode pager id)).session.jobs = c.session.jobs ++
    [.send c.session.jobs.length (client.request e id) e.success decode (.acquiring .fresh)] := by
  rw [← h.outcomes_length]
  rfl

include h in
theorem Sound.record_send_of_ne (hi : i ≠ c.session.jobs.length) :
    (c.act (.send client e decode pager id)).record i = c.record i := by
  rw [← h.outcomes_length] at hi
  rw [record, record, Record.mk.injEq]
  refine ⟨?_, rfl, rfl⟩
  exact congrArg (·.bind Outcome.slot) (getElem?_concat_of_ne _ hi)

include h in
/-- Nothing is known of a new send yet. -/
theorem Sound.record_send_self :
    (c.act (.send client e decode pager id)).record c.session.jobs.length = ⟨none, [], []⟩ := by
  have hempty := h.record_eq c.session.jobs.length (Nat.le_refl _)
  rw [record, Record.mk.injEq] at hempty ⊢
  refine ⟨?_, hempty.2⟩
  have hlast : (c.session.outcomes ++ [.pending id pager])[c.session.outcomes.length]? =
      some (.pending id pager) :=
    List.getElem?_concat_length
  rw [← h.outcomes_length]
  exact congrArg (·.bind Outcome.slot) hlast

include h in
theorem Sound.sends_send :
    (c.act (.send client e decode pager id)).Sends c.session.jobs.length (client.request e id)
      e.success decode := by
  refine ⟨.acquiring .fresh, ?_, ?_⟩
  · rw [h.jobs_send]
    exact List.getElem?_concat_length
  · rw [h.record_send_self]
    exact .acquiring fun result hresult => by cases hresult

include h in
theorem Sound.follows_send : c.Follows (c.act (.send client e decode pager id)) where
  sends {j _ _ _} hsends := by
    obtain ⟨stage, hjob, hstanding⟩ := hsends
    have hplace := (List.getElem?_eq_some_iff.mp hjob).1
    refine ⟨stage, ?_, ?_⟩
    · rw [h.jobs_send, List.getElem?_append_left hplace, hjob]
    · rw [h.record_send_of_ne _ _ _ _ _ (Nat.ne_of_lt hplace)]
      exact hstanding
  record_eq {j} hresult := by
    apply h.record_send_of_ne
    rintro rfl
    rw [h.record_eq _ (Nat.le_refl _)] at hresult
    cases hresult

include h in
/-- **A new send** keeps the chronicle sound. -/
theorem Sound.send : (c.act (.send client e decode pager id)).Sound t received := by
  have hlength : (c.act (.send client e decode pager id)).session.jobs.length =
      c.session.jobs.length + 1 := by
    rw [h.jobs_send, List.length_append]
    rfl
  have houtcomes : (c.act (.send client e decode pager id)).session.outcomes =
      c.session.outcomes ++ [.pending id pager] := rfl
  exact
    { -- to the pool a new send is a user who comes
      books := by
        have harrived := Scene.custody_act h.books .arrive
        have husers : (c.act (.send client e decode pager id)).session.jobs.map Job.stage =
            (c.scene.act .arrive).users := by
          rw [h.jobs_send, List.map_append]
          rfl
        rw [scene, husers]
        exact harrived
      positive := h.positive
      journal_eq := h.journal_eq
      outcomes_length := by
        rw [hlength, houtcomes, List.length_append, h.outcomes_length]
        rfl
      watchers_eq := by
        rw [houtcomes, List.forall_mem_append]
        exact ⟨h.watchers_eq, List.forall_mem_singleton.mpr rfl⟩
      sends := by
        intro j hj
        rcases Nat.lt_succ_iff_lt_or_eq.mp (hlength ▸ hj) with hlt | rfl
        · obtain ⟨request, success, decode', hsends⟩ := h.sends j hlt
          exact ⟨request, success, decode', (h.follows_send client e decode pager id).sends hsends⟩
        · exact ⟨_, _, _, h.sends_send client e decode pager id⟩
      record_eq := by
        intro j hj
        rw [hlength] at hj
        rw [h.record_send_of_ne _ _ _ _ _ (Nat.ne_of_gt hj), h.record_eq j (Nat.le_of_succ_le hj)] }

end

/-! ### All moves -/

/-- **A change of the site** that the books of the pool allow keeps the chronicle sound. -/
theorem Sound.atSite (h : c.Sound t received) (site : Site)
    (hbooks : (c.atSite site).scene.Custody t)
    (hjournal : site.backend.journal = c.session.site.backend.journal) :
    (c.atSite site).Sound t received ∧ c.Follows (c.atSite site) := by
  refine ⟨?_, id, fun _ => rfl⟩
  exact { h with books := hbooks, journal_eq := hjournal.trans h.journal_eq }

theorem act_turn_of_nil (h : c.session.site.ready = []) : c.act .turn = c := by
  simp only [act, h]

theorem act_turn_of_cons {rest : List Nat} (h : c.session.site.ready = i :: rest) :
    c.act .turn = (c.atSite { c.session.site with ready := rest }).look i := by
  simp only [act, h]

/-- **A move** keeps the chronicle sound. -/
theorem Sound.act (h : c.Sound t received) (m : Move α) :
    (c.act m).Sound t received ∧ c.Follows (c.act m) := by
  cases m with
  | send client e decode pager id =>
    exact ⟨h.send client e decode pager id, h.follows_send client e decode pager id⟩
  | look i => exact ⟨h.look i, h.follows_look i⟩
  | turn =>
    cases hready : c.session.site.ready with
    | nil =>
      rw [act_turn_of_nil hready]
      exact ⟨h, .refl c⟩
    | cons i rest =>
      rw [act_turn_of_cons hready]
      obtain ⟨hsite, hfirst⟩ := h.atSite { c.session.site with ready := rest } h.books rfl
      exact ⟨hsite.look i, hfirst.trans (hsite.follows_look i)⟩
  | pass ms => exact h.atSite _ h.books rfl
  | elapse ms => exact h.atSite _ (Pool.Custody.elapse h.books ms) rfl
  | close =>
    have hclose := Pool.Custody.close h.books
    exact h.atSite _ { hclose with isClosed_of_shut := fun _ => rfl } rfl
  | service backend => exact h.atSite _ h.books rfl

theorem run_nil (c : Chronicle α) : c.run [] = c := rfl

theorem run_append (c : Chronicle α) (moves later : List (Move α)) :
    c.run (moves ++ later) = (c.run moves).run later :=
  List.foldl_append

/-- **All moves** keep the chronicle sound. -/
theorem Sound.run (h : c.Sound t received) (moves : List (Move α)) :
    (c.run moves).Sound t received ∧ c.Follows (c.run moves) := by
  induction moves generalizing c with
  | nil => exact ⟨h, .refl c⟩
  | cons m moves ih =>
    obtain ⟨hact, hfirst⟩ := h.act m
    obtain ⟨hrun, hthen⟩ := ih hact
    exact ⟨hrun, hfirst.trans hthen⟩

/-- A pool that was made waits at least for some time. -/
theorem acquireTimeout_of_new {endpoint : Endpoint} {config : PoolConfig} {pool : Pool}
    (h : Pool.new endpoint config = .ok pool) : 0 < config.acquireTimeout := by
  refine Nat.pos_of_ne_zero fun hzero => ?_
  unfold Pool.new PoolConfig.validate at h
  repeat' split at h
  all_goals contradiction

theorem sound_start {endpoint : Endpoint} {config : PoolConfig} {pool : Pool}
    (h : Pool.new endpoint config = .ok pool) (backend : Backend) :
    (start pool backend : Chronicle α).Sound ⟨config, backend.connects, false⟩ backend.journal where
  books := Scene.custody_start h backend
  positive := acquireTimeout_of_new h
  journal_eq := (List.append_nil _).symm
  outcomes_length := rfl
  watchers_eq := List.forall_mem_nil _
  sends := fun _ hi => absurd hi (Nat.not_lt_zero _)
  record_eq := fun _ _ => rfl

end Chronicle

end ItemStore
