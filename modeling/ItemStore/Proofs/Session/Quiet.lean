import ItemStore.Session.Requests

/-!
# One request at a time

A session is quiet if nobody has a reason to look, nobody waits for a slot, and there is a slot to
be had. A request that is sent over a quiet session to a server is answered before anything else
happens, and leaves the session quiet.

## Architecture

`Site.Serving` is the invariant. It counts the free slots, and each stage of a send says how it
moves that number:

- `Acquisition.step_fresh` takes a slot and a channel;
- `Exchange.start_of_serving` has the server answer;
- `Site.Serving.release` gives both back;
- `Session.ask_of_quiet` puts them together.
-/

namespace ItemStore

/-- Channels to a server are to be had at once, `free` of them at a time, and nobody else is about
to do anything. -/
structure Site.Serving (s : Site) (free : Nat) : Prop where
  isOpen : s.pool.isClosed = false
  free_eq : s.pool.free = free
  waiting_eq : s.pool.waiting = []
  ready_eq : s.ready = []
  serves : s.backend.behaviour = .serve
  connectDelay_eq : s.backend.connectDelay = 0
  connectFailure_eq : s.backend.connectFailure = none

/-! ## The stages of a send -/

/-- An idle channel that is handed out is open. -/
theorem Pool.isOpen_of_takeIdle {p p' : Pool} {channel : Channel}
    (h : p.takeIdle = (some channel, p')) :
    channel.isOpen = true := by
  unfold takeIdle at h
  dsimp only at h
  split at h
  next => cases h
  next i rest hdrop =>
    have hfresh := List.head?_dropWhile_not (fun i => !p.isFresh i) p.idle
    rw [hdrop] at hfresh
    simp only [List.head?_cons, Bool.not_eq_false', isFresh, Bool.and_eq_true] at hfresh
    cases h
    exact hfresh.1

/-- Looking for an idle channel concerns nothing else in the pool. -/
theorem Pool.takeIdle_snd (p : Pool) :
    p.takeIdle.2.isClosed = p.isClosed ∧ p.takeIdle.2.free = p.free ∧
    p.takeIdle.2.waiting = p.waiting := by
  unfold takeIdle
  dsimp only
  split <;> exact ⟨rfl, rfl, rfl⟩

/-- A user who asks for a channel gets one. -/
theorem Acquisition.step_fresh {s : Site} {free : Nat} (h : s.Serving (free + 1)) (user : Nat) :
    ∃ channel s', step user s .fresh = (.settled (.ok channel), s') ∧ channel.isOpen = true ∧
    s'.Serving free ∧
      s'.backend.server = s.backend.server ∧ s'.backend.locator = s.backend.locator := by
  have hpositive : 0 < s.pool.free := by simp [h.free_eq]
  have henter : s.pool.enter user = (.admitted, { s.pool with free := s.pool.free - 1 }) := by
    simp [Pool.enter, h.isOpen, hpositive]
  have hfree : s.pool.free - 1 = free := by rw [h.free_eq, Nat.add_sub_cancel]
  rw [step, henter]
  simp only [proceed, checkOut]
  obtain ⟨hclosed, hslots, hwaiting⟩ := Pool.takeIdle_snd { s.pool with free := s.pool.free - 1 }
  cases hidle : Pool.takeIdle { s.pool with free := s.pool.free - 1 } with
  | mk found p =>
    rw [hidle] at hclosed hslots hwaiting
    cases found with
    | some channel =>
      refine ⟨channel, _, rfl, Pool.isOpen_of_takeIdle hidle, ?_, rfl, rfl⟩
      exact ⟨hclosed.trans h.isOpen, hslots.trans hfree, hwaiting.trans h.waiting_eq,
        h.ready_eq, h.serves, h.connectDelay_eq, h.connectFailure_eq⟩
    | none =>
      -- nothing idle, so a channel is opened, which takes no time
      simp only [connect, h.connectDelay_eq, Nat.add_zero, Nat.le_refl, if_true, Backend.connect,
        h.connectFailure_eq]
      refine ⟨_, _, rfl, rfl, ?_, rfl, rfl⟩
      exact ⟨hclosed.trans h.isOpen, hslots.trans hfree, hwaiting.trans h.waiting_eq, h.ready_eq,
        h.serves, rfl, rfl⟩

/-- The server answers at once. -/
theorem Exchange.start_of_serving {s : Site} {free : Nat} (h : s.Serving free) {channel : Channel}
    (hopen : channel.isOpen = true) (request : Request) :
    ∃ s', start s channel request =
      (.over channel (.ok (s.backend.server.handle s.backend.locator request).1), s') ∧
      s'.Serving free ∧ s'.backend.server = (s.backend.server.handle s.backend.locator request).2 ∧
      s'.backend.locator = s.backend.locator := by
  have hreact : s.backend.react request =
      (.respond (s.backend.server.handle s.backend.locator request).1,
      { s.backend with server := (s.backend.server.handle s.backend.locator request).2 }) := by
    simp [Backend.react, h.serves]
  -- there are no delays to wait for
  simp only [start, hopen, if_true, Backend.receive, hreact, Reply.delays, Reply.conclude, step,
    wait, Nat.le_refl]
  refine ⟨_, rfl, ?_, rfl, rfl⟩
  exact ⟨h.isOpen, h.free_eq, h.waiting_eq, h.ready_eq, h.serves, h.connectDelay_eq,
    h.connectFailure_eq⟩

theorem Site.Serving.release {s : Site} {free : Nat} (h : s.Serving free) (channel : Channel)
    (healthy : Bool) :
    (s.release channel healthy).Serving (free + 1) ∧
    (s.release channel healthy).backend = s.backend := by
  have hput (p : Pool) : (p.putBack channel healthy).isClosed = p.isClosed ∧
      (p.putBack channel healthy).free = p.free ∧
      (p.putBack channel healthy).waiting = p.waiting := by
    unfold Pool.putBack Pool.retire
    split <;> exact ⟨rfl, rfl, rfl⟩
  obtain ⟨hclosed, hslots, hwaiting⟩ := hput s.pool
  have hrelease : s.release channel healthy =
      { s with pool := { s.pool.putBack channel healthy with free := free + 1 } } := by
    simp [Site.release, Site.freeSlot, Pool.freeSlot, hwaiting, h.waiting_eq, Site.wake,
      hslots, h.free_eq]
  rw [hrelease]
  exact ⟨⟨hclosed.trans h.isOpen, rfl, hwaiting.trans h.waiting_eq, h.ready_eq, h.serves,
    h.connectDelay_eq, h.connectFailure_eq⟩, rfl⟩

/-- A send that is begun is over at once. -/
theorem Sending.step_fresh {s : Site} {free : Nat} (h : s.Serving (free + 1)) (user : Nat)
    (request : Request) :
    ∃ channel s', step user request s (.acquiring .fresh) =
        (.finished, some ⟨some channel, .ok (s.backend.server.handle s.backend.locator request).1⟩,
          s') ∧
      s'.Serving free ∧ s'.backend.server = (s.backend.server.handle s.backend.locator request).2 ∧
      s'.backend.locator = s.backend.locator := by
  obtain ⟨channel, s₁, hacquire, hopen, hserving, hserver, hlocator⟩ :=
    Acquisition.step_fresh h user
  obtain ⟨s₂, hexchange, hserving', hserver', hlocator'⟩ :=
    Exchange.start_of_serving hserving hopen request
  rw [hserver, hlocator] at hexchange hserver'
  refine ⟨channel, s₂, ?_, hserving', hserver', hlocator'.trans hlocator⟩
  simp only [step, hacquire, hexchange, proceed]

/-! ## Sessions -/

namespace Session

variable {α : Type}

/-- Channels to a server are to be had at once, and nobody is about to do anything. -/
def Quiet (s : Session α) : Prop :=
  ∃ free, s.site.Serving (free + 1)

/-- Sends an envelope and waits for the result. -/
def ask (s : Session α) (client : Client) (e : Envelope) (decode : Decoder α) (id : String) :
    Option (Except StoreError α) × Session α :=
  let (outcome, s) := s.send client e decode id
  s.wait outcome none

/-- A session over a server is quiet when it starts. -/
theorem quiet_start {endpoint : Endpoint} {config : PoolConfig} {pool : Pool}
    (h : Pool.new endpoint config = .ok pool) (server : Server) (locator : String) :
    (start pool { behaviour := .serve, server, locator } : Session α).Quiet := by
  unfold Pool.new PoolConfig.validate at h
  split at h
  next => cases h
  next hslots =>
    have hpool : pool = { endpoint, config, free := config.maxChannels } := by
      repeat' split at h
      all_goals cases h
      rfl
    obtain ⟨free, hfree⟩ := Nat.exists_eq_add_one_of_ne_zero hslots
    subst hpool
    exact ⟨free, rfl, hfree, rfl, rfl, rfl, rfl, rfl⟩

/-- A job that sends a request resolves its outcome with what the client makes of the answer. -/
theorem run_of_send {s : Session α} {free : Nat} (h : s.site.Serving (free + 1)) {i outcome : Nat}
    {request : Request} {success : StatusSet} {decode : Decoder α} {o : Outcome α}
    (hjob : s.jobs[i]? = some (.send outcome request success decode (.acquiring .fresh)))
    (houtcome : s.outcomes[outcome]? = some o) (hslot : o.slot = none)
    (hwatchers : o.watchers = []) :
    let answer := s.site.backend.server.handle s.site.backend.locator request
    ((s.run i).site.Serving (free + 1) ∧ (s.run i).site.backend.server = answer.2 ∧
      (s.run i).site.backend.locator = s.site.backend.locator) ∧
    (s.run i).result? outcome = some (answer.1.interpret success decode request.id) := by
  obtain ⟨channel, site, hstep, hserving, hserver, hlocator⟩ := Sending.step_fresh h i request
  obtain ⟨hreleased, hbackend⟩ := hserving.release channel channel.isOpen
  have hlength : outcome < s.outcomes.length := (List.getElem?_eq_some_iff.mp houtcome).1
  have hrun : s.run i = { s with
      site := site.release channel channel.isOpen
      jobs := s.jobs.set i (.send outcome request success decode .finished)
      outcomes := s.outcomes.set outcome { o with
        slot :=
          some ((s.site.backend.server.handle s.site.backend.locator request).1.interpret success
            decode request.id)
        watchers := [] } } := by
    simp [run, hjob, hstep, setJob, resolve, houtcome, hslot, hwatchers, Slot.complete, Site.wake,
      giveBack, resultOf]
  rw [hrun, hbackend]
  exact ⟨⟨hreleased, hserver, hlocator⟩, by simp [result?, hlength]⟩

theorem runLine_of_nil {s : Session α} (h : s.site.ready = []) (own : Option Nat) (fuel : Nat) :
    s.runLine own fuel = s := by
  cases fuel with
  | zero => rfl
  | succ fuel => rw [runLine, h]

/-- If one job has a reason to look, and leaves nobody with one, all that happens is that it
looks. -/
theorem runReady_of_single {s : Session α} {i : Nat} {site : Site} (hready : s.site = site.wake [i])
    (hsite : site.ready = []) (hrun : (({ s with site } : Session α).run i).site.ready = []) :
    s.runReady none = ({ s with site } : Session α).run i := by
  -- the line is cleared before the job looks, and is empty again afterwards
  have hlist : s.site.ready = [i] := by rw [hready, Site.wake, hsite, List.nil_append]
  have hrest : ({ s.site with ready := [] } : Site) = site := by
    rw [hready, ← hsite]
    rfl
  rw [runReady, hlist, runLine, hlist]
  simp only [hrest]
  exact runLine_of_nil hrun none _

/-- A wait that is over once all have looked is over before time moves. -/
theorem await_of_runReady {s : Session α} {done : Session α → Bool} (hpending : done s = false)
    (hdone : done (s.runReady none) = true) : s.await none none done = s.runReady none := by
  obtain ⟨k, hk⟩ : ∃ k, s.horizon = k + 1 := by
    have hpositive : 0 < (s.jobs.length + 1) * (s.site.backend.longestReply + 4) :=
      Nat.mul_pos (Nat.succ_pos _) (Nat.succ_pos _)
    exact Nat.exists_eq_add_one.mpr (Nat.add_pos_left hpositive _)
  rw [await, hk, awaitFor]
  simp [runOwn, hpending, isDue, hdone]

/-- **One request**: over a quiet session to a server, the result is what the client makes of the
server's answer, the server is as it is after answering, and the session is quiet again. -/
theorem ask_of_quiet {s : Session α} (h : s.Quiet) (client : Client) (e : Envelope)
    (decode : Decoder α) (id : String) :
    let answer := s.site.backend.server.handle s.site.backend.locator (client.request e id)
    (s.ask client e decode id).1 = some (answer.1.interpret e.success decode id) ∧
      (s.ask client e decode id).2.Quiet ∧
      (s.ask client e decode id).2.site.backend.server = answer.2 ∧
      (s.ask client e decode id).2.site.backend.locator = s.site.backend.locator := by
  intro answer
  obtain ⟨free, hserving⟩ := h
  let job : Job α := .send s.outcomes.length (client.request e id) e.success decode
    (.acquiring .fresh)
  -- the session with the job in line, and the same session when its turn has come
  let sent : Session α := { s with
    jobs := s.jobs ++ [job], outcomes := s.outcomes ++ [.pending id none], site :=
      s.site.wake [s.jobs.length] }
  let begun : Session α := { sent with site := s.site }
  obtain ⟨⟨hserving', hserver, hlocator⟩, hresult⟩ :=
    run_of_send (s := begun) (i := s.jobs.length) hserving
    (List.getElem?_concat_length) (List.getElem?_concat_length) rfl rfl
  have hline : sent.runReady none = begun.run s.jobs.length :=
    runReady_of_single rfl hserving.ready_eq hserving'.ready_eq
  have hpending : (sent.result? s.outcomes.length).isSome = false := by
    have houtcome : sent.outcomes[s.outcomes.length]? = some (.pending id none) :=
      List.getElem?_concat_length
    simp [result?, houtcome, Outcome.pending, Slot.empty]
  have hask : s.ask client e decode id =
      ((begun.run s.jobs.length).result? s.outcomes.length, begun.run s.jobs.length) := by
    have hdone : ((sent.runReady none).result? s.outcomes.length).isSome = true := by
      rw [hline, hresult]
      rfl
    have hawait : sent.await none none (fun s' => (s'.result? s.outcomes.length).isSome) =
        sent.runReady none :=
      await_of_runReady hpending hdone
    rw [← hline, ← hawait]
    rfl
  rw [hask]
  exact ⟨hresult, ⟨free, hserving'⟩, hserver, hlocator⟩

end Session

end ItemStore
