import ItemStore.Proofs.Session.Quiet

/-!
# One look of a send

A send goes through its stages by looks, one at a time, and between two looks of its own anything
can happen at the site. This module says once what a look can come to. Later modules do not unfold
the steps.

## Architecture

- `Acquisition.Looked` is about the way to a channel, `Exchange.Goes` about the exchange over it;
- `Sending.Looked` puts the two together, one constructor for each thing that a look of a send can
  be;
- `Sending.taken` is the pool while a send has its channel in hand, and
  `Sending.Looked.sameChannels` says that nothing else happens to the channels of the pool until
  they are given back;
- `Session.run_send` carries a look over to the session that the send belongs to.

Stages count down: `Acquisition.rank` and the delays that are left never grow, and a look that was
due makes them less.
-/

namespace ItemStore

/-- A slot that is given back wakes at most one user. -/
theorem Site.freeSlot_spec (s : Site) : s.freeSlot.now = s.now ∧ s.freeSlot.backend = s.backend ∧
    (s.freeSlot.ready = s.ready ∨ ∃ user, s.freeSlot.ready = s.ready ++ [user]) := by
  unfold Site.freeSlot Pool.freeSlot
  cases s.pool.waiting with
  | nil => exact ⟨rfl, rfl, .inl (List.append_nil _)⟩
  | cons user rest => exact ⟨rfl, rfl, .inr ⟨user, rfl⟩⟩

/-- A user in line is not told to wait on if he is late. -/
theorem Pool.eq_false_of_claim {p : Pool} {user : Nat} {tooLate : Bool}
    (h : (p.claim user tooLate).1 = .queued) :
    tooLate = false := by
  unfold Pool.claim at h
  split at h
  · split at h <;> cases h
  · split at h
    · cases h
    · split at h
      · cases h
      · exact Bool.eq_false_iff.mpr ‹_›

/-! ## Getting a channel -/

namespace Acquisition

/-- How many steps are left on the way to a channel. -/
def rank : Acquisition → Nat
  | .fresh | .queued _ => 2
  | .connecting _ _ => 1
  | .settled _ => 0

/-- What a look of a user on the way to a channel comes to, who has at most `n` steps left after
it. -/
structure Looked (s : Site) (n : Nat) (r : Acquisition × Site) : Prop where
  now_eq : r.2.now = s.now
  journal_eq : r.2.backend.journal = s.backend.journal
  behaviour_eq : r.2.backend.behaviour = s.backend.behaviour
  /-- Only a user who is refused leaves a slot to the next in line. -/
  ready_eq : r.2.ready = s.ready ∨ ∃ e user, r.1 = .settled (.error e) ∧
    r.2.ready = s.ready ++ [user]
  isOpen : ∀ channel, r.1 = .settled (.ok channel) → channel.isOpen = true
  /-- A user without an answer has a time at which to look again. -/
  deadline : (∀ result, r.1 ≠ .settled result) → ∃ time, r.1.deadline? = some time ∧ s.now < time
  rank_le : r.1.rank ≤ n

variable {s : Site} {n : Nat} {r : Acquisition × Site}

theorem Looked.mono (h : Looked s n r) {m : Nat} (hle : n ≤ m) : Looked s m r :=
  { h with rank_le := Nat.le_trans h.rank_le hle }

/-- A look that only begins with another pool, and another count of connections. -/
theorem Looked.of_site {s' : Site} (h : Looked s' n r) (hnow : s'.now = s.now)
    (hjournal : s'.backend.journal = s.backend.journal)
    (hbehaviour : s'.backend.behaviour = s.backend.behaviour) (hready : s'.ready = s.ready) :
    Looked s n r where
  now_eq := h.now_eq.trans hnow
  journal_eq := h.journal_eq.trans hjournal
  behaviour_eq := h.behaviour_eq.trans hbehaviour
  ready_eq := hready ▸ h.ready_eq
  isOpen := h.isOpen
  deadline := hnow ▸ h.deadline
  rank_le := h.rank_le

theorem looked_error (s : Site) (e : StoreError) : Looked s 0 (.settled (.error e), s) where
  now_eq := rfl
  journal_eq := rfl
  behaviour_eq := rfl
  ready_eq := .inl rfl
  isOpen := nofun
  deadline h := absurd rfl (h _)
  rank_le := Nat.le_refl _

theorem looked_channel (s : Site) {channel : Channel} (hopen : channel.isOpen = true) :
    Looked s 0 (.settled (.ok channel), s) where
  now_eq := rfl
  journal_eq := rfl
  behaviour_eq := rfl
  ready_eq := .inl rfl
  isOpen c h := by
    cases h
    exact hopen
  deadline h := absurd rfl (h _)
  rank_le := Nat.le_refl _

theorem looked_fail (s : Site) (e : StoreError) : Looked s 0 (fail s e) := by
  obtain ⟨hnow, hbackend, hready⟩ := Site.freeSlot_spec s
  exact
    { now_eq := hnow
      journal_eq := congrArg Backend.journal hbackend
      behaviour_eq := congrArg Backend.behaviour hbackend
      ready_eq := hready.imp_right fun ⟨user, huser⟩ => ⟨e, user, rfl, huser⟩
      isOpen := nofun
      deadline := fun h => absurd rfl (h _)
      rank_le := Nat.le_refl _ }

/-- A connection that is due is made or fails, and otherwise goes on. -/
theorem looked_connect (s : Site) (arrival deadline : Nat) :
    Looked s (if min arrival deadline ≤ s.now then 0 else 1) (connect s arrival deadline) := by
  unfold connect
  by_cases harrival : arrival ≤ s.now
  · rw [if_pos harrival, if_pos (Nat.le_trans (Nat.min_le_left _ _) harrival)]
    unfold Backend.connect
    cases s.backend.connectFailure with
    | some e => exact looked_fail s e
    | none => exact Looked.of_site (s := s) (looked_channel _ rfl) rfl rfl rfl rfl
  · rw [if_neg harrival]
    by_cases hdeadline : deadline ≤ s.now
    · rw [if_pos hdeadline, if_pos (Nat.le_trans (Nat.min_le_right _ _) hdeadline)]
      exact looked_fail s _
    · have hlater : s.now < min arrival deadline :=
        Nat.lt_min.mpr ⟨Nat.not_le.mp harrival, Nat.not_le.mp hdeadline⟩
      rw [if_neg hdeadline, if_neg (Nat.not_le.mpr hlater)]
      exact
        { now_eq := rfl
          journal_eq := rfl
          behaviour_eq := rfl
          ready_eq := .inl rfl
          isOpen := nofun
          deadline := fun _ => ⟨_, rfl, hlater⟩
          rank_le := Nat.le_refl _ }

theorem looked_checkOut (s : Site) : Looked s 1 (checkOut s) := by
  unfold checkOut
  cases htake : s.pool.takeIdle with
  | mk found pool =>
    cases found with
    | some channel =>
      have hchannel := looked_channel { s with pool } (Pool.isOpen_of_takeIdle htake)
      exact (Looked.of_site (s := s) hchannel rfl rfl rfl rfl).mono (Nat.zero_le _)
    | none =>
      have hconnect := looked_connect { s with pool } (s.now + s.backend.connectDelay)
        (s.now + s.pool.config.connectTimeout)
      have hone :
          (if min (s.now + s.backend.connectDelay) (s.now + s.pool.config.connectTimeout) ≤ s.now
            then 0 else 1) ≤ 1 := by split <;> decide
      exact (Looked.of_site (s := s) hconnect rfl rfl rfl rfl).mono hone

/-- Goes on from an answer about a slot. A user who is told to wait must not be late already. -/
theorem looked_proceed {admission : Pool.Admission} {deadline : Nat}
    (h : admission = .queued → s.now < deadline) :
    Looked s (if admission = .queued then 2 else 1) (proceed s deadline admission) := by
  cases admission with
  | admitted => exact looked_checkOut s
  | queued =>
    exact
      { now_eq := rfl
        journal_eq := rfl
        behaviour_eq := rfl
        ready_eq := .inl rfl
        isOpen := nofun
        deadline := fun _ => ⟨_, rfl, h rfl⟩
        rank_le := Nat.le_refl _ }
  | expired => exact (looked_error s _).mono (Nat.zero_le _)
  | refused => exact (looked_error s _).mono (Nat.zero_le _)

/-- Whether the time has come at which a user must look. -/
def isDue (x : Acquisition) (now : Nat) : Bool :=
  match x.deadline? with
  | some time => time ≤ now
  | none => false

/-- **A look of a user** who has no answer yet. If it was due, it brings him a step further. -/
theorem looked_step (hpositive : 0 < s.pool.config.acquireTimeout) {x : Acquisition}
    (hunsettled : ∀ result, x ≠ .settled result) (user : Nat) :
    Looked s (x.rank - (x.isDue s.now).toNat) (step user s x) := by
  cases x with
  | fresh =>
    have hlater : (s.pool.enter user).1 = .queued → s.now < s.now + s.pool.config.acquireTimeout :=
      fun _ => Nat.lt_add_of_pos_right hpositive
    have hproceed := looked_proceed (s := { s with pool := (s.pool.enter user).2 }) hlater
    refine (Looked.of_site (s := s) hproceed rfl rfl rfl rfl).mono ?_
    split <;> simp [rank, isDue, deadline?]
  | queued deadline =>
    have hlater : (s.pool.claim user (deadline ≤ s.now)).1 = .queued → s.now < deadline := by
      intro hqueued
      exact Nat.not_le.mp (of_decide_eq_false (Pool.eq_false_of_claim hqueued))
    have hproceed := looked_proceed
      (s := { s with pool := (s.pool.claim user (deadline ≤ s.now)).2 }) hlater
    refine (Looked.of_site (s := s) hproceed rfl rfl rfl rfl).mono ?_
    split
    next hqueued => simp [isDue, deadline?, rank, Nat.not_le.mpr (hlater hqueued)]
    next =>
      have hone := Bool.toNat_le (isDue (.queued deadline) s.now)
      simp only [rank]
      omega
  | connecting arrival deadline =>
    refine (looked_connect s arrival deadline).mono ?_
    simp only [isDue, deadline?, rank]
    split <;> simp [*]
  | settled result => exact absurd rfl (hunsettled result)

end Acquisition

/-! ## The channels of a pool -/

namespace Pool

variable {p p' : Pool}

/-- Two pools have the same channels and treat them alike. They may differ in their slots and
counts. -/
structure SameChannels (p p' : Pool) : Prop where
  idle_eq : p.idle = p'.idle
  retired_eq : p.retired = p'.retired
  isClosed_eq : p.isClosed = p'.isClosed
  config_eq : p.config = p'.config
  clock_eq : p.clock = p'.clock

theorem SameChannels.trans {p₁ p₂ p₃ : Pool} (h : p₁.SameChannels p₂) (h' : p₂.SameChannels p₃) :
    p₁.SameChannels p₃ where
  idle_eq := h.idle_eq.trans h'.idle_eq
  retired_eq := h.retired_eq.trans h'.retired_eq
  isClosed_eq := h.isClosed_eq.trans h'.isClosed_eq
  config_eq := h.config_eq.trans h'.config_eq
  clock_eq := h.clock_eq.trans h'.clock_eq

/-- The same channel is taken, and the same ones are left. -/
theorem SameChannels.takeIdle (h : p.SameChannels p') :
    p.takeIdle.2.SameChannels p'.takeIdle.2 := by
  have hfresh : p.isFresh = p'.isFresh := by
    funext i
    rw [isFresh, isFresh, h.clock_eq, h.config_eq]
  unfold Pool.takeIdle
  rw [hfresh, h.idle_eq, h.retired_eq]
  dsimp only
  split <;> exact ⟨rfl, rfl, h.isClosed_eq, h.config_eq, h.clock_eq⟩

theorem sameChannels_enter (p : Pool) (user : Nat) : (p.enter user).2.SameChannels p := by
  unfold enter
  repeat' split
  all_goals exact ⟨rfl, rfl, rfl, rfl, rfl⟩

theorem sameChannels_claim (p : Pool) (user : Nat) (tooLate : Bool) :
    (p.claim user tooLate).2.SameChannels p := by
  unfold claim
  repeat' split
  all_goals exact ⟨rfl, rfl, rfl, rfl, rfl⟩

end Pool

namespace Acquisition

variable {s site : Site} {channel : Channel}

theorem sameChannels_of_connect {arrival deadline : Nat}
    (h : connect s arrival deadline = (.settled (.ok channel), site)) :
    site.pool.SameChannels s.pool := by
  unfold connect at h
  split at h
  next =>
    split at h
    next =>
      cases h
      exact ⟨rfl, rfl, rfl, rfl, rfl⟩
    next => cases h
  next =>
    split at h
    next => cases h
    next => cases h

theorem sameChannels_of_checkOut (h : checkOut s = (.settled (.ok channel), site)) :
    site.pool.SameChannels s.pool.takeIdle.2 := by
  unfold checkOut at h
  split at h
  next pool htake =>
    cases h
    rw [htake]
    exact ⟨rfl, rfl, rfl, rfl, rfl⟩
  next pool htake =>
    rw [htake]
    exact sameChannels_of_connect h

/-- Only a user who is admitted gets a channel at once. -/
theorem sameChannels_of_proceed {deadline : Nat} {admission : Pool.Admission}
    (h : proceed s deadline admission = (.settled (.ok channel), site)) :
    site.pool.SameChannels s.pool.takeIdle.2 := by
  cases admission with
  | admitted => exact sameChannels_of_checkOut h
  | queued | expired | refused => cases h

/-- The pool in the hands of a user who has just got a channel. A user who gets a slot at the same
look takes the latest idle channel that can be used again; one who waits for a connection leaves the
idle ones alone. -/
def taken (p : Pool) : Acquisition → Pool
  | .fresh | .queued _ => p.takeIdle.2
  | .connecting _ _ | .settled _ => p

/-- **A look that gets a channel** does nothing else to the channels of the pool. -/
theorem sameChannels_of_step {x : Acquisition} {user : Nat}
    (h : x.step user s = (.settled (.ok channel), site)) :
    site.pool.SameChannels (x.taken s.pool) := by
  cases x with
  | fresh => exact (sameChannels_of_proceed h).trans (s.pool.sameChannels_enter user).takeIdle
  | queued deadline =>
    exact (sameChannels_of_proceed h).trans (s.pool.sameChannels_claim user _).takeIdle
  | connecting arrival deadline => exact sameChannels_of_connect h
  | settled result =>
    cases h
    exact ⟨rfl, rfl, rfl, rfl, rfl⟩

end Acquisition

/-! ## Exchanging a message -/

/-- What is left of some delays is due later, and it is less if the first one was due. -/
theorem Exchange.wait_spec {now wakeAt wakeAt' : Nat} {delays delays' : List Nat}
    (h : wait now wakeAt delays = some (wakeAt', delays')) :
    now < wakeAt' ∧ delays'.length + (decide (wakeAt ≤ now)).toNat ≤ delays.length := by
  induction delays generalizing wakeAt with
  | nil =>
    rw [wait] at h
    split at h
    next => cases h
    next hlater =>
      cases h
      simp [hlater, Nat.not_le.mp hlater]
  | cons ms delays ih =>
    rw [wait] at h
    split at h
    next =>
      obtain ⟨hlater, hlength⟩ := ih h
      have hone := Bool.toNat_le (decide (wakeAt ≤ now))
      refine ⟨hlater, ?_⟩
      rw [List.length_cons]
      omega
    next hlater =>
      cases h
      simp [hlater, Nat.not_le.mp hlater]

namespace Backend

variable {b : Backend} {bound : Nat}

/-- The longest of some replies is as long as one of them, or as the start. -/
theorem foldl_max_le_iff (replies : List Reply) (n : Nat) :
    replies.foldl (fun n reply => max n reply.delays.length) n ≤ bound ↔
      n ≤ bound ∧ ∀ reply ∈ replies, reply.delays.length ≤ bound := by
  induction replies generalizing n with
  | nil => simp
  | cons reply replies ih =>
    rw [List.foldl_cons, ih, Nat.max_le, List.forall_mem_cons, and_assoc]

theorem longestReply_le_iff : b.longestReply ≤ bound ↔
    ∀ first rest, b.behaviour = .script first rest →
    ∀ reply ∈ first :: rest, reply.delays.length ≤ bound := by
  unfold longestReply
  cases b.behaviour with
  | serve => simp
  | script first rest =>
    rw [foldl_max_le_iff]
    simp

theorem longestReply_congr {b' : Backend} (h : b'.behaviour = b.behaviour) :
    b'.longestReply = b.longestReply := by
  rw [longestReply, longestReply, h]

/-- A request is entered in the journal. Replies do not get longer by that. -/
theorem receive_spec (h : b.longestReply ≤ bound) (request : Request) :
    (b.receive request).1.1.length ≤ bound ∧ (b.receive request).2.longestReply ≤ bound ∧
      (b.receive request).2.journal = b.journal ++ [(request, (b.receive request).1.2)] := by
  have hreact : (b.react request).1.delays.length ≤ bound ∧
      (b.react request).2.longestReply ≤ bound ∧
      (b.react request).2.journal = b.journal := by
    rw [longestReply_le_iff] at h
    unfold react
    split
    next hserve =>
      refine ⟨Nat.zero_le _, ?_, rfl⟩
      rw [longestReply_le_iff]
      intro first rest hscript
      cases hserve.symm.trans hscript
    next first hscript =>
      refine ⟨h first [] hscript first List.mem_cons_self, ?_, rfl⟩
      rw [longestReply_le_iff]
      exact h
    next first second rest hscript =>
      have hall := h first (second :: rest) hscript
      refine ⟨hall first List.mem_cons_self, ?_, rfl⟩
      rw [longestReply_le_iff]
      intro first' rest' heq
      cases heq
      exact fun reply hreply => hall reply (List.mem_cons_of_mem _ hreply)
  obtain ⟨hdelays, hlongest, hjournal⟩ := hreact
  refine ⟨hdelays, hlongest, ?_⟩
  show (b.react request).2.journal ++ _ = _
  rw [hjournal]
  rfl

end Backend

namespace Exchange

/-- What a look at a pending exchange comes to: the next stage of the send, perhaps its end, and the
site. -/
inductive Goes (s : Site) : Exchange → Sending → Option Ending → Site → Prop where
  | on {channel : Channel} {request : Request} {wakeAt wakeAt' : Nat} {delays delays' : List Nat}
      {conclusion : Conclusion} (hwait : wait s.now wakeAt delays = some (wakeAt', delays')) :
      Goes s (.pending channel request wakeAt delays conclusion)
        (.exchanging (.pending channel request wakeAt' delays' conclusion)) none s
  | ends {channel : Channel} {request : Request} {wakeAt : Nat} {delays : List Nat}
      {conclusion : Conclusion} (hwait : wait s.now wakeAt delays = none) :
      Goes s (.pending channel request wakeAt delays conclusion) .finished
        (some ⟨some (conclusion.leave channel), conclusion.result request⟩)
          { s with backend := s.backend.finish }

theorem goes_step (s : Site) (channel : Channel) (request : Request) (wakeAt : Nat)
    (delays : List Nat) (conclusion : Conclusion) :
    let r := Sending.proceed (step s (.pending channel request wakeAt delays conclusion))
    Goes s (.pending channel request wakeAt delays conclusion) r.1 r.2.1 r.2.2 := by
  cases hwait : wait s.now wakeAt delays with
  | some next =>
    simp only [step, hwait]
    exact .on hwait
  | none =>
    simp only [step, hwait]
    exact .ends hwait

end Exchange

/-! ## Sends -/

namespace Sending

/-- What a look of a send comes to: the next stage, perhaps the end, and the site. -/
inductive Looked (user : Nat) (request : Request) (s : Site) :
    Sending → Sending → Option Ending → Site → Prop where
  /-- There is no answer about a channel yet. -/
  | waits {x x' : Acquisition} {site : Site} (hstep : x.step user s = (x', site))
      (hunsettled : ∀ result, x' ≠ .settled result) : Looked user request s (.acquiring x)
        (.acquiring x') none site
  /-- There will be no channel. -/
  | refused {x : Acquisition} {e : StoreError} {site : Site}
      (hstep : x.step user s = (.settled (.error e), site)) :
      Looked user request s (.acquiring x) .finished (some ⟨none, .error e⟩) site
  /-- There is a channel, and the request goes over it at once. -/
  | takes {x : Acquisition} {channel : Channel} {site site' : Site} {stage : Sending}
      {ending : Option Ending} (hstep : x.step user s = (.settled (.ok channel), site))
      (hgoes : Exchange.Goes { site with backend := (site.backend.receive request).2 }
        (.pending channel request site.now (site.backend.receive request).1.1
          (site.backend.receive request).1.2)
        stage ending site') :
      Looked user request s (.acquiring x) stage ending site'
  /-- The exchange goes on or is over. -/
  | goes {x : Exchange} {site : Site} {stage : Sending} {ending : Option Ending}
      (hgoes : Exchange.Goes s x stage ending site) : Looked user request s (.exchanging x)
        stage ending site
  | rests : Looked user request s .finished .finished none s

/-- The stages at which a send can rest between two looks. -/
inductive IsResting : Sending → Prop where
  | acquiring {x : Acquisition} (hunsettled : ∀ result, x ≠ .settled result) : IsResting
      (.acquiring x)
  | exchanging (channel : Channel) (request : Request) (wakeAt : Nat) (delays : List Nat)
      (conclusion : Conclusion) :
      IsResting (.exchanging (.pending channel request wakeAt delays conclusion))
  | finished : IsResting .finished

/-- **A look of a send** is one of these. -/
theorem looked_step {s : Site} (hpositive : 0 < s.pool.config.acquireTimeout) {stage : Sending}
    (hresting : stage.IsResting) (user : Nat) (request : Request) :
    Looked user request s stage (stage.step user request s).1 (stage.step user request s).2.1
      (stage.step user request s).2.2 := by
  cases hresting with
  | finished => exact .rests
  | exchanging channel request' wakeAt delays conclusion =>
    exact .goes (Exchange.goes_step s channel request' wakeAt delays conclusion)
  | @acquiring x hunsettled =>
    have hlooked := Acquisition.looked_step hpositive hunsettled user
    cases hstep : x.step user s with
    | mk x' site =>
      cases x' with
      | settled result =>
        cases result with
        | error e =>
          simp only [step, hstep]
          exact .refused hstep
        | ok channel =>
          -- what is handed out is open, so the request is sent
          have hopen : channel.isOpen = true := hlooked.isOpen channel (by rw [hstep])
          have hstart : Exchange.start site channel request =
              Exchange.step { site with backend := (site.backend.receive request).2 }
              (.pending channel request site.now
                (site.backend.receive request).1.1 (site.backend.receive request).1.2) := by
            rw [Exchange.start, if_pos hopen]
          have hsend : step user request s (.acquiring x) =
              proceed (Exchange.start site channel request) := by
            simp only [step, hstep]
          rw [hsend, hstart]
          exact .takes hstep (Exchange.goes_step _ channel request site.now _ _)
      | fresh | queued | connecting =>
        simp only [step, hstep]
        refine .waits hstep fun result h => ?_
        cases h

/-- The pool in the hands of a send that has a channel, if it was `p` before the look that the send
ends at. -/
def taken (p : Pool) : Sending → Pool
  | .acquiring x => x.taken p
  | .exchanging _ | .finished => p

/-- A send that gives a channel back has done nothing else to the channels of the pool. -/
theorem Looked.sameChannels {user : Nat} {request : Request} {s site : Site}
    {stage stage' : Sending} {left : Channel} {result : Except StoreError Response}
    (h : Looked user request s stage stage' (some ⟨some left, result⟩) site) :
    site.pool.SameChannels (stage.taken s.pool) := by
  have hgoes {s site : Site} {x : Exchange} {ending : Option Ending}
      (h : Exchange.Goes s x stage' ending site) :
      site.pool = s.pool := by
    cases h with
    | on => rfl
    | ends => rfl
  cases h with
  | takes hstep h =>
    have htaken := Acquisition.sameChannels_of_step hstep
    rw [hgoes h]
    exact htaken
  | goes h =>
    rw [hgoes h]
    exact ⟨rfl, rfl, rfl, rfl, rfl⟩

end Sending

/-! ## Sessions -/

/-- The site after a send has ended, if it has: its channel is given back, if it got one. -/
def Site.after (s : Site) : Option Ending → Site
  | some ⟨some channel, _⟩ => s.release channel channel.isOpen
  | _ => s

/-- A send that has ended wakes at most one other. -/
theorem Site.after_spec (s : Site) (ending : Option Ending) : (s.after ending).now = s.now ∧
    (s.after ending).backend = s.backend ∧
    ∃ more, (s.after ending).ready = s.ready ++ more ∧ more.length ≤ ending.toList.length := by
  unfold after
  split
  next channel _ =>
    obtain ⟨hnow, hbackend, hready⟩ :=
      freeSlot_spec { s with pool := s.pool.putBack channel channel.isOpen }
    refine ⟨hnow, hbackend, ?_⟩
    rcases hready with hready | ⟨user, hready⟩
    · exact ⟨[], hready.trans (List.append_nil _).symm, Nat.zero_le _⟩
    · exact ⟨[user], hready, Nat.le_refl _⟩
  next => exact ⟨rfl, rfl, [], (List.append_nil _).symm, Nat.zero_le _⟩

theorem Site.backend_after (s : Site) (ending : Option Ending) :
    (s.after ending).backend = s.backend :=
  (s.after_spec ending).2.1

namespace Session

variable {α : Type} {s : Session α} {i : Nat} {request : Request} {success : StatusSet}
  {decode : Decoder α}
  {stage stage' : Sending} {ending : Option Ending} {site : Site} {o : Outcome α}

/-- The outcome after its send has ended, if it has. -/
def settled (request : Request) (success : StatusSet) (decode : Decoder α) (o : Outcome α) :
    Option Ending → Outcome α
  | some e => { o with slot := (o.slot.complete (resultOf request success decode e)).2 }
  | none => o

/-- When a send looks for whose result nobody waits, then its stage, its outcome and the site
change, and nothing else. -/
theorem run_send (hjob : s.jobs[i]? = some (.send i request success decode stage))
    (houtcome : s.outcomes[i]? = some o) (hwatchers : o.watchers = [])
    (hstep : stage.step i request s.site = (stage', ending, site)) :
    s.run i = { s with
      site := site.after ending
      jobs := s.jobs.set i (.send i request success decode stage')
      outcomes := s.outcomes.set i (settled request success decode o ending) } := by
  cases ending with
  | none =>
    have hkept : s.outcomes.set i o = s.outcomes := by
      obtain ⟨hlength, rfl⟩ := List.getElem?_eq_some_iff.mp houtcome
      exact List.set_getElem_self hlength
    simp [run, hjob, hstep, setJob, settled, hkept, Site.after]
  | some e =>
    obtain ⟨channel, result⟩ := e
    cases channel <;>
      simp [run, hjob, hstep, setJob, resolve, houtcome, hwatchers, Site.wake, giveBack,
        settled, Site.after]

end Session

end ItemStore
