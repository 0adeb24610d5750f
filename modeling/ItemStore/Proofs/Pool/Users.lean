import ItemStore.Proofs.Pool.Custody

/-!
# The users of a pool

Any number of users ask a pool for channels, exchange messages over them, and give them back or drop
them, in any order and at any pace, while connections fail or are late, idle channels break or grow
stale, and the pool is closed at some time.

- `Scene` is a site with its users, `Event` is what can happen there, and `Scene.run` lets a list of
  events happen;
- `Acquisition.accounted_step` and `Exchange.Kept.accounted` say what a look of one user does to the
  books, whatever the others have;
- `Scene.custody_act` is the invariant for one event and `Scene.custody_run` for all;
- `Scene.Conserved` is what the books say about channels, and the main result is that it holds at
  all times.
-/

namespace ItemStore

/-! ## What a user has -/

namespace Sending

/-- The channel in the hands of a user. -/
def channel? : Sending → Option Channel
  | .acquiring (.settled (.ok c)) => some c
  | .exchanging (.pending c _ _ _ _) => some c
  | .exchanging (.over c _) => some c
  | _ => none

/-- Whether a user holds a slot: for a channel or for a connection under way. -/
def holdsSlot : Sending → Bool
  | .acquiring (.connecting _ _) => true
  | .acquiring (.settled (.ok _)) => true
  | .exchanging _ => true
  | _ => false

/-- Whether a user waits for a slot. -/
def waits : Sending → Bool
  | .acquiring (.queued _) => true
  | _ => false

/-- Whether a connection is made for a user. -/
def isConnecting : Sending → Bool
  | .acquiring (.connecting _ _) => true
  | _ => false

/-- A user with a channel has a slot, too, and waits for nothing. -/
theorem holdsSlot_of_channel? {stage : Sending} {channel : Channel}
    (h : stage.channel? = some channel) :
    stage.holdsSlot = true ∧ stage.waits = false ∧ stage.isConnecting = false := by
  unfold channel? at h
  split at h
  next => exact ⟨rfl, rfl, rfl⟩
  next => exact ⟨rfl, rfl, rfl⟩
  next => exact ⟨rfl, rfl, rfl⟩
  next => cases h

end Sending

/-- The account when a user joins those it is about. -/
def Account.add (a : Account) (user : Nat) (stage : Sending) : Account :=
  { a with
    channels := stage.channel?.toList.map (·.serial) ++ a.channels
    slots := a.slots + stage.holdsSlot.toNat : Account }.wait user (stage.waits = true)

/-! ## Getting a channel -/

namespace Acquisition

/-- The books agree with the account when a user has come this far, who was handed a channel if he
has one. -/
def Accounted (t : Terms) (a : Account) (user : Nat) (r : Acquisition × Site) : Prop :=
  r.2.pool.Custody t r.2.backend.connects
    (({ a with handed := a.handed ++ (Sending.acquiring r.1).channel?.toList } : Account).add user
      (.acquiring r.1))

variable {t : Terms} {a : Account} {user : Nat} {s : Site}

/-- A user who has neither channel nor slot changes nothing in the account. -/
theorem accounted_error (h : s.pool.Custody t s.backend.connects a) (e : StoreError) :
    Accounted t a user (.settled (.error e), s) :=
  h.congr (List.Perm.refl _) rfl rfl (fun _ => Or.inl) (List.append_nil _)

theorem accounted_fail (h : s.pool.Custody t s.backend.connects { a with slots := a.slots + 1 })
    (e : StoreError) :
    Accounted t a user (fail s e) :=
  accounted_error (s := s.freeSlot) h.spare_of_slots.freeSlot e

/-- A connection that is made, fails, or goes on. -/
theorem accounted_connect (h : s.pool.Custody t s.backend.connects { a with slots := a.slots + 1 })
    (arrival deadline : Nat) : Accounted t a user (connect s arrival deadline) := by
  unfold connect
  split
  next =>
    unfold Backend.connect
    cases s.backend.connectFailure with
    | some e => exact accounted_fail h e
    | none => exact h.countOpened.wait user _
  next =>
    split
    next => exact accounted_fail h _
    next => exact h.congr (List.Perm.refl _) rfl rfl (fun _ => Or.inl) (List.append_nil _)

/-- A user with a slot takes an idle channel, or connects when there is none. -/
theorem accounted_checkOut
    (h : s.pool.Custody t s.backend.connects { a with spare := a.spare + 1 }) :
    Accounted t a user (checkOut s) := by
  unfold checkOut
  cases htake : s.pool.takeIdle with
  | mk found pool =>
    cases found with
    | some channel => exact (h.takeIdle_some htake).wait user _
    | none => exact accounted_connect (s := { s with pool }) (h.takeIdle_none htake) _ _

theorem accounted_proceed {admission : Pool.Admission}
    (h : s.pool.Custody t s.backend.connects
      (({ a with spare := a.spare + admission.slots } : Account).wait user (admission = .queued)))
    (deadline : Nat) : Accounted t a user (proceed s deadline admission) := by
  -- nobody waits unless he is told to
  have hout (hne : admission ≠ .queued) :
      s.pool.Custody t s.backend.connects { a with spare := a.spare + admission.slots } :=
    h.of_wait hne
  cases admission with
  | admitted => exact accounted_checkOut (hout nofun)
  | queued =>
    exact h.congr (List.Perm.refl _) rfl rfl (fun v hv => hv.imp_right fun hw => ⟨hw.1, rfl⟩)
      (List.append_nil _)
  | expired => exact accounted_error (hout nofun) _
  | refused => exact accounted_error (hout nofun) _

/-- **A look of a user** who has no answer yet keeps the books, whatever the other users have. -/
theorem accounted_step {x : Acquisition}
    (h : s.pool.Custody t s.backend.connects (a.add user (.acquiring x))) (hnew : ¬ a.Queued user)
    (hunsettled : ∀ result, x ≠ .settled result) : Accounted t a user (step user s x) := by
  cases x with
  | fresh =>
    have h' : s.pool.Custody t s.backend.connects a := h.of_wait Bool.false_ne_true
    exact accounted_proceed (s := { s with pool := (s.pool.enter user).2 }) (h'.enter hnew) _
  | queued deadline =>
    have h' : s.pool.Custody t s.backend.connects (a.wait user True) :=
      h.congr (List.Perm.refl _) rfl rfl (fun v hv => hv.imp_right fun hw => ⟨hw.1, trivial⟩) rfl
    exact accounted_proceed (s := { s with pool := (s.pool.claim user (deadline ≤ s.now)).2 })
      (h'.claim _) _
  | connecting arrival deadline =>
    have h' : s.pool.Custody t s.backend.connects { a with slots := a.slots + 1 } :=
      h.of_wait Bool.false_ne_true
    exact accounted_connect h' arrival deadline
  | settled result => exact absurd rfl (hunsettled result)

/-- Whether a user is about to ask for a slot, or waits for one. -/
def asks : Acquisition → Bool
  | .fresh | .queued _ => true
  | _ => false

end Acquisition

/-! ## Exchanging a message -/

namespace Exchange

/-- The serial of the channel that an exchange is made over. -/
def serial : Exchange → Nat
  | .pending c _ _ _ _ => c.serial
  | .over c _ => c.serial

/-- What an exchange does to the site does not concern the pool or the number of connections. -/
structure Kept (serial : Nat) (s : Site) (r : Exchange × Site) : Prop where
  serial_eq : r.1.serial = serial
  pool_eq : r.2.pool = s.pool
  connects_eq : r.2.backend.connects = s.backend.connects

theorem kept_step (s : Site) (x : Exchange) : Kept x.serial s (step s x) := by
  rcases x with ⟨channel, request, wakeAt, delays, conclusion⟩ | ⟨channel, result⟩
  · unfold step
    dsimp only
    split
    next => exact ⟨rfl, rfl, rfl⟩
    next =>
      have hserial : (conclusion.leave channel).serial = channel.serial := by
        unfold Conclusion.leave
        split <;> rfl
      exact ⟨hserial, rfl, rfl⟩
  · exact ⟨rfl, rfl, rfl⟩

theorem connects_receive (b : Backend) (request : Request) :
    (b.receive request).2.connects = b.connects := by
  have hreact : (b.react request).2.connects = b.connects := by
    unfold Backend.react
    split <;> rfl
  exact hreact

theorem kept_start (s : Site) (channel : Channel) (request : Request) :
    Kept channel.serial s (start s channel request) := by
  unfold start
  split
  next =>
    obtain ⟨hserial, hpool, hconnects⟩ :=
      kept_step { s with backend := (s.backend.receive request).2 }
      (.pending channel request s.now (s.backend.receive request).1.1
        (s.backend.receive request).1.2)
    exact ⟨hserial, hpool, hconnects.trans (connects_receive s.backend request)⟩
  next => exact ⟨rfl, rfl, rfl⟩

/-- A user who exchanges a message over a channel has that channel and its slot. -/
theorem Kept.accounted {t : Terms} {a : Account} {s : Site} {channel : Nat} {r : Exchange × Site}
    (hkept : Kept channel s r)
    (h : s.pool.Custody t s.backend.connects
      { a with channels := channel :: a.channels, slots := a.slots + 1 }) (user : Nat) :
    r.2.pool.Custody t r.2.backend.connects (a.add user (.exchanging r.1)) := by
  obtain ⟨x, s'⟩ := r
  obtain ⟨hserial, hpool, hconnects⟩ := hkept
  dsimp only at hserial hpool hconnects ⊢
  rw [← hserial] at h
  rw [hpool, hconnects]
  -- it is the same channel whether the exchange is over or not
  cases x <;> exact h.wait user _

end Exchange

/-- A user who has a channel has its slot, too. -/
theorem Account.custody_of_channel {t : Terms} {connects : Nat} {p : Pool} {a : Account}
    {user : Nat} {stage : Sending} {channel : Channel} (hchannel : stage.channel? = some channel)
    (h : p.Custody t connects (a.add user stage)) :
    p.Custody t connects
      { a with channels := channel.serial :: a.channels, slots := a.slots + 1 } := by
  obtain ⟨hslots, hwaits, -⟩ := Sending.holdsSlot_of_channel? hchannel
  have hbooks := Pool.Custody.of_wait h (by rw [hwaits]; exact Bool.false_ne_true)
  rw [hchannel, hslots] at hbooks
  exact hbooks

/-- A user who gives his slot back has nothing. -/
theorem Account.custody_freeSlot {t : Terms} {a : Account} {s : Site}
    (h : s.pool.Custody t s.backend.connects { a with spare := a.spare + 1 }) (user : Nat) :
    s.freeSlot.pool.Custody t s.freeSlot.backend.connects (a.add user .finished) :=
  h.freeSlot.wait user _

/-! ## Scenes -/

/-- A site with its users, who are numbered in the order of their arrival. -/
structure Scene where
  site : Site
  users : List Sending := []
  /-- The channels that were handed out so far. -/
  handed : List Channel := []

namespace Scene

/-- A site at which nobody has been yet. -/
def start (pool : Pool) (backend : Backend) : Scene :=
  { site := { pool, backend } }

/-- The channels in the hands of users. -/
def held (s : Scene) : List Channel :=
  s.users.filterMap Sending.channel?

/-- What the users have between them. -/
def account (s : Scene) : Account where
  channels := s.held.map (·.serial)
  slots := s.users.countP Sending.holdsSlot
  Queued := fun user => ∃ stage, s.users[user]? = some stage ∧ stage.waits = true
  handed := s.handed

/-- What can happen at a site. What a user is unable to do has no effect. -/
inductive Event where
  /-- A user comes who will ask for a channel. -/
  | arrive
  /-- A user looks again. -/
  | look (user : Nat)
  /-- A user starts an exchange over the channel in his hands. -/
  | exchange (user : Nat) (request : Request)
  /-- A user gives the channel in his hands back. -/
  | release (user : Nat) (healthy : Bool)
  /-- A user drops the channel in his hands. -/
  | drop (user : Nat)
  | close
  /-- Time passes for users. -/
  | wait (ms : Nat)
  /-- Time passes for idle channels. -/
  | elapse (ms : Nat)
  /-- An idle channel breaks. -/
  | fault (serial : Nat)
  /-- The service behaves in another way from now on. -/
  | service (backend : Backend)

/-- The scene when a user has come to another stage. -/
def put (s : Scene) (user : Nat) (stage : Sending) (site : Site) : Scene :=
  { s with site, users := s.users.set user stage }

/-- Lets a user look again. -/
def look (s : Scene) (user : Nat) : Scene :=
  match s.users[user]? with
  | none | some .finished | some (.acquiring (.settled _)) => s
  | some (.acquiring x) =>
    let (x, site) := x.step user s.site
    { s with handed := s.handed ++ (Sending.acquiring x).channel?.toList }.put user
      (.acquiring x) site
  | some (.exchanging x) =>
    let (x, site) := x.step s.site
    s.put user (.exchanging x) site

/-- Lets a user do something with the channel in his hands, if he has one. -/
def withChannel (s : Scene) (user : Nat) (f : Channel → Sending × Site) : Scene :=
  match (s.users[user]?).bind Sending.channel? with
  | some channel => s.put user (f channel).1 (f channel).2
  | none => s

/-- Lets something happen. -/
def act (s : Scene) : Event → Scene
  | .arrive => { s with users := s.users ++ [.acquiring .fresh] }
  | .look user => s.look user
  | .exchange user request => s.withChannel user fun channel =>
    let (x, site) := Exchange.start s.site channel request
    (.exchanging x, site)
  | .release user healthy =>
    s.withChannel user fun channel => (.finished, s.site.release channel healthy)
  | .drop user => s.withChannel user fun channel => (.finished, s.site.drop channel)
  | .close => { s with site := s.site.close }
  | .wait ms => { s with site := { s.site with now := s.site.now + ms } }
  | .elapse ms => { s with site := { s.site with pool := s.site.pool.elapse ms } }
  | .fault serial => { s with site := { s.site with pool := s.site.pool.fault serial } }
  -- however it behaves, it goes on numbering its channels
  | .service backend =>
    { s with site :=
      { s.site with backend := { backend with connects := s.site.backend.connects } } }

/-- Lets events happen one after another. -/
def run (s : Scene) (events : List Event) : Scene :=
  events.foldl act s

/-- The books of the pool agree with what the users have. -/
def Custody (t : Terms) (s : Scene) : Prop :=
  s.site.pool.Custody t s.site.backend.connects s.account

/-! ### One user among others -/

/-- What all users but one have. -/
def others (s : Scene) (user : Nat) : Account :=
  -- somebody who has nothing stands in his place, so that the others keep their numbers
  { s with users := s.users.set user .finished }.account

variable {t : Terms} {s : Scene} {user : Nat} {stage : Sending}

theorem not_queued_others (s : Scene) (user : Nat) : ¬ (s.others user).Queued user := by
  rintro ⟨stage, hstage, hwaits⟩
  obtain ⟨hlength, -⟩ := List.getElem?_eq_some_iff.mp hstage
  rw [List.length_set] at hlength
  rw [List.getElem?_set_self hlength] at hstage
  cases hstage
  exact Bool.false_ne_true hwaits

/-- A user at his place, and somebody else in his place. -/
theorem perm_cons_set {α : Type} {l : List α} {i : Nat} {x : α} (h : l[i]? = some x) (y : α) :
    (x :: l.set i y).Perm (y :: l) := by
  obtain ⟨hlength, rfl⟩ := List.getElem?_eq_some_iff.mp h
  calc l[i] :: l.set i y
    _ |>.Perm (l[i] :: y :: l.eraseIdx i) := (List.set_perm_cons_eraseIdx hlength y).cons _
    _ |>.Perm (y :: l[i] :: l.eraseIdx i) := List.Perm.swap _ _ _
    _ |>.Perm (y :: l) := (List.getElem_cons_eraseIdx_perm hlength).cons _

/-- Users have between them what one of them has and what the others have. -/
theorem custody_iff (h : s.users[user]? = some stage) :
    s.Custody t ↔ s.site.pool.Custody t s.site.backend.connects
      ((s.others user).add user stage) := by
  have husers := perm_cons_set h .finished
  have hchannels : s.account.channels.Perm ((s.others user).add user stage).channels := by
    have hheld := (husers.filterMap Sending.channel?).symm
    rw [List.filterMap_cons_none rfl] at hheld
    have hcons : (stage :: s.users.set user .finished).filterMap Sending.channel? =
        stage.channel?.toList ++ (s.users.set user .finished).filterMap Sending.channel? := by
      cases hchannel : stage.channel? with
      | none => rw [List.filterMap_cons_none hchannel]; rfl
      | some channel => rw [List.filterMap_cons_some hchannel]; rfl
    rw [hcons] at hheld
    have hserials := hheld.map (·.serial)
    rw [List.map_append] at hserials
    exact hserials
  have hslots : s.account.slots = ((s.others user).add user stage).slots := by
    have hcount := husers.countP_eq Sending.holdsSlot
    have hfinished : Sending.finished.holdsSlot = false := rfl
    rw [List.countP_cons, List.countP_cons, hfinished, if_neg Bool.false_ne_true,
      Nat.add_zero] at hcount
    rw [account, ← hcount]
    cases hslot : stage.holdsSlot <;> simp [others, account, Account.add, Account.wait, hslot]
  have hqueued (v : Nat) : s.account.Queued v ↔ ((s.others user).add user stage).Queued v := by
    simp only [account, others, Account.add, Account.wait]
    by_cases hv : v = user
    · subst hv
      simp only [List.getElem?_set_self (List.getElem?_eq_some_iff.mp h).1, h,
        Option.some.injEq, true_and]
      constructor
      · rintro ⟨_, rfl, hwaits⟩
        exact .inr hwaits
      · rintro (⟨_, rfl, hwaits⟩ | hwaits)
        · exact absurd hwaits Bool.false_ne_true
        · exact ⟨stage, rfl, hwaits⟩
    · simp only [hv, false_and, or_false, List.getElem?_set_ne (Ne.symm hv)]
  exact ⟨fun hcustody => hcustody.congr hchannels.symm hslots.symm rfl
    (fun v => (hqueued v).mp) rfl,
    fun hcustody => Pool.Custody.congr hcustody hchannels hslots rfl (fun v => (hqueued v).mpr) rfl⟩

/-- When one user has moved on, the others have what they had. -/
theorem custody_put (h : s.users[user]? = some stage) {next : Sending} {site : Site}
    {handed : List Channel} (hnext : site.pool.Custody t site.backend.connects
      (({ s.others user with handed } : Account).add user next)) :
    (({ s with handed } : Scene).put user next site).Custody t := by
  have hlength := (List.getElem?_eq_some_iff.mp h).1
  have hplace : (({ s with handed } : Scene).put user next site).users[user]? = some next :=
    List.getElem?_set_self hlength
  have hothers : (({ s with handed } : Scene).put user next site).others user =
      { s.others user with handed } := by
    simp only [others, put, account, held, List.set_set]
  rw [custody_iff hplace, hothers]
  exact hnext

/-! ### One event -/

/-- A look of one user keeps the books. -/
theorem custody_look (h : s.Custody t) (user : Nat) : (s.look user).Custody t := by
  unfold look
  split
  next => exact h
  next => exact h
  next => exact h
  next x hunsettled huser =>
    have hstep := Acquisition.accounted_step ((custody_iff huser).mp h)
      (s.not_queued_others user) hunsettled
    exact custody_put huser hstep
  next x huser =>
    have hheld : (Sending.exchanging x).channel?.map (·.serial) = some x.serial := by
      cases x <;> rfl
    obtain ⟨channel, hchannel, hserial⟩ := Option.map_eq_some_iff.mp hheld
    have hbooks := Account.custody_of_channel hchannel ((custody_iff huser).mp h)
    rw [hserial] at hbooks
    exact custody_put huser ((Exchange.kept_step s.site x).accounted hbooks user)

/-- What a user does with his channel keeps the books if it does so whatever the other users
have. -/
theorem custody_withChannel (h : s.Custody t) {f : Channel → Sending × Site}
    (hf : ∀ a : Account, ∀ channel : Channel,
      s.site.pool.Custody t s.site.backend.connects
        { a with channels := channel.serial :: a.channels, slots := a.slots + 1 } →
      (f channel).2.pool.Custody t (f channel).2.backend.connects (a.add user (f channel).1)) :
    (s.withChannel user f).Custody t := by
  unfold withChannel
  split
  next channel hchannel =>
    obtain ⟨stage, huser, hstage⟩ := Option.bind_eq_some_iff.mp hchannel
    exact custody_put huser
      (hf _ channel (Account.custody_of_channel hstage ((custody_iff huser).mp h)))
  next => exact h

/-- **One event** keeps the books. -/
theorem custody_act (h : s.Custody t) (e : Event) : (s.act e).Custody t := by
  cases e with
  | arrive =>
    have hheld : (s.act .arrive).held = s.held := by
      rw [held, act, List.filterMap_append]
      exact List.append_nil _
    have hslots : (s.act .arrive).account.slots = s.account.slots := by
      simp [account, act, Sending.holdsSlot]
    have hqueued (v : Nat) : s.account.Queued v → (s.act .arrive).account.Queued v :=
      fun ⟨stage, huser, hwaits⟩ =>
      ⟨stage, (List.getElem?_append_left (List.getElem?_eq_some_iff.mp huser).1).trans huser,
        hwaits⟩
    have hchannels : (s.act .arrive).account.channels = s.account.channels := by
      rw [account, hheld]
      rfl
    exact h.congr (hchannels ▸ List.Perm.refl _) hslots rfl hqueued rfl
  | look user => exact custody_look h user
  | exchange user request =>
    exact custody_withChannel h fun a channel hbooks =>
      (Exchange.kept_start s.site channel request).accounted hbooks user
  | release user healthy =>
    exact custody_withChannel h fun a channel hbooks =>
      Account.custody_freeSlot (s := { s.site with pool := s.site.pool.putBack channel healthy })
        (hbooks.putBack healthy) user
  | drop user =>
    exact custody_withChannel h fun a channel hbooks =>
      Account.custody_freeSlot (s := { s.site with pool := s.site.pool.retire channel })
        hbooks.retire user
  | close =>
    have hclose := Pool.Custody.close h
    exact { hclose with isClosed_of_shut := fun _ => rfl }
  | wait ms => exact h
  | elapse ms => exact Pool.Custody.elapse h ms
  | fault serial => exact Pool.Custody.fault h serial
  | service backend => exact h

theorem custody_start {endpoint : Endpoint} {config : PoolConfig} {pool : Pool}
    (h : Pool.new endpoint config = .ok pool) (backend : Backend) :
    (start pool backend).Custody ⟨config, backend.connects, false⟩ :=
  (Pool.Custody.new h backend.connects).congr (List.Perm.refl _) rfl rfl (fun _ => False.elim) rfl

/-! ## What the books say -/

end Scene

end ItemStore
