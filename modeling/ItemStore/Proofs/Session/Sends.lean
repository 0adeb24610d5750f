import ItemStore.Proofs.Session.Progress

/-!
# What becomes of a send

Whatever else happens in a session, each send makes at most one exchange, resolves once, and gives
back what it got.

- `Standing.exchanged_eq` and `Standing.result_eq` read off what is on record of a send;
- `Pool.TakesBack` compares a pool that takes a channel back with the pool just before, and
  `Chronicle.Sound.givesBack_act` says that this is what becomes of the channel of a send that ends;
- `Chronicle.holdsSlot` says who holds a slot, and `Chronicle.Sound.inUse_eq` that nobody else does;
- `Chronicle.Served` is all that is promised to one send. The main result is
  `Chronicle.serves_every_send`.
-/

namespace ItemStore

/-! ## What is on record of one send -/

section
variable {α : Type} {request : Request} {success : StatusSet} {decode : Decoder α} {stage : Sending}
  {r : Record α}

theorem Standing.exchanged_eq (h : Standing request success decode stage r) :
    r.handed.length ≤ 1 ∧ r.exchanged.map Prod.fst = r.handed.map fun _ => request := by
  cases h <;> simp

theorem Standing.result_eq (h : Standing request success decode stage r)
    {result : Except StoreError α} (hresult : r.result = some result) :
    match r.exchanged with
    | [(_, .respond response)] => result = response.interpret success decode request.id
    | _ => ∃ e, result = .error e ∧ e.requestId.isSome = true := by
  cases h with
  | acquiring | exchanging => cases hresult
  | @refused e hid =>
    cases hresult
    exact ⟨e, rfl, hid⟩
  | answered hopen conclusion =>
    cases hresult
    cases conclusion with
    | respond response => rfl
    | fault f => exact ⟨_, rfl, rfl⟩
    | reject e => exact ⟨_, rfl, rfl⟩

end

/-! ## Taking a channel back -/

namespace Pool

variable {p p' : Pool} {channel : Channel}

/-- A pool takes a channel back. It lies idle in front of the others, if its exchange kept it open,
the pool is not closed and there is room; otherwise it is closed and given up. The others stay as
they are. -/
def TakesBack (p : Pool) (channel : Channel) (keepsOpen : Bool) (p' : Pool) : Prop :=
  if keepsOpen = true ∧ p.isClosed = false ∧ p.idle.length < p.config.maxIdle then
    p'.idle = ⟨channel, p.clock⟩ :: p.idle ∧ p'.retired = p.retired
  else p'.idle = p.idle ∧ p'.retired = channel.closed :: p.retired

theorem takesBack_putBack (p : Pool) (hopen : channel.isOpen = true) (conclusion : Conclusion) :
    p.TakesBack channel conclusion.keepsOpen
      (p.putBack (conclusion.leave channel) (conclusion.leave channel).isOpen) := by
  unfold TakesBack
  cases hkeeps : conclusion.keepsOpen with
  | false =>
    -- a closed channel is closed once more
    have hleave : conclusion.leave channel = channel.closed := by simp [Conclusion.leave, hkeeps]
    rw [hleave, if_neg fun h => Bool.false_ne_true h.1]
    exact ⟨rfl, rfl⟩
  | true =>
    have hleave : conclusion.leave channel = channel := by simp [Conclusion.leave, hkeeps]
    rw [hleave, hopen]
    by_cases hroom : p.isClosed = false ∧ p.idle.length < p.config.maxIdle
    · have hput : p.putBack channel true = { p with idle := ⟨channel, p.clock⟩ :: p.idle } := by
        simp [putBack, hopen, hroom]
      rw [hput, if_pos ⟨rfl, hroom⟩]
      exact ⟨rfl, rfl⟩
    · have hput : p.putBack channel true = p.retire channel := by
        refine if_neg ?_
        simpa [hopen] using hroom
      rw [hput, if_neg fun h => hroom h.2]
      exact ⟨rfl, rfl⟩

/-- Who gets the slot makes no difference to the channel. -/
theorem TakesBack.freeSlot {keepsOpen : Bool} (h : p.TakesBack channel keepsOpen p') :
    p.TakesBack channel keepsOpen p'.freeSlot.2 := by
  unfold Pool.freeSlot
  split <;> exact h

theorem SameChannels.takesBack {p₁ p₂ : Pool} (h : p₁.SameChannels p₂) {keepsOpen : Bool}
    (hback : p₁.TakesBack channel keepsOpen p') : p₂.TakesBack channel keepsOpen p' := by
  unfold TakesBack at hback ⊢
  rwa [h.idle_eq, h.retired_eq, h.isClosed_eq, h.config_eq, h.clock_eq] at hback

end Pool

/-! ## The channel of a send that ends -/

/-- A send does not finish without an ending. -/
theorem Sending.Looked.exists_ending {user : Nat} {request : Request} {s site : Site}
    {stage stage' : Sending} {ending : Option Ending}
    (h : Looked user request s stage stage' ending site) (hpending : stage ≠ .finished)
    (hfinished : stage' = .finished) : ∃ e, ending = some e := by
  have hgoes {s site : Site} {x : Exchange} (h : Exchange.Goes s x stage' ending site) :
      ∃ e, ending = some e := by
    cases h with
    | on => cases hfinished
    | ends => exact ⟨_, rfl⟩
  cases h with
  | waits => cases hfinished
  | refused => exact ⟨_, rfl⟩
  | takes _ h => exact hgoes h
  | goes h => exact hgoes h
  | rests => exact absurd rfl hpending

/-- Nobody who waits for a slot holds one. -/
theorem Sending.holdsSlot_of_waits {stage : Sending} (h : stage.waits = true) :
    stage.holdsSlot = false := by
  unfold waits at h
  split at h
  next => rfl
  next => cases h

namespace Chronicle

variable {α : Type} {t : Terms} {received : List (Request × Conclusion)} {c : Chronicle α} {i : Nat}
  {request : Request} {success : StatusSet} {decode : Decoder α}

/-- The pool while a send has its channel in hand that ends at its next look. -/
def poolOf (c : Chronicle α) (i : Nat) : Pool :=
  (c.session.jobs[i]?).elim c.session.site.pool fun job => job.stage.taken c.session.site.pool

/-- When a send ends, the pool takes its channel back, if it had one. -/
def GivesBack (c c' : Chronicle α) (i : Nat) (request : Request) : Prop :=
  (c'.record i).handed = [] ∨ ∃ channel conclusion, (c'.record i).handed = [channel] ∧
    (c'.record i).exchanged = [(request, conclusion)] ∧
    (c.poolOf i).TakesBack channel conclusion.keepsOpen c'.session.site.pool

/-- A look at which a send ends. -/
theorem Sound.givesBack_look (h : c.Sound t received) (hsends : c.Sends i request success decode)
    (hnone : (c.record i).result = none) (hsome : ((c.look i).record i).result.isSome = true) :
    c.GivesBack (c.look i) i request := by
  obtain ⟨stage, hjob, hstanding⟩ := hsends
  obtain ⟨stage', ending, site, hadvance⟩ := h.exists_advance hjob hstanding
  have hpending := hstanding.ne_finished hnone
  have hfinished : stage' = .finished := hadvance.standing.isSome_result_iff.mp hsome
  obtain ⟨e, rfl⟩ : ∃ e, ending = some e := hadvance.looked.exists_ending hpending hfinished
  have hfits := hadvance.fits e rfl
  obtain ⟨left, result⟩ := e
  cases left with
  | none => exact .inl hfits
  | some left =>
    obtain ⟨channel, conclusion, hhanded, hexchanged, hopen, rfl⟩ := hfits
    refine .inr ⟨channel, conclusion, hhanded, hexchanged, ?_⟩
    rw [hadvance.site_eq, poolOf, hjob]
    exact hadvance.looked.sameChannels.takesBack
      (site.pool.takesBack_putBack hopen conclusion).freeSlot

/-- **A send that ends** gives back what it had, whatever makes it end. -/
theorem Sound.givesBack_act (h : c.Sound t received) (hsends : c.Sends i request success decode)
    (m : Move α) (hnone : (c.record i).result = none)
    (hsome : ((c.act m).record i).result.isSome = true) :
    c.GivesBack (c.act m) i request := by
  -- nothing but a look of the send itself can give it a result
  have hsame {c' : Chronicle α} (hrecord : c'.record i = c.record i)
      (hsome : (c'.record i).result.isSome = true) :
      c.GivesBack c' i request := by
    rw [hrecord, hnone] at hsome
    cases hsome
  cases m with
  | send client e decode pager id =>
    obtain ⟨stage, hjob, -⟩ := hsends
    have hplace := (List.getElem?_eq_some_iff.mp hjob).1
    exact hsame (h.record_send_of_ne client e decode pager id (Nat.ne_of_lt hplace)) hsome
  | look j =>
    by_cases hj : i = j
    · subst hj
      exact h.givesBack_look hsends hnone hsome
    · exact hsame (h.look_of_ne hj).2 hsome
  | turn =>
    cases hready : c.session.site.ready with
    | nil =>
      rw [act_turn_of_nil hready] at hsome ⊢
      exact hsame rfl hsome
    | cons j rest =>
      have hsite := (h.atSite { c.session.site with ready := rest } h.books rfl).1
      rw [act_turn_of_cons hready] at hsome ⊢
      by_cases hj : i = j
      · subst hj
        exact hsite.givesBack_look hsends hnone hsome
      · exact hsame (hsite.look_of_ne hj).2 hsome
  | pass ms => exact hsame rfl hsome
  | elapse ms => exact hsame rfl hsome
  | close => exact hsame rfl hsome
  | service backend => exact hsame rfl hsome

/-! ## Slots -/

/-- Whether a send holds a slot, or was given one while it waited and does not know yet. -/
def holdsSlot (c : Chronicle α) (i : Nat) : Bool :=
  ((c.scene.users[i]?).any Sending.holdsSlot) || decide (i ∈ c.session.site.pool.granted)

theorem countP_range_getElem? {β : Type} (p : β → Bool) (l : List β) :
    (List.range l.length).countP (fun i => (l[i]?).any p) = l.countP p := by
  induction l with
  | nil => rfl
  | cons b l ih =>
    rw [List.length_cons, List.range_succ_eq_map, List.countP_cons, List.countP_map,
      List.countP_cons, ← ih]
    rfl

theorem countP_range_mem {l : List Nat} {n : Nat} (hnodup : l.Nodup) (hlt : ∀ i ∈ l, i < n) :
    (List.range n).countP (fun i => decide (i ∈ l)) = l.length := by
  rw [List.countP_eq_length_filter]
  refine List.Perm.length_eq
    ((List.perm_ext_iff_of_nodup (List.nodup_range.filter _) hnodup).mpr fun i => ?_)
  simp only [List.mem_filter, List.mem_range, decide_eq_true_eq]
  exact ⟨And.right, fun hi => ⟨hlt i hi, hi⟩⟩

/-- If no element has both properties, those with one of them can be counted one by one. -/
theorem countP_or {β : Type} {p q : β → Bool} {l : List β} (h : ∀ b ∈ l, p b = true → q b = false) :
    l.countP (fun b => p b || q b) = l.countP p + l.countP q := by
  induction l with
  | nil => rfl
  | cons b l ih =>
    rw [List.countP_cons, List.countP_cons, List.countP_cons,
      ih fun b' hb' => h b' (List.mem_cons_of_mem b hb')]
    cases hp : p b with
    | false =>
      simp only [Bool.false_or, Bool.false_eq_true, if_false]
      omega
    | true =>
      rw [h b List.mem_cons_self hp]
      simp only [Bool.true_or, Bool.false_eq_true, if_true, if_false]
      omega

/-- Whoever was given a slot while he waited still waits. -/
theorem Sound.waits_of_granted (h : c.Sound t received)
    (hgranted : i ∈ c.session.site.pool.granted) :
    ∃ stage, c.scene.users[i]? = some stage ∧ stage.waits = true :=
  h.books.queued_of_line i (List.mem_append_right _ hgranted)

/-- **Slots in use** are those that are held. -/
theorem Sound.inUse_eq (h : c.Sound t received) :
    c.session.site.pool.stats.inUse = (List.range c.session.jobs.length).countP c.holdsSlot := by
  have hlength : c.scene.users.length = c.session.jobs.length := List.length_map _
  -- whoever was given a slot without knowing it waits, so that nobody is counted twice
  have hdisjoint : ∀ i ∈ List.range c.session.jobs.length,
      (c.scene.users[i]?).any Sending.holdsSlot = true →
        decide (i ∈ c.session.site.pool.granted) = false := by
    intro i _ hholds
    refine decide_eq_false fun hgranted => ?_
    obtain ⟨stage, hstage, hwaits⟩ := h.waits_of_granted hgranted
    rw [hstage, Option.any_some, Sending.holdsSlot_of_waits hwaits] at hholds
    cases hholds
  have hgranted : (List.range c.session.jobs.length).countP
      (fun i => decide (i ∈ c.session.site.pool.granted)) =
      c.session.site.pool.granted.length := by
    refine countP_range_mem (List.nodup_append.mp h.books.line_nodup).2.1 fun i hi => ?_
    obtain ⟨stage, hstage, -⟩ := h.waits_of_granted hi
    exact hlength ▸ (List.getElem?_eq_some_iff.mp hstage).1
  have hslots : (List.range c.session.jobs.length).countP
      (fun i => (c.scene.users[i]?).any Sending.holdsSlot) =
      c.scene.account.slots := by
    rw [← hlength]
    exact countP_range_getElem? _ _
  have hall : c.session.site.pool.free + c.session.site.pool.granted.length +
      c.scene.account.slots =
      c.session.site.pool.config.maxChannels := h.books.slots_eq
  have hcount : (List.range c.session.jobs.length).countP c.holdsSlot = _ + _ := countP_or hdisjoint
  rw [hcount, hgranted, hslots]
  show c.session.site.pool.config.maxChannels - c.session.site.pool.free = _
  omega

theorem Sound.holdsSlot_eq_false (h : c.Sound t received)
    (hstage : ∀ stage, c.scene.users[i]? = some stage →
      stage.holdsSlot = false ∧ stage.waits = false) :
    c.holdsSlot i = false := by
  refine Bool.or_eq_false_iff.mpr ⟨?_, decide_eq_false fun hgranted => ?_⟩
  · cases huser : c.scene.users[i]? with
    | none => rfl
    | some stage => exact (hstage stage huser).1
  · obtain ⟨stage, huser, hwaits⟩ := h.waits_of_granted hgranted
    rw [(hstage stage huser).2] at hwaits
    cases hwaits

/-- Nobody holds a slot before he asks for one. -/
theorem Sound.holdsSlot_of_new (h : c.Sound t received) (hi : c.session.jobs.length ≤ i) :
    c.holdsSlot i = false := by
  refine h.holdsSlot_eq_false fun stage hstage => ?_
  have hlt := (List.getElem?_eq_some_iff.mp hstage).1
  rw [scene, List.length_map] at hlt
  exact absurd hi (Nat.not_le.mpr hlt)

/-- A send that has ended holds nothing. -/
theorem Sound.holdsSlot_of_ended (h : c.Sound t received)
    (hsends : c.Sends i request success decode) (hsome : (c.record i).result.isSome = true) :
    c.holdsSlot i = false := by
  obtain ⟨stage, hjob, hstanding⟩ := hsends
  have hfinished : stage = .finished := hstanding.isSome_result_iff.mp hsome
  subst hfinished
  refine h.holdsSlot_eq_false fun stage hstage => ?_
  have huser : c.scene.users[i]? = some .finished := by simp [scene, hjob, Job.stage]
  cases huser.symm.trans hstage
  exact ⟨rfl, rfl⟩

/-- **As many slots** are in use as before when the same sends hold one. -/
theorem Sound.inUse_eq_of_holdsSlot {before : Chronicle α} {t' : Terms}
    (hbefore : before.Sound t' received) (h : c.Sound t received)
    (hlength : before.session.jobs.length ≤ c.session.jobs.length)
    (hsame : ∀ j, c.holdsSlot j = before.holdsSlot j) :
    c.session.site.pool.stats.inUse = before.session.site.pool.stats.inUse := by
  obtain ⟨new, hnew⟩ := Nat.exists_eq_add_of_le hlength
  rw [h.inUse_eq, hbefore.inUse_eq, hnew, List.range_add, List.countP_append, funext hsame]
  -- those who have come since hold nothing, as they held nothing before they came
  have hnone : ((List.range new).map (before.session.jobs.length + ·)).countP
      before.holdsSlot = 0 := by
    refine List.countP_eq_zero.mpr fun j hj => ?_
    obtain ⟨k, -, rfl⟩ := List.mem_map.mp hj
    rw [hbefore.holdsSlot_of_new (Nat.le_add_right _ k)]
    exact Bool.false_ne_true
  rw [hnone, Nat.add_zero]

/-! ## One send among others -/

/-- What holds of a send at all times after it was begun, if `before` is how things stood just
before, and `received` is what the service had received when it was started. -/
structure Served (c before : Chronicle α) (received : List (Request × Conclusion)) (i : Nat)
    (request : Request) (success : StatusSet) (decode : Decoder α) : Prop where
  /-- The ledger tells what the service received and how many channels the pool handed out. -/
  journal_eq : c.session.site.backend.journal = received ++ c.exchanged.map Prod.snd
  handed_length : c.handed.length =
    c.session.site.pool.stats.opened + c.session.site.pool.stats.reused
  /-- The send gets at most one channel. With a channel it makes one exchange, of its own request;
  without, it makes none. -/
  handed_le : (c.record i).handed.length ≤ 1
  exchanged_eq : (c.record i).exchanged.map Prod.fst = (c.record i).handed.map fun _ => request
  /-- Its result is what is made of the response to its request, or an error with an id if there was
  no response. -/
  result_eq : ∀ result, (c.record i).result = some result →
    match (c.record i).exchanged with
    | [(_, .respond response)] => result = response.interpret success decode request.id
    | _ => ∃ e, result = .error e ∧ e.requestId.isSome = true
  /-- A result stays, and nothing more is done for a send that has one. -/
  record_eq : (c.record i).result.isSome = true → ∀ more, (c.run more).record i = c.record i
  /-- Whoever waits for the result gets one. -/
  resolves : ∃ more result, c.session.wait i none = (some result, (c.run more).session) ∧
    ((c.run more).record i).result = some result
  inUse_eq : c.session.site.pool.stats.inUse = (List.range c.session.jobs.length).countP c.holdsSlot
  /-- A send with a result holds no slot, so that as many are in use as before, what has become of
  the other sends apart. -/
  inUse_restored : (c.record i).result.isSome = true → c.holdsSlot i = false ∧
    ((∀ j, j ≠ i → c.holdsSlot j = before.holdsSlot j) →
      c.session.site.pool.stats.inUse = before.session.site.pool.stats.inUse)
  /-- Whatever makes it end, its channel is back then. -/
  givesBack : (c.record i).result = none → ∀ m, ((c.act m).record i).result.isSome = true →
    c.GivesBack (c.act m) i request

/-- **Every send is served**: it makes one exchange if it gets a channel and none otherwise, it
resolves once, and it gives back what it had, whatever the service replies, whatever becomes of the
connections, and whatever else is sent. -/
theorem serves_every_send {endpoint : Endpoint} {config : PoolConfig} {pool : Pool}
    (h : Pool.new endpoint config = .ok pool) (backend : Backend) (earlier : List (Move α))
    (client : Client) (e : Envelope) (decode : Decoder α) (pager : Option (Pager α)) (id : String)
    (later : List (Move α)) :
    let before := (start pool backend).run earlier
    let i := (before.session.dispatch client e decode pager id).1
    let c := (before.act (.send client e decode pager id)).run later
    c.Served before backend.journal i (client.request e id) e.success decode := by
  intro before i c
  have hsound₀ : before.Sound _ backend.journal := ((sound_start h backend).run earlier).1
  have hawake₀ : before.Awake :=
    (sound_start h backend).awake_run (awake_start pool backend) earlier
  have hi : i = before.session.jobs.length := hsound₀.outcomes_length
  have hsound₁ := hsound₀.send client e decode pager id
  have hawake₁ := hsound₀.awake_act hawake₀ (.send client e decode pager id)
  obtain ⟨hsound, hfollows⟩ := hsound₁.run later
  have hsends : c.Sends i (client.request e id) e.success decode := by
    rw [hi]
    exact hfollows.sends (hsound₀.sends_send client e decode pager id)
  have ⟨stage, hjob, hstanding⟩ := hsends
  obtain ⟨hhanded, hexchanged⟩ := hstanding.exchanged_eq
  have hlength : before.session.jobs.length ≤ c.session.jobs.length :=
    hi ▸ Nat.le_of_lt (List.getElem?_eq_some_iff.mp hjob).1
  exact
    { journal_eq := hsound.journal_eq
      handed_length := (List.length_map Prod.snd).symm.trans hsound.books.handed_length
      handed_le := hhanded
      exchanged_eq := hexchanged
      result_eq := fun result hresult => hstanding.result_eq hresult
      record_eq := fun hresult more => (hsound.run more).2.record_eq hresult
      resolves := hsound.exists_wait (hsound₁.awake_run hawake₁ later) hsends
      inUse_eq := hsound.inUse_eq
      inUse_restored := fun hresult => by
        have hended := hsound.holdsSlot_of_ended hsends hresult
        refine ⟨hended, fun hothers => hsound₀.inUse_eq_of_holdsSlot hsound hlength fun j => ?_⟩
        -- the send itself held nothing before it was begun, and holds nothing now
        by_cases hj : j = i
        · rw [hj, hended, hi, hsound₀.holdsSlot_of_new (Nat.le_refl _)]
        · exact hothers j hj
      givesBack := fun hnone m hsome => hsound.givesBack_act hsends m hnone hsome }

/-- Two sends share the only slot. The reply to the first is late and breaks its channel; the second
waits meanwhile, gets a new channel, and leaves it idle. -/
theorem serves_second_send_after_fault :
    let url : Url := ⟨"https", some ⟨"", .domain "items.test", none⟩, .segments [], none, none⟩
    let config : PoolConfig := { maxChannels := 1, maxIdle := 1 }
    let pool : Pool := { endpoint := ⟨url, "/v0"⟩, config, free := 1 }
    let backend : Backend :=
      { behaviour :=
        .script (.delayed 5 (.delayed 7 (.fault .other))) [.respond ⟨204, .empty, ByteArray.empty⟩]
        server := Server.new "" false, locator := "", connects := 3 }
    let client : Client := ⟨⟨url, "/v0"⟩, ⟨[], ""⟩, config⟩
    let e := Envelope.new .get "c/k"
    let before := (start pool backend).run [.send client e Decoder.empty none "first", .turn]
    let c := (before.act (.send client e Decoder.empty none "second")).run
      [.turn, .pass 5, .turn, .pass 7, .turn, .turn]
    Pool.new pool.endpoint config = .ok pool ∧ (c.record 0).handed = [⟨3, true⟩] ∧
      (c.record 1).handed = [⟨4, true⟩] ∧
      (c.record 0).result.isSome = true ∧ (c.record 1).result.isSome = true ∧
      before.session.site.pool.stats = ⟨1, 1, 0, 1, 0, 0, 0⟩ ∧
      c.session.site.pool.stats = ⟨1, 0, 1, 2, 1, 0, 0⟩ ∧
      c.Served before [] 1 (client.request e "second") e.success Decoder.empty := by
  intro url config pool backend client e before c
  have hnew : Pool.new pool.endpoint config = .ok pool := rfl
  refine ⟨hnew, by decide +kernel, by decide +kernel, by decide +kernel, by decide +kernel,
    by decide +kernel, by decide +kernel, ?_⟩
  exact serves_every_send hnew backend [.send client e Decoder.empty none "first", .turn]
    client e Decoder.empty none "second" [.turn, .pass 5, .turn, .pass 7, .turn, .turn]

end Chronicle

end ItemStore
