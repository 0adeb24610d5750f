import ItemStore.Proofs.Session.Quiet
import Mathlib.Data.List.Perm.Basic

/-!
# The books of a pool

A pool does not know its users. What they hold between them is written in an `Account`, and
`Pool.Custody` says that the pool's own books agree with it: every channel that was ever opened is
idle, in somebody's hands, or retired, and every slot is free, granted, or held.

## Architecture

Nothing in a pool checks how many channels there are. That the idle ones and the held ones together
never exceed the limit follows from two rules: a channel is in nobody's hands without a slot, and a
new channel is opened only when none is idle. So a user who was just let in is not yet counted among
the holders of slots, but as `spare`, until he took what was idle.

- `Custody.enter`, `Custody.claim` and `Custody.freeSlot` are about slots and the line;
- `Custody.takeIdle_some`, `Custody.takeIdle_none`, `Custody.countOpened`, `Custody.retire` and
  `Custody.putBack` are about channels;
- `Custody.close`, `Custody.elapse` and `Custody.fault` are what happens to the pool without a user.
-/

namespace ItemStore

/-- What the users of a pool have between them. -/
structure Account where
  /-- The serials of the channels in their hands. -/
  channels : List Nat := []
  /-- How many slots they hold: with a channel, or while a connection is made. -/
  slots : Nat := 0
  /-- How many slots are held by users who have not looked for an idle channel yet. -/
  spare : Nat := 0
  /-- Who waits for a slot. -/
  Queued : Nat → Prop := fun _ => False
  /-- The channels that were handed out so far. -/
  handed : List Channel := []

/-- What does not change in the life of a pool. -/
structure Terms where
  config : PoolConfig
  /-- The serial of the first channel. -/
  first : Nat
  /-- Whether the pool was closed. -/
  shut : Bool

/-- How many slots a user got. -/
def Pool.Admission.slots : Pool.Admission → Nat
  | .admitted => 1
  | _ => 0

/-- The account when a user waits for a slot, if he does. -/
def Account.wait (a : Account) (user : Nat) (waits : Prop) : Account :=
  { a with Queued := fun v => a.Queued v ∨ v = user ∧ waits }

namespace Pool

/-- Gives the idle channels of one serial a fault. -/
def fault (p : Pool) (serial : Nat) : Pool :=
  { p with idle := p.idle.map fun i => if i.channel.serial = serial then
    { i with channel := i.channel.closed } else i }

/-- What looking for an idle channel can come to: either all are given up, or some are and the next
one is taken. -/
theorem takeIdle_cases (p : Pool) : ∃ stale : List IdleChannel,
    (p.idle = stale ∧
      p.takeIdle = (none, { p with
        idle := [], retired := (stale.map fun i => i.channel.closed).reverse ++ p.retired })) ∨
    ∃ i rest, p.idle = stale ++ i :: rest ∧ i.channel.isOpen = true ∧
      p.takeIdle = (some i.channel, { p with
        idle := rest, retired := (stale.map fun i => i.channel.closed).reverse ++ p.retired,
          reused := p.reused + 1 }) := by
  refine ⟨p.idle.takeWhile fun i => !p.isFresh i, ?_⟩
  have hsplit := List.takeWhile_append_dropWhile (p := fun i => !p.isFresh i) (l := p.idle)
  cases hdrop : p.idle.dropWhile fun i => !p.isFresh i with
  | nil =>
    rw [hdrop, List.append_nil] at hsplit
    exact .inl ⟨hsplit.symm, by simp only [takeIdle, hdrop]⟩
  | cons i rest =>
    rw [hdrop] at hsplit
    have htake : p.takeIdle.1 = some i.channel := by simp only [takeIdle, hdrop]
    exact .inr ⟨i, rest, hsplit.symm,
      isOpen_of_takeIdle (Prod.ext htake rfl), by simp only [takeIdle, hdrop]⟩

/-- The books of a pool agree with what the users have and with the number of connections that the
service made. -/
structure Custody (t : Terms) (connects : Nat) (p : Pool) (a : Account) : Prop where
  config_eq : p.config = t.config
  isClosed_of_shut : t.shut = true → p.isClosed = true
  connects_eq : connects = t.first + p.opened
  /-- Every channel is in one place. -/
  places : (p.idle.map (·.channel.serial) ++ (a.channels ++ p.retired.map (·.serial))).Perm
    (List.range' t.first p.opened)
  not_isOpen_of_retired : ∀ c ∈ p.retired, c.isOpen = false
  isOpen_of_handed : ∀ c ∈ a.handed, c.isOpen = true
  handed_length : a.handed.length = p.opened + p.reused
  /-- Every slot is in one place. -/
  slots_eq : p.free + p.granted.length + a.slots + a.spare = p.config.maxChannels
  /-- There are never more channels than slots, those counted that are about to be opened. -/
  room : p.idle.length + a.slots ≤ p.config.maxChannels
  idle_le : p.idle.length ≤ p.config.maxIdle
  idle_of_isClosed : p.isClosed = true → p.idle = []
  waiting_of_isClosed : p.isClosed = true → p.waiting = []
  /-- Everybody in line is there once and waits. -/
  line_nodup : (p.waiting ++ p.granted).Nodup
  queued_of_line : ∀ user ∈ p.waiting ++ p.granted, a.Queued user

namespace Custody

variable {t : Terms} {connects : Nat} {p : Pool} {a b : Account} {user : Nat} {c : Channel}

/-- An account may list the channels in another order and may have more users in line. -/
theorem congr (h : p.Custody t connects a) (hchannels : b.channels.Perm a.channels)
    (hslots : b.slots = a.slots) (hspare : b.spare = a.spare)
    (hqueued : ∀ v, a.Queued v → b.Queued v) (hhanded : b.handed = a.handed) :
    p.Custody t connects b :=
  { h with
    places := ((hchannels.append_right _).append_left _).trans h.places
    isOpen_of_handed := hhanded ▸ h.isOpen_of_handed
    handed_length := hhanded ▸ h.handed_length
    slots_eq := by rw [hslots, hspare, h.slots_eq]
    room := by rw [hslots]; exact h.room
    queued_of_line := fun v hv => hqueued v (h.queued_of_line v hv) }

/-- A user who joins the account waits for a slot, or does not. -/
theorem wait (h : p.Custody t connects a) (user : Nat) (waits : Prop) :
    p.Custody t connects (a.wait user waits) :=
  h.congr (List.Perm.refl _) rfl rfl (fun _ => Or.inl) rfl

/-- A user who does not wait is not in line. -/
theorem of_wait {waits : Prop} (h : p.Custody t connects (a.wait user waits)) (hwaits : ¬ waits) :
    p.Custody t connects a :=
  h.congr (List.Perm.refl _) rfl rfl (fun _ hv => hv.resolve_right fun hw => hwaits hw.2) rfl

/-! ## Slots and the line -/

/-- A slot without a channel. -/
theorem spare_of_slots (h : p.Custody t connects { a with slots := a.slots + 1 }) :
    p.Custody t connects { a with spare := a.spare + 1 } := by
  have hslots := h.slots_eq
  have hroom := h.room
  dsimp only at hslots hroom
  exact { h with slots_eq := by dsimp only; omega, room := by dsimp only; omega }

/-- A slot that nobody wants is free. -/
theorem free_of_spare (h : p.Custody t connects { a with spare := a.spare + 1 }) :
    ({ p with free := p.free + 1 } : Pool).Custody t connects a := by
  have hslots := h.slots_eq
  dsimp only at hslots
  exact { h with slots_eq := by dsimp only; omega }

/-- A slot that is given back is free or goes to the first in line. -/
theorem freeSlot (h : p.Custody t connects { a with spare := a.spare + 1 }) :
    p.freeSlot.2.Custody t connects a := by
  have hslots := h.slots_eq
  have hnodup := h.line_nodup
  have hqueued := h.queued_of_line
  dsimp only at hslots
  unfold Pool.freeSlot
  split
  next => exact h.free_of_spare
  next first rest hwaiting =>
    rw [hwaiting] at hnodup hqueued
    have hline : (rest ++ (p.granted ++ [first])).Perm (first :: rest ++ p.granted) := by
      rw [← List.append_assoc]
      exact List.perm_append_singleton _ _
    exact { h with
      slots_eq := by simp only [List.length_append, List.length_singleton]; omega
      waiting_of_isClosed := fun hclosed => by
        have hnone := h.waiting_of_isClosed hclosed
        rw [hwaiting] at hnone
        cases hnone
      line_nodup := hline.nodup_iff.mpr hnodup
      queued_of_line := fun v hv => hqueued v (hline.mem_iff.mp hv) }

/-- A user who asks for a slot has one, waits for one, or is sent away. -/
theorem enter (h : p.Custody t connects a) (hnew : ¬ a.Queued user) :
    (p.enter user).2.Custody t connects
      ({ a with spare := a.spare + (p.enter user).1.slots }.wait user
        ((p.enter user).1 = Admission.queued)) := by
  have hslots := h.slots_eq
  unfold Pool.enter
  split
  next => exact h.wait user _
  next hclosed =>
    split
    next hfree =>
      exact { h with
        slots_eq := by simp only [Account.wait, Admission.slots]; omega
        queued_of_line := fun v hv => Or.inl (h.queued_of_line v hv) }
    next =>
      have hout : user ∉ p.waiting ++ p.granted := fun hmem => hnew (h.queued_of_line user hmem)
      have hline : (p.waiting ++ [user] ++ p.granted).Perm (user :: (p.waiting ++ p.granted)) := by
        rw [List.append_assoc]
        exact List.perm_middle
      exact { h with
        waiting_of_isClosed := fun hshut => absurd hshut hclosed
        line_nodup := hline.nodup_iff.mpr (List.nodup_cons.mpr ⟨hout, h.line_nodup⟩)
        queued_of_line := fun v hv => by
          rcases List.mem_cons.mp (hline.mem_iff.mp hv) with rfl | hv
          · exact Or.inr ⟨rfl, rfl⟩
          · exact Or.inl (h.queued_of_line v hv) }

/-- When a user leaves the line, those who are left in it are others. -/
theorem line_of_leaving (h : p.Custody t connects (a.wait user True)) {line : List Nat}
    (hline : line.Sublist (p.waiting ++ p.granted)) (hout : user ∉ line) :
    line.Nodup ∧ ∀ v ∈ line, a.Queued v := by
  refine ⟨h.line_nodup.sublist hline, fun v hv => ?_⟩
  rcases h.queued_of_line v (hline.subset hv) with hqueued | ⟨rfl, -⟩
  · exact hqueued
  · exact absurd hv hout

/-- A user who takes the slot that was granted to him leaves the line. -/
theorem erase_granted (h : p.Custody t connects (a.wait user True)) (hmem : user ∈ p.granted) :
    ({ p with granted := p.granted.erase user } : Pool).Custody t connects
      { a with spare := a.spare + 1 } := by
  have hslots := h.slots_eq
  obtain ⟨-, hgranted, hdisjoint⟩ := List.nodup_append.mp h.line_nodup
  have hout : user ∉ p.waiting ++ p.granted.erase user := by
    rw [List.mem_append, hgranted.mem_erase_iff]
    rintro (hfirst | ⟨hself, -⟩)
    · exact hdisjoint user hfirst user hmem rfl
    · exact hself rfl
  obtain ⟨hnodup, hqueued⟩ := h.line_of_leaving (List.erase_sublist.append_left _) hout
  have hlength := List.length_erase_add_one hmem
  simp only [Account.wait] at hslots
  exact { h with slots_eq := by dsimp only; omega, line_nodup := hnodup, queued_of_line := hqueued }

/-- A user who gives up waiting leaves the line. -/
theorem erase_waiting (h : p.Custody t connects (a.wait user True)) (hmem : user ∉ p.granted) :
    ({ p with waiting := p.waiting.erase user } : Pool).Custody t connects a := by
  obtain ⟨hwaiting, -, -⟩ := List.nodup_append.mp h.line_nodup
  have hout : user ∉ p.waiting.erase user ++ p.granted := by
    rw [List.mem_append, hwaiting.mem_erase_iff]
    rintro (⟨hself, -⟩ | hlast)
    · exact hself rfl
    · exact hmem hlast
  obtain ⟨hnodup, hqueued⟩ := h.line_of_leaving (List.erase_sublist.append_right _) hout
  exact { h with
    waiting_of_isClosed := fun hclosed => by
      dsimp only
      rw [h.waiting_of_isClosed hclosed, List.erase_nil]
    line_nodup := hnodup
    queued_of_line := hqueued }

/-- A user in line who asks again has a slot, waits on, or is sent away. -/
theorem claim (h : p.Custody t connects (a.wait user True)) (tooLate : Bool) :
    (p.claim user tooLate).2.Custody t connects
      ({ a with spare := a.spare + (p.claim user tooLate).1.slots }.wait user
        ((p.claim user tooLate).1 = Admission.queued)) := by
  unfold Pool.claim
  split
  next hclosed =>
    split
    next hmem => exact (h.erase_granted hmem).free_of_spare.wait user _
    next hmem =>
      have hout : user ∉ p.waiting ++ p.granted := by
        rw [h.waiting_of_isClosed hclosed, List.nil_append]
        exact hmem
      have hothers : p.Custody t connects a :=
        { h with queued_of_line := (h.line_of_leaving (List.Sublist.refl _) hout).2 }
      exact hothers.wait user _
  next =>
    split
    next hmem => exact (h.erase_granted hmem).wait user _
    next hmem =>
      split
      next => exact { (h.erase_waiting hmem).wait user _ with }
      next =>
        exact h.congr (List.Perm.refl _) rfl rfl
          (fun _ hv => hv.imp_right fun hw => ⟨hw.1, rfl⟩) rfl

/-! ## Channels -/

/-- Giving up idle channels moves their serials from one list to the other. -/
theorem perm_discard (stale : List IdleChannel) (rest held : List Nat) (retired : List Channel) :
    (rest ++
      (held ++ ((stale.map fun i => i.channel.closed).reverse ++ retired).map (·.serial))).Perm
      (stale.map (·.channel.serial) ++ rest ++ (held ++ retired.map (·.serial))) := by
  have hclosed : ((stale.map fun i => i.channel.closed).reverse.map (·.serial)).Perm
      (stale.map (·.channel.serial)) := by
    rw [List.map_reverse, List.map_map]
    exact List.reverse_perm _
  refine (List.perm_iff_count.mpr fun serial => ?_)
  have hcount := hclosed.count_eq serial
  simp only [List.map_append, List.count_append, hcount]
  omega

/-- Channels that are given up are closed. -/
theorem not_isOpen_of_discard {stale : List IdleChannel} {retired : List Channel}
    (h : ∀ c ∈ retired, c.isOpen = false) :
    ∀ c ∈ (stale.map fun i => i.channel.closed).reverse ++ retired, c.isOpen = false := by
  intro c hc
  rcases List.mem_append.mp hc with hstale | hretired
  · obtain ⟨i, -, rfl⟩ := List.mem_map.mp (List.mem_reverse.mp hstale)
    rfl
  · exact h c hretired

/-- If an idle channel is taken, its new holder has it, and there is one idle channel less. -/
theorem takeIdle_some (h : p.Custody t connects { a with spare := a.spare + 1 }) {p' : Pool}
    (htake : p.takeIdle = (some c, p')) :
    p'.Custody t connects
      { a with channels := c.serial :: a.channels, slots := a.slots + 1,
               handed := a.handed ++ [c] } := by
  have hslots := h.slots_eq
  have hroom := h.room
  have hidle := h.idle_le
  have hcount := h.handed_length
  dsimp only at hslots hroom hcount
  obtain ⟨stale, ⟨-, hnone⟩ | ⟨i, rest, hsplit, hopen, hsome⟩⟩ := p.takeIdle_cases
  · cases hnone.symm.trans htake
  · cases hsome.symm.trans htake
    have hlength : p.idle.length = stale.length + rest.length + 1 := by
      rw [hsplit, List.length_append, List.length_cons]
      omega
    exact { h with
      places := by
        refine (perm_discard stale _ _ _).trans (List.Perm.trans ?_ h.places)
        rw [hsplit, List.map_append, List.map_cons, List.append_assoc, List.append_assoc]
        exact List.perm_middle.append_left _
      not_isOpen_of_retired := not_isOpen_of_discard h.not_isOpen_of_retired
      isOpen_of_handed := fun d hd => (List.mem_append.mp hd).elim (h.isOpen_of_handed d)
        fun hlast => (List.mem_singleton.mp hlast) ▸ hopen
      handed_length := by simp only [List.length_append, List.length_singleton]; omega
      slots_eq := by dsimp only; omega
      room := by dsimp only; omega
      idle_le := by dsimp only; omega
      -- nothing lies idle in a closed pool, so nothing was taken
      idle_of_isClosed := fun hclosed => by
        rw [h.idle_of_isClosed hclosed, List.length_nil] at hlength
        omega }

/-- If no idle channel is to be had, none is left, so that there is room for a new one. -/
theorem takeIdle_none (h : p.Custody t connects { a with spare := a.spare + 1 }) {p' : Pool}
    (htake : p.takeIdle = (none, p')) : p'.Custody t connects { a with slots := a.slots + 1 } := by
  have hslots := h.slots_eq
  dsimp only at hslots
  obtain ⟨stale, ⟨hidle, hnone⟩ | ⟨i, rest, -, -, hsome⟩⟩ := p.takeIdle_cases
  · cases hnone.symm.trans htake
    exact { h with
      places := by
        refine (perm_discard stale [] _ _).trans ?_
        rw [← hidle, List.append_nil]
        exact h.places
      not_isOpen_of_retired := not_isOpen_of_discard h.not_isOpen_of_retired
      slots_eq := by dsimp only; omega
      room := by simp only [List.length_nil]; omega
      idle_le := Nat.zero_le _
      idle_of_isClosed := fun _ => rfl }
  · cases hsome.symm.trans htake

/-- A channel that was opened is the next one of the service. -/
theorem countOpened (h : p.Custody t connects { a with slots := a.slots + 1 }) :
    p.countOpened.Custody t (connects + 1)
      { a with channels := connects :: a.channels, slots := a.slots + 1,
               handed := a.handed ++ [⟨connects, true⟩] } :=
  { h with
    connects_eq := by rw [h.connects_eq]; rfl
    places := by
      have hlast : List.range' t.first (p.opened + 1) =
          List.range' t.first p.opened ++ [connects] := by
        rw [List.range'_concat, h.connects_eq, Nat.one_mul]
      show (p.idle.map (·.channel.serial) ++
        (connects :: a.channels ++ p.retired.map (·.serial))).Perm
        (List.range' t.first (p.opened + 1))
      rw [hlast]
      exact List.perm_middle.trans ((h.places.cons connects).trans
        (List.perm_append_singleton _ _).symm)
    isOpen_of_handed := fun d hd => (List.mem_append.mp hd).elim (h.isOpen_of_handed d)
      fun hlast => (List.mem_singleton.mp hlast) ▸ rfl
    handed_length := by
      have hcount := h.handed_length
      simp only [List.length_append, List.length_singleton, Pool.countOpened] at hcount ⊢
      omega }

/-- A channel that is given up leaves its slot. -/
theorem retire
    (h : p.Custody t connects { a with channels := c.serial :: a.channels, slots := a.slots + 1 }) :
    (p.retire c).Custody t connects { a with spare := a.spare + 1 } :=
  have h' := spare_of_slots (a := { a with channels := c.serial :: a.channels }) h
  { h' with
    places := (List.perm_middle.append_left _).trans h.places
    not_isOpen_of_retired := List.forall_mem_cons.mpr ⟨rfl, h.not_isOpen_of_retired⟩ }

/-- A channel that is put back lies idle or is given up, and leaves its slot. -/
theorem putBack
    (h : p.Custody t connects { a with channels := c.serial :: a.channels, slots := a.slots + 1 })
    (healthy : Bool) :
    (p.putBack c healthy).Custody t connects { a with spare := a.spare + 1 } := by
  have hroom := h.room
  dsimp only at hroom
  unfold Pool.putBack
  split
  next hkept =>
    simp only [Bool.and_eq_true, Bool.not_eq_true', decide_eq_true_eq] at hkept
    obtain ⟨⟨-, hopen⟩, hlength⟩ := hkept
    have h' := spare_of_slots (a := { a with channels := c.serial :: a.channels }) h
    exact { h' with
      places := List.perm_middle.symm.trans h.places
      room := by simp only [List.length_cons]; omega
      idle_le := hlength
      idle_of_isClosed := fun hclosed => absurd hclosed (by simp [hopen]) }
  next => exact h.retire

/-! ## Without a user -/

/-- A pool that is closed has no idle channels and nobody in line. -/
theorem close (h : p.Custody t connects a) : p.close.2.Custody { t with shut := true } connects a :=
  { h with
    isClosed_of_shut := fun _ => rfl
    places := by
      refine (perm_discard p.idle [] a.channels p.retired).trans ?_
      rw [List.append_nil]
      exact h.places
    not_isOpen_of_retired := not_isOpen_of_discard h.not_isOpen_of_retired
    room := Nat.le_trans (Nat.add_le_add_right (Nat.zero_le _) _) h.room
    idle_le := Nat.zero_le _
    idle_of_isClosed := fun _ => rfl
    waiting_of_isClosed := fun _ => rfl
    line_nodup := h.line_nodup.sublist (List.sublist_append_right _ _)
    queued_of_line := fun v hv => h.queued_of_line v (List.mem_append_right _ hv) }

theorem elapse (h : p.Custody t connects a) (ms : Nat) : (p.elapse ms).Custody t connects a :=
  { h with }

/-- An idle channel that breaks stays where it is. -/
theorem fault (h : p.Custody t connects a) (serial : Nat) :
    (p.fault serial).Custody t connects a := by
  have hserials : (p.fault serial).idle.map (·.channel.serial) = p.idle.map (·.channel.serial) := by
    rw [Pool.fault, List.map_map]
    refine List.map_congr_left fun i _ => ?_
    dsimp only [Function.comp]
    split <;> rfl
  have hlength : (p.fault serial).idle.length = p.idle.length := List.length_map _
  exact { h with
    places := by rw [hserials]; exact h.places
    room := by rw [hlength]; exact h.room
    idle_le := by rw [hlength]; exact h.idle_le
    idle_of_isClosed := fun hclosed => by
      have hnone := h.idle_of_isClosed hclosed
      rw [Pool.fault, hnone]
      rfl }

/-- The books of an empty pool agree with users who have nothing. -/
theorem new {endpoint : Endpoint} {config : PoolConfig} (h : Pool.new endpoint config = .ok p)
    (connects : Nat) :
    p.Custody ⟨config, connects, false⟩ connects {} := by
  unfold Pool.new at h
  cases hvalid : config.validate with
  | error e =>
    rw [hvalid] at h
    cases h
  | ok _ =>
    rw [hvalid] at h
    cases h
    exact {
      config_eq := rfl
      isClosed_of_shut := fun hshut => absurd hshut Bool.false_ne_true
      connects_eq := rfl
      places := List.Perm.nil
      not_isOpen_of_retired := List.forall_mem_nil _
      isOpen_of_handed := List.forall_mem_nil _
      handed_length := rfl
      slots_eq := rfl
      room := Nat.zero_le _
      idle_le := Nat.zero_le _
      idle_of_isClosed := fun _ => rfl
      waiting_of_isClosed := fun _ => rfl
      line_nodup := List.nodup_nil
      queued_of_line := List.forall_mem_nil _ }

end Custody

end Pool

end ItemStore
