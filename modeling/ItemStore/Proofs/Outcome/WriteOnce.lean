import ItemStore.Outcome.Slot

/-!
# A slot among many

A slot is shared by those who wait for its result and by its completers, who work on it. They use it
in any order. A completer that is dropped first looks whether there is a result and then, if there
was none, puts an error in; between the two steps others can use the slot.

- `Slot.Access` is one use of a slot, `Slot.Event` what it comes to, and `Slot.Cell.run` lets a list
  of uses happen.

## Main result

- `Slot.written_once`: in each order of uses the first attempt to write takes effect and no other
  one does, all who read learn what was written before, and a completer whose drop is over leaves a
  result behind.

## Architecture

1. `Slot.Coherent` logs are those in which each event agrees with the first attempt before it. What
   is said about writes and reads follows from that alone.
2. `Slot.Cell.slot_act` and `Slot.Cell.agrees_act` say what one use does, and
   `Slot.Cell.coherent_run` draws the conclusion for all of them.
3. `Slot.Cell.exists_ends_of_giveUp`: a drop comes to its end.
-/

namespace ItemStore.Slot

variable {α : Type}

/-- What a write does: it counts if there was no result, and does not touch one that is there. -/
theorem complete_eq (s : Slot α) (result : Except StoreError α) :
    s.complete result = (s.isNone, s.or (some result)) := by
  cases s <;> rfl

/-! ## Uses -/

/-- A use of a slot. The completers of a slot are numbered. -/
inductive Access (α : Type) where
  | complete (result : Except StoreError α)
  /-- The slot is read, without waiting for a result. -/
  | get
  | isResolved
  /-- A completer is dropped. It looks whether there is a result. -/
  | drop (completer : Nat)
  /-- A completer that was dropped and did not find a result puts the error in. -/
  | giveUp (completer : Nat)

/-- What a use comes to. -/
inductive Event (α : Type) where
  /-- A result was put in, and whether it counted. -/
  | completed (result : Except StoreError α) (counted : Bool)
  /-- What was read. -/
  | got (result : Slot α)
  /-- Whether there was a result. -/
  | asked (resolved : Bool)
  /-- A completer was dropped, and whether it found a result. -/
  | dropped (completer : Nat) (resolved : Bool)
  /-- A completer gave up, and whether its error counted. -/
  | gaveUp (completer : Nat) (counted : Bool)
  /-- A completer has nothing to give up. -/
  | idle

/-- A slot, and the completers that were dropped, did not find a result, and are about to give
up. -/
structure Cell (α : Type) where
  slot : Slot α := .empty
  givingUp : List Nat := []

namespace Event

/-- What is learned from a slot with this content. -/
def Agrees (slot : Slot α) : Event α → Prop
  | .completed _ counted | .gaveUp _ counted => counted = slot.isNone
  | .got result => result = slot
  | .asked resolved | .dropped _ resolved => resolved = slot.isResolved
  | .idle => True

/-- Whether it is a write that counted. -/
def takesEffect : Event α → Bool
  | .completed _ counted | .gaveUp _ counted => counted
  | _ => false

/-- What it was to write. Each completer puts its request id into the error. -/
def attempt? (ids : Nat → String) : Event α → Option (Except StoreError α)
  | .completed result _ => some result
  | .gaveUp completer _ => some (.error (abandonedError (ids completer)))
  | _ => none

/-- Whether the drop of a completer is over with it: the completer found a result, or gave up. -/
def Ends (completer : Nat) : Event α → Prop
  | .dropped i resolved => i = completer ∧ resolved = true
  | .gaveUp i _ => i = completer
  | _ => False

variable {ids : Nat → String} {e : Event α} {slot : Slot α}

theorem isSome_attempt?_of_takesEffect (ids : Nat → String) (h : e.takesEffect = true) :
    (e.attempt? ids).isSome := by
  cases e with
  | completed result counted => rfl
  | gaveUp completer counted => rfl
  | _ => cases h

theorem Agrees.eq_none_of_takesEffect (h : e.Agrees slot) (htakes : e.takesEffect = true) :
    slot = none := by
  cases e with
  | completed result counted => exact Option.isNone_iff_eq_none.mp (Eq.trans (Eq.symm h) htakes)
  | gaveUp completer counted => exact Option.isNone_iff_eq_none.mp (Eq.trans (Eq.symm h) htakes)
  | _ => cases htakes

/-- An attempt takes effect on an empty slot and on no other one. -/
theorem Agrees.takesEffect_iff (h : e.Agrees slot) (hattempt : (e.attempt? ids).isSome) :
    e.takesEffect = true ↔ slot = none := by
  refine ⟨h.eq_none_of_takesEffect, ?_⟩
  rintro rfl
  cases e with
  | completed result counted => exact h
  | gaveUp completer counted => exact h
  | _ => cases hattempt

/-- If a drop is over with an event, there was a result before, or the error was written. -/
theorem Ends.cases_of_agrees {i : Nat} (hends : e.Ends i) (hagrees : e.Agrees slot) :
    (slot = none ∧ e = .gaveUp i true) ∨ (slot.isSome = true ∧ e ≠ .gaveUp i true) := by
  cases e with
  | dropped j resolved =>
    obtain ⟨rfl, rfl⟩ := hends
    exact .inr ⟨Eq.symm hagrees, nofun⟩
  | gaveUp j counted =>
    cases hends
    cases slot with
    | none => exact .inl ⟨rfl, congrArg (Event.gaveUp _) hagrees⟩
    | some result =>
      have hcounted : counted = false := hagrees
      exact .inr ⟨rfl, by simp [hcounted]⟩
  | _ => cases hends

end Event

/-! ## Logs -/

/-- The first result that was to be written. -/
def firstAttempt (ids : Nat → String) (log : List (Event α)) : Slot α :=
  log.findSome? (Event.attempt? ids)

/-- Each event agrees with the first attempt before it. -/
structure Coherent (ids : Nat → String) (log : List (Event α)) : Prop where
  agrees : ∀ {before e after}, log = before ++ e :: after → e.Agrees (firstAttempt ids before)

section Logs

variable {ids : Nat → String} {log before after : List (Event α)} {e w : Event α}

theorem firstAttempt_append (ids : Nat → String) (log log' : List (Event α)) :
    firstAttempt ids (log ++ log') = (firstAttempt ids log).or (firstAttempt ids log') :=
  List.findSome?_append

theorem firstAttempt_cons (ids : Nat → String) (e : Event α) (log : List (Event α)) :
    firstAttempt ids (e :: log) = (e.attempt? ids).or (firstAttempt ids log) := by
  rw [firstAttempt, List.findSome?_cons]
  cases e.attempt? ids <;> rfl

theorem Coherent.of_append (h : Coherent ids (before ++ after)) : Coherent ids before := by
  constructor
  intro first e rest hbefore
  rw [hbefore, List.append_assoc] at h
  exact h.agrees rfl

/-- What takes effect is the first attempt. -/
theorem Coherent.firstAttempt_eq (h : Coherent ids log) (hmem : w ∈ log)
    (htakes : w.takesEffect = true) :
    firstAttempt ids log = w.attempt? ids := by
  obtain ⟨before, after, rfl⟩ := List.append_of_mem hmem
  have hattempt := Event.isSome_attempt?_of_takesEffect ids htakes
  have hnone : firstAttempt ids before = none := (h.agrees rfl).eq_none_of_takesEffect htakes
  rw [firstAttempt_append, hnone, Option.none_or, firstAttempt_cons]
  exact Option.or_of_isSome hattempt

/-- As long as nothing took effect there was no attempt either. -/
theorem Coherent.firstAttempt_eq_none_iff (h : Coherent ids log) :
    firstAttempt ids log = none ↔ ∀ e ∈ log, e.takesEffect = false := by
  constructor
  · intro hnone e hmem
    rw [← Bool.not_eq_true]
    intro htakes
    have hattempt := Event.isSome_attempt?_of_takesEffect ids htakes
    rw [← h.firstAttempt_eq hmem htakes, hnone] at hattempt
    cases hattempt
  · intro hall
    rw [Option.eq_none_iff_forall_ne_some]
    intro result hfirst
    -- the first attempt would have taken effect
    obtain ⟨before, e, after, hlog, hattempt, hbefore⟩ := List.findSome?_eq_some_iff.mp hfirst
    have hnone : firstAttempt ids before = none := List.findSome?_eq_none_iff.mpr hbefore
    have htakes := ((h.agrees hlog).takesEffect_iff (Option.isSome_of_eq_some hattempt)).mpr hnone
    rw [hall e (by simp [hlog])] at htakes
    cases htakes

/-- No two writes take effect. -/
theorem Coherent.countP_takesEffect (h : Coherent ids log) : log.countP Event.takesEffect ≤ 1 := by
  cases hfind : log.findSome? (Event.attempt? ids) with
  | none =>
    have hcount : log.countP Event.takesEffect = 0 := by
      simpa using h.firstAttempt_eq_none_iff.mp hfind
    omega
  | some result =>
    obtain ⟨before, e, after, rfl, hattempt, hbefore⟩ := List.findSome?_eq_some_iff.mp hfind
    have hnone : firstAttempt ids before = none := List.findSome?_eq_none_iff.mpr hbefore
    have hearlier : before.countP Event.takesEffect = 0 := by
      simpa using h.of_append.firstAttempt_eq_none_iff.mp hnone
    have hlater : after.countP Event.takesEffect = 0 := by
      rw [List.countP_eq_zero]
      intro e' hmem htakes
      obtain ⟨between, rest, rfl⟩ := List.append_of_mem hmem
      -- the slot was not empty any more
      have hagrees : e'.Agrees (firstAttempt ids (before ++ e :: between)) :=
        h.agrees (by rw [List.append_assoc]; rfl)
      have hempty := hagrees.eq_none_of_takesEffect htakes
      rw [firstAttempt_append, hnone, firstAttempt_cons, hattempt] at hempty
      cases hempty
    have hone : [e].countP Event.takesEffect ≤ 1 := List.countP_le_length
    rw [List.countP_append, ← List.singleton_append, List.countP_append]
    omega

/-! ### What a log says about a use -/

theorem Coherent.takesEffect_iff (h : Coherent ids log) (hlog : log = before ++ e :: after)
    (hattempt : (e.attempt? ids).isSome) :
    e.takesEffect = true ↔ ∀ e' ∈ before, e'.attempt? ids = none := by
  rw [(h.agrees hlog).takesEffect_iff hattempt]
  exact List.findSome?_eq_none_iff

theorem Coherent.agrees_before (h : Coherent ids log) (hlog : log = before ++ e :: after)
    (hnone : ∀ e' ∈ before, e'.takesEffect = false) : e.Agrees none := by
  have hbefore : Coherent ids before := (hlog ▸ h).of_append
  rw [← hbefore.firstAttempt_eq_none_iff.mpr hnone]
  exact h.agrees hlog

theorem Coherent.agrees_after (h : Coherent ids log) (hlog : log = before ++ e :: after)
    (hmem : w ∈ before) (htakes : w.takesEffect = true) : e.Agrees (w.attempt? ids) := by
  have hbefore : Coherent ids before := (hlog ▸ h).of_append
  rw [← hbefore.firstAttempt_eq hmem htakes]
  exact h.agrees hlog

/-- What the slot holds once a drop is over with an event. -/
structure Left (ids : Nat → String) (before : List (Event α)) (e : Event α) (i : Nat)
    (slot : Slot α) : Prop where
  resolved : slot.isResolved = true
  /-- The completer's error is written if and only if nothing was written before. -/
  abandoned_iff : e = .gaveUp i true ↔ ∀ e' ∈ before, e'.takesEffect = false
  /-- It is one of the transport and has the completer's request id. -/
  of_abandoned : e = .gaveUp i true →
    ∃ error, slot = some (.error error) ∧ error.kind = .transport ∧ error.requestId = some (ids i)
  /-- Otherwise the slot holds what was written. -/
  of_written : ∀ w ∈ before, w.takesEffect = true → slot = w.attempt? ids

theorem Coherent.left (h : Coherent ids log) (hlog : log = before ++ e :: after) {i : Nat}
    (hends : e.Ends i) :
    Left ids before e i (firstAttempt ids log) := by
  have hbefore : Coherent ids before := (hlog ▸ h).of_append
  have hfirst : firstAttempt ids log =
      (firstAttempt ids before).or ((e.attempt? ids).or (firstAttempt ids after)) := by
    rw [hlog, firstAttempt_append, firstAttempt_cons]
  rw [hfirst]
  rcases hends.cases_of_agrees (h.agrees hlog) with ⟨hnone, rfl⟩ | ⟨hsome, hother⟩
  · have hnothing := hbefore.firstAttempt_eq_none_iff.mp hnone
    rw [hnone]
    refine ⟨rfl, iff_of_true rfl hnothing, fun _ => ⟨_, rfl, rfl, rfl⟩, ?_⟩
    intro w hmem htakes
    exact absurd htakes (by simp [hnothing w hmem])
  · have hwritten : ¬∀ e' ∈ before, e'.takesEffect = false := by
      rw [← hbefore.firstAttempt_eq_none_iff]
      exact Option.isSome_iff_ne_none.mp hsome
    rw [Option.or_of_isSome hsome]
    exact ⟨hsome, iff_of_false hother hwritten, fun hgave => absurd hgave hother,
      fun w => hbefore.firstAttempt_eq⟩

end Logs

/-! ## Runs -/

namespace Cell

variable {ids : Nat → String}

/-- A use of a slot. What is not due has no effect. -/
def act (ids : Nat → String) (c : Cell α) : Access α → Event α × Cell α
  | .complete result =>
    (.completed result (c.slot.complete result).1, { c with slot := (c.slot.complete result).2 })
  | .get => (.got c.slot, c)
  | .isResolved => (.asked c.slot.isResolved, c)
  | .drop i =>
    (.dropped i c.slot.isResolved,
      { c with givingUp := if c.slot.isResolved then c.givingUp else i :: c.givingUp })
  | .giveUp i =>
    if i ∈ c.givingUp then
      let written := c.slot.complete (.error (abandonedError (ids i)))
      (.gaveUp i written.1, { slot := written.2, givingUp := c.givingUp.erase i })
    else (.idle, c)

theorem act_giveUp_of_mem {c : Cell α} {i : Nat} (h : i ∈ c.givingUp) :
    c.act ids (.giveUp i) =
      (.gaveUp i c.slot.isNone,
        ⟨c.slot.or (some (.error (abandonedError (ids i)))), c.givingUp.erase i⟩) := by
  rw [act, if_pos h, complete_eq]

theorem act_giveUp_of_not_mem {c : Cell α} {i : Nat} (h : i ∉ c.givingUp) :
    c.act ids (.giveUp i) = (.idle, c) := by
  rw [act, if_neg h]

/-- Uses of a slot, one after another. -/
def run (ids : Nat → String) (c : Cell α) : List (Access α) → List (Event α) × Cell α
  | [] => ([], c)
  | access :: rest =>
    ((c.act ids access).1 :: ((c.act ids access).2.run ids rest).1,
      ((c.act ids access).2.run ids rest).2)

theorem run_append (ids : Nat → String) (c : Cell α) (xs ys : List (Access α)) :
    c.run ids (xs ++ ys) =
      ((c.run ids xs).1 ++ ((c.run ids xs).2.run ids ys).1, ((c.run ids xs).2.run ids ys).2) := by
  induction xs generalizing c with
  | nil => rfl
  | cons access rest ih =>
    rw [List.cons_append, run, ih]
    rfl

/-- **One use**: a slot that has a result keeps it, and another one takes what is to be written. -/
theorem slot_act (c : Cell α) (access : Access α) :
    (c.act ids access).2.slot = c.slot.or ((c.act ids access).1.attempt? ids) := by
  cases access with
  | complete result => simp [act, complete_eq, Event.attempt?]
  | giveUp i =>
    by_cases h : i ∈ c.givingUp
    · rw [act_giveUp_of_mem h]
      rfl
    · rw [act_giveUp_of_not_mem h]
      exact Option.or_none.symm
  | _ => exact Option.or_none.symm

theorem agrees_act (c : Cell α) (access : Access α) : (c.act ids access).1.Agrees c.slot := by
  cases access with
  | complete result => simp [act, complete_eq, Event.Agrees]
  | giveUp i =>
    by_cases h : i ∈ c.givingUp
    · rw [act_giveUp_of_mem h]
      rfl
    · rw [act_giveUp_of_not_mem h]
      trivial
  | _ => rfl

/-- A slot has the result that it had at first, or the first one that was to be written. -/
theorem slot_run (c : Cell α) (accesses : List (Access α)) :
    (c.run ids accesses).2.slot = c.slot.or (firstAttempt ids (c.run ids accesses).1) := by
  induction accesses generalizing c with
  | nil => exact (Option.or_none).symm
  | cons access rest ih =>
    show ((c.act ids access).2.run ids rest).2.slot = _
    rw [ih, slot_act, run, firstAttempt_cons, Option.or_assoc]

theorem agrees_run (c : Cell α) (accesses : List (Access α)) {before after : List (Event α)}
    {e : Event α} (h : (c.run ids accesses).1 = before ++ e :: after) :
    e.Agrees (c.slot.or (firstAttempt ids before)) := by
  induction accesses generalizing c before with
  | nil => simp [run] at h
  | cons access rest ih =>
    cases before with
    | nil =>
      obtain ⟨rfl, -⟩ := List.cons.inj h
      simpa [firstAttempt] using c.agrees_act access
    | cons first before =>
      obtain ⟨rfl, hrest⟩ := List.cons.inj h
      rw [firstAttempt_cons, ← Option.or_assoc, ← slot_act]
      exact ih _ hrest

/-- **The log of a run from an empty slot is coherent.** -/
theorem coherent_run (ids : Nat → String) (accesses : List (Access α)) :
    Coherent ids (({} : Cell α).run ids accesses).1 := by
  constructor
  intro before e after h
  exact agrees_run {} accesses h

/-! ### Drops -/

/-- A completer that is about to give up stays so until its drop is over. -/
theorem givingUp_act {c : Cell α} {i : Nat} (h : i ∈ c.givingUp) (ids : Nat → String)
    (access : Access α) :
    i ∈ (c.act ids access).2.givingUp ∨ (c.act ids access).1.Ends i := by
  cases access with
  | drop j =>
    left
    show i ∈ if c.slot.isResolved then c.givingUp else j :: c.givingUp
    split
    · exact h
    · exact List.mem_cons_of_mem j h
  | giveUp j =>
    by_cases hmem : j ∈ c.givingUp
    · rw [act_giveUp_of_mem hmem]
      by_cases hj : j = i
      · exact .inr hj
      · exact .inl ((List.mem_erase_of_ne (Ne.symm hj)).mpr h)
    · rw [act_giveUp_of_not_mem hmem]
      exact .inl h
  | _ => exact .inl h

theorem givingUp_run {c : Cell α} {i : Nat} (h : i ∈ c.givingUp) (ids : Nat → String)
    (accesses : List (Access α)) :
    i ∈ (c.run ids accesses).2.givingUp ∨ ∃ e ∈ (c.run ids accesses).1, e.Ends i := by
  induction accesses generalizing c with
  | nil => exact .inl h
  | cons access rest ih =>
    rcases givingUp_act h ids access with hact | hends
    · rcases ih hact with hrest | ⟨e, hmem, hends⟩
      · exact .inl hrest
      · exact .inr ⟨e, List.mem_cons_of_mem _ hmem, hends⟩
    · exact .inr ⟨_, List.mem_cons_self, hends⟩

/-- A drop comes to its end, whatever happens between its steps. -/
theorem exists_ends_of_giveUp (ids : Nat → String) (c : Cell α)
    (first between rest : List (Access α)) (i : Nat) :
    ∃ e ∈ (c.run ids (first ++ .drop i :: (between ++ .giveUp i :: rest))).1, e.Ends i := by
  rw [run_append]
  generalize (c.run ids first).2 = c'
  by_cases hresolved : c'.slot.isResolved = true
  · exact ⟨.dropped i c'.slot.isResolved, by simp [run, act], rfl, hresolved⟩
  · have hmem : i ∈ (c'.act ids (.drop i)).2.givingUp := by simp [act, hresolved]
    rw [run, run_append]
    generalize (c'.act ids (.drop i)).2 = c'' at hmem
    rcases givingUp_run hmem ids between with hlast | ⟨e, he, hends⟩
    · refine ⟨.gaveUp i (c''.run ids between).2.slot.isNone, ?_, rfl⟩
      simp [run, act_giveUp_of_mem hlast]
    · exact ⟨e, by simp [he], hends⟩

end Cell

/-! ## Main result -/

/-- What each order of uses makes of a slot that is empty at first and whose completers have these
request ids. -/
structure WrittenOnce (ids : Nat → String) (accesses : List (Access α)) (log : List (Event α))
    (slot : Slot α) : Prop where
  /-- The first attempt to write takes effect, and no other one. -/
  takesEffect_iff : ∀ {before e after}, log = before ++ e :: after → (e.attempt? ids).isSome →
    (e.takesEffect = true ↔ ∀ e' ∈ before, e'.attempt? ids = none)
  /-- So at most one call tells that its result counts. -/
  at_most_one : log.countP Event.takesEffect ≤ 1
  /-- Who uses the slot before the write finds nothing. -/
  agrees_before : ∀ {before e after}, log = before ++ e :: after →
    (∀ e' ∈ before, e'.takesEffect = false) → e.Agrees none
  /-- Who uses the slot after the write finds what was written. -/
  agrees_after : ∀ {before e after w}, log = before ++ e :: after → w ∈ before →
    w.takesEffect = true → e.Agrees (w.attempt? ids)
  /-- A completer that has made the two steps of its drop is through with it. -/
  ends : ∀ {first between rest i}, accesses = first ++ .drop i :: (between ++ .giveUp i :: rest) →
    ∃ e ∈ log, e.Ends i
  /-- A drop that is over has left a result behind. -/
  left : ∀ {before e after i}, log = before ++ e :: after → e.Ends i → Left ids before e i slot

/-- **A slot is written once.** Whatever the order in which results are put into a slot, the slot is
read and its completers are dropped, and even if others use it between the two steps of a drop: only
the first write counts, everybody reads it from then on, and nobody reads anything before. A
completer whose drop is over leaves a result behind, which is its error if and only if nothing was
written before. -/
theorem written_once (ids : Nat → String) (accesses : List (Access α)) :
    WrittenOnce ids accesses (({} : Cell α).run ids accesses).1
      (({} : Cell α).run ids accesses).2.slot := by
  have hcoherent : Coherent ids (({} : Cell α).run ids accesses).1 := Cell.coherent_run ids accesses
  have hslot : (({} : Cell α).run ids accesses).2.slot =
      firstAttempt ids (({} : Cell α).run ids accesses).1 :=
    Cell.slot_run {} accesses
  rw [hslot]
  refine ⟨hcoherent.takesEffect_iff, hcoherent.countP_takesEffect, hcoherent.agrees_before,
    hcoherent.agrees_after, ?_, fun hlog => hcoherent.left hlog⟩
  rintro first between rest i rfl
  exact Cell.exists_ends_of_giveUp ids {} first between rest i

/-- A result comes in between the two steps of a drop. -/
example :
    (({} : Cell Nat).run (fun _ => "id")
      [.drop 0, .complete (.ok 1), .giveUp 0, .complete (.ok 2), .get]).1 =
    [.dropped 0 false, .completed (.ok 1) true, .gaveUp 0 false, .completed (.ok 2) false,
      .got (some (.ok 1))] := rfl

end ItemStore.Slot
