import ItemStore.Proofs.Session.Chronicle
import Mathlib.Algebra.Ring.Nat

/-!
# Every send ends

However far the sends of a session are, waiting for one of them ends, and ends with its result.

## Architecture

Two counts go down. Each turn makes the line and the sends that are not finished fewer between them,
since nobody gets a reason to look unless a send has ended; so the line is empty after a while. Then
time jumps to the next deadline, and a look that is due brings a send further, which `Sending.rank`
counts.

- `Sending.Brought` is what a look of one send does to the clock, the line, and the counts;
- `Chronicle.Awake` is the invariant: nobody is forgotten;
- `Chronicle.Drained` is what comes of letting the line run empty, `Chronicle.exists_due` what comes
  of a jump of time;
- `Chronicle.Sound.exists_wait` puts them together.
-/

namespace ItemStore

/-! ## How much is left of a send -/

namespace Sending

/-- How many steps are left of a send, if no reply has more than some number of delays. -/
def rank (bound : Nat) : Sending → Nat
  | .acquiring x => bound + 1 + x.rank
  | .exchanging (.pending _ _ _ delays _) => delays.length + 1
  | _ => 0

/-- Counts a send that is not finished. -/
def load : Sending → Nat
  | .finished => 0
  | _ => 1

/-- Whether the time has come at which a send must look. -/
def isDue (stage : Sending) (now : Nat) : Bool :=
  match stage.deadline? with
  | some time => time ≤ now
  | none => false

/-- What a look of a send does to the clock and to the line, and how much it leaves. -/
structure Brought (bound : Nat) (s : Site) (stage stage' : Sending) (s' : Site) : Prop where
  now_eq : s'.now = s.now
  longest_le : s'.backend.longestReply ≤ bound
  /-- Nobody gets a reason to look unless the send has ended, and then at most one. -/
  ready_eq : ∃ more, s'.ready = s.ready ++ more ∧ more.length + stage'.load ≤ stage.load
  deadline : stage' = .finished ∨ ∃ time, stage'.deadline? = some time ∧ s.now < time
  rank_le : stage'.rank bound + (stage.isDue s.now).toNat ≤ stage.rank bound

end Sending

theorem Exchange.Goes.brought {bound : Nat} {s site : Site} {x : Exchange} {stage : Sending}
    {ending : Option Ending} (h : Goes s x stage ending site)
    (hbound : s.backend.longestReply ≤ bound) :
    Sending.Brought bound s (.exchanging x) stage (site.after ending) := by
  cases h with
  | on hwait =>
    obtain ⟨hlater, hdelays⟩ := wait_spec hwait
    exact
      { now_eq := rfl
        longest_le := hbound
        ready_eq := ⟨[], (List.append_nil _).symm, Nat.le_refl _⟩
        deadline := .inr ⟨_, rfl, hlater⟩
        rank_le := by
          simp only [Sending.rank, Sending.isDue, Sending.deadline?, deadline?]
          omega }
  | @ends channel request wakeAt delays conclusion hwait =>
    obtain ⟨hnow, hbackend, hready⟩ := Site.after_spec { s with backend := s.backend.finish }
      (some ⟨some (conclusion.leave channel), conclusion.result request⟩)
    exact
      { now_eq := hnow
        longest_le := by
          rw [hbackend]
          exact hbound
        ready_eq := hready
        deadline := .inl rfl
        rank_le := by
          have hone := Bool.toNat_le
            (Sending.isDue (.exchanging (.pending channel request wakeAt delays conclusion)) s.now)
          simp only [Sending.rank]
          omega }

theorem Acquisition.rank_pos {x : Acquisition} (h : ∀ result, x ≠ .settled result) :
    0 < x.rank := by
  cases x with
  | settled result => exact absurd rfl (h result)
  | fresh | queued | connecting => simp [rank]

/-- **A look of a send** takes a step, or the clock must move first. -/
theorem Sending.Looked.brought {bound user : Nat} {request : Request} {s site : Site}
    {stage stage' : Sending} {ending : Option Ending}
    (h : Looked user request s stage stage' ending site) (hresting : stage.IsResting)
    (hpositive : 0 < s.pool.config.acquireTimeout) (hbound : s.backend.longestReply ≤ bound) :
    Brought bound s stage stage' (site.after ending) := by
  cases hresting with
  | finished =>
    cases h
    exact
      { now_eq := rfl
        longest_le := hbound
        ready_eq := ⟨[], (List.append_nil _).symm, Nat.le_refl _⟩
        deadline := .inl rfl
        rank_le := Nat.le_refl _ }
  | exchanging =>
    cases h with
    | goes hgoes => exact hgoes.brought hbound
  | @acquiring x hunsettled =>
    have hlooked := Acquisition.looked_step hpositive hunsettled user
    have hpos := Acquisition.rank_pos hunsettled
    have hdue : (Sending.acquiring x).isDue s.now = x.isDue s.now := rfl
    have hone := Bool.toNat_le (x.isDue s.now)
    cases h with
    | @waits _ x' site hx hwaits =>
      rw [hx] at hlooked
      have hrank : x'.rank ≤ x.rank - (x.isDue s.now).toNat := hlooked.rank_le
      have hready : site.ready = s.ready := by
        rcases hlooked.ready_eq with hready | ⟨e, _, hsettled, -⟩
        · exact hready
        · exact absurd hsettled (hwaits _)
      exact
        { now_eq := hlooked.now_eq
          longest_le := by
            rw [Site.backend_after, Backend.longestReply_congr hlooked.behaviour_eq]
            exact hbound
          ready_eq := ⟨[], by rw [List.append_nil]; exact hready, Nat.le_refl _⟩
          deadline := .inr (hlooked.deadline hwaits)
          rank_le := by
            rw [hdue]
            simp only [rank]
            omega }
    | @refused _ e site hx =>
      rw [hx] at hlooked
      have hready : ∃ more, site.ready = s.ready ++ more ∧ more.length ≤ 1 := by
        rcases hlooked.ready_eq with hready | ⟨_, next, -, hready⟩
        · exact ⟨[], by rw [List.append_nil]; exact hready, Nat.zero_le _⟩
        · exact ⟨[next], hready, Nat.le_refl _⟩
      exact
        { now_eq := hlooked.now_eq
          longest_le := by
            rw [Site.backend_after, Backend.longestReply_congr hlooked.behaviour_eq]
            exact hbound
          ready_eq := hready
          deadline := .inl rfl
          rank_le := by
            rw [hdue]
            simp only [rank]
            omega }
    | @takes _ channel site₁ _ _ _ hx hgoes =>
      rw [hx] at hlooked
      have hready : site₁.ready = s.ready := by
        rcases hlooked.ready_eq with hready | ⟨e, _, hsettled, -⟩
        · exact hready
        · cases hsettled
      have hbound₁ : site₁.backend.longestReply ≤ bound := by
        rw [Backend.longestReply_congr hlooked.behaviour_eq]
        exact hbound
      -- the request is sent at once, and its answer has no more delays than the bound allows
      obtain ⟨hdelays, hbound₂, -⟩ := Backend.receive_spec hbound₁ request
      have hbrought := hgoes.brought hbound₂
      exact
        { now_eq := hbrought.now_eq.trans hlooked.now_eq
          longest_le := hbrought.longest_le
          ready_eq := by
            rw [← hready]
            exact hbrought.ready_eq
          deadline := by
            rw [← hlooked.now_eq]
            exact hbrought.deadline
          rank_le := by
            have hrank := hbrought.rank_le
            rw [hdue]
            simp only [rank] at hrank ⊢
            omega }

namespace Chronicle

variable {α : Type} {t : Terms} {received : List (Request × Conclusion)} {c : Chronicle α}
  {i bound : Nat} {request : Request} {success : StatusSet} {decode : Decoder α}

/-! ## Counts of all sends -/

/-- A number for each send, summed up. -/
def total (c : Chronicle α) (count : Sending → Nat) : Nat :=
  (c.session.jobs.map fun job => count job.stage).sum

/-- A send is finished, has a reason to look, or has a time at which it will have one. -/
def IsAwake (c : Chronicle α) (i : Nat) : Prop :=
  ∀ job, c.session.jobs[i]? = some job →
    job.stage = .finished ∨ i ∈ c.session.site.ready ∨ ∃ time, job.stage.deadline? = some time ∧
    c.session.site.now < time

/-- Nobody is forgotten. -/
def Awake (c : Chronicle α) : Prop :=
  ∀ i, c.IsAwake i

/-- Someone is in line whose time has come. -/
def HasDue (c : Chronicle α) : Prop :=
  ∃ i ∈ c.session.site.ready, ∃ job, c.session.jobs[i]? = some job ∧
    job.stage.isDue c.session.site.now = true

/-- What a look of one send does to the session. -/
structure Brought (bound : Nat) (c : Chronicle α) (i : Nat) (c' : Chronicle α) : Prop where
  now_eq : c'.session.site.now = c.session.site.now
  longest_le : c'.session.site.backend.longestReply ≤ bound
  ready_eq : ∃ more, c'.session.site.ready = c.session.site.ready ++ more ∧
    more.length + c'.total Sending.load ≤ c.total Sending.load
  jobs_eq : ∀ j, j ≠ i → c'.session.jobs[j]? = c.session.jobs[j]?
  isAwake : c'.IsAwake i
  rank_le : c'.total (Sending.rank bound) ≤ c.total (Sending.rank bound)
  rank_lt : ∀ job, c.session.jobs[i]? = some job → job.stage.isDue c.session.site.now = true →
    c'.total (Sending.rank bound) < c.total (Sending.rank bound)

/-- When one send has moved on, its number is another one in the sum. -/
theorem sum_set {l : List Nat} {x : Nat} (h : l[i]? = some x) (y : Nat) :
    (l.set i y).sum + x = l.sum + y := by
  have hsum := (Scene.perm_cons_set h y).sum_nat
  rw [List.sum_cons, List.sum_cons] at hsum
  omega

theorem Advance.total_eq {stage stage' : Sending} {ending : Option Ending} {site : Site}
    (h : c.Advance i request success decode stage stage' ending site)
    (hjob : c.session.jobs[i]? = some (.send i request success decode stage))
    (count : Sending → Nat) :
    (c.look i).total count + count stage = c.total count + count stage' := by
  rw [total, h.jobs_eq, List.map_set]
  exact sum_set (by simp [hjob, Job.stage]) _

/-- **A look** brings the session further, or the clock must move first. -/
theorem Sound.brought (h : c.Sound t received)
    (hbound : c.session.site.backend.longestReply ≤ bound) (i : Nat) :
    Brought bound c i (c.look i) := by
  by_cases hplace : i < c.session.jobs.length
  case neg =>
    have hnone := List.getElem?_eq_none (Nat.not_lt.mp hplace)
    rw [look_of_none hnone]
    exact
      { now_eq := rfl
        longest_le := hbound
        ready_eq := ⟨[], (List.append_nil _).symm, Nat.le_of_eq (Nat.zero_add _)⟩
        jobs_eq := fun _ _ => rfl
        isAwake := fun job hjob => by cases hnone.symm.trans hjob
        rank_le := Nat.le_refl _
        rank_lt := fun job hjob => by cases hnone.symm.trans hjob }
  obtain ⟨request, success, decode, stage, hjob, hstanding⟩ := h.sends i hplace
  obtain ⟨stage', ending, site, hadvance⟩ := h.exists_advance hjob hstanding
  have hbrought := hadvance.looked.brought hstanding.isResting h.acquireTimeout_pos hbound
  rw [← hadvance.site_eq] at hbrought
  have hself : (c.look i).session.jobs[i]? = some (.send i request success decode stage') := by
    rw [hadvance.jobs_eq]
    exact List.getElem?_set_self hplace
  -- nothing but the one summand changes
  have hload := hadvance.total_eq hjob Sending.load
  have hrank := hadvance.total_eq hjob (Sending.rank bound)
  have hstep := hbrought.rank_le
  exact
    { now_eq := hbrought.now_eq
      longest_le := hbrought.longest_le
      ready_eq := by
        obtain ⟨more, hready, hmore⟩ := hbrought.ready_eq
        exact ⟨more, hready, by omega⟩
      jobs_eq := fun j hj => (h.look_of_ne hj).1
      isAwake := fun job hjob' => by
        cases hself.symm.trans hjob'
        rw [hbrought.now_eq]
        exact hbrought.deadline.imp_right .inr
      rank_le := by omega
      rank_lt := fun job hjob' hdue => by
        cases hjob.symm.trans hjob'
        have hone : (stage.isDue c.session.site.now).toNat = 1 := congrArg Bool.toNat hdue
        omega }

/-! ## Nobody is forgotten -/

/-- A send stays awake when the line only grows and its job and the clock stay. -/
theorem IsAwake.mono {c' : Chronicle α} (h : c.IsAwake i)
    (hjob : c'.session.jobs[i]? = c.session.jobs[i]?)
    (hnow : c'.session.site.now = c.session.site.now)
    (hready : i ∈ c.session.site.ready → i ∈ c'.session.site.ready) :
    c'.IsAwake i := by
  intro job hjob'
  rw [hnow]
  exact (h job (hjob.symm.trans hjob')).imp_right (Or.imp_left hready)

/-- A look of a send that may have been forgotten. -/
theorem Brought.awake {c' : Chronicle α} (h : Brought bound c i c')
    (hothers : ∀ j, j ≠ i → c.IsAwake j) : c'.Awake := by
  intro j
  by_cases hj : j = i
  · subst hj
    exact h.isAwake
  · obtain ⟨more, hready, -⟩ := h.ready_eq
    refine (hothers j hj).mono (h.jobs_eq j hj) h.now_eq fun hmem => ?_
    rw [hready]
    exact List.mem_append_left more hmem

/-- What a turn does when somebody is in line. -/
theorem Sound.brought_turn (h : c.Sound t received)
    (hbound : c.session.site.backend.longestReply ≤ bound) {rest : List Nat}
    (hready : c.session.site.ready = i :: rest) :
    Brought bound (c.atSite { c.session.site with ready := rest }) i (c.act .turn) := by
  rw [act_turn_of_cons hready]
  exact (h.atSite { c.session.site with ready := rest } h.books rfl).1.brought hbound i

theorem Sound.awake_turn (h : c.Sound t received) (hawake : c.Awake) : (c.act .turn).Awake := by
  cases hready : c.session.site.ready with
  | nil =>
    rw [act_turn_of_nil hready]
    exact hawake
  | cons i rest =>
    -- the one that left the line looks at once
    refine (h.brought_turn (Nat.le_refl _) hready).awake fun j hj => ?_
    refine (hawake j).mono rfl rfl fun hmem => ?_
    rw [hready] at hmem
    exact (List.mem_cons.mp hmem).resolve_left hj

/-- When time passes, everybody whose time has come gets a reason to look. -/
theorem mem_ready_pass {job : Job α} {time ms : Nat} (hjob : c.session.jobs[i]? = some job)
    (hdeadline : job.stage.deadline? = some time) (hle : time ≤ c.session.site.now + ms) :
    i ∈ (c.act (.pass ms)).session.site.ready := by
  have htime : job.deadline? = some time := by
    cases job with
    | send => exact hdeadline
    | _ => cases hdeadline
  refine List.mem_append_right _ (List.mem_filter.mpr ⟨?_, ?_⟩)
  · exact List.mem_range.mpr (List.getElem?_eq_some_iff.mp hjob).1
  · simp [hjob, htime, hle]

theorem awake_pass (h : c.Awake) (ms : Nat) : (c.act (.pass ms)).Awake := by
  intro i job hjob
  rcases h i job hjob with hfinished | hready | ⟨time, hdeadline, -⟩
  · exact .inl hfinished
  · exact .inr (.inl (List.mem_append_left _ hready))
  · rcases Nat.lt_or_ge (c.session.site.now + ms) time with hlater | hdue
    · exact .inr (.inr ⟨time, hdeadline, hlater⟩)
    · exact .inr (.inl (mem_ready_pass hjob hdeadline hdue))

/-- A send that was just begun is in line. -/
theorem awake_send (h : c.Awake) (client : Client) (e : Envelope) (decode : Decoder α)
    (pager : Option (Pager α)) (id : String) : (c.act (.send client e decode pager id)).Awake := by
  intro i
  by_cases hi : i = c.session.jobs.length
  · subst hi
    intro job _
    exact .inr (.inl (List.mem_append_right _ List.mem_cons_self))
  · exact (h i).mono (getElem?_concat_of_ne _ hi) rfl (List.mem_append_left _)

/-- **No move** forgets anybody. -/
theorem Sound.awake_act (h : c.Sound t received) (hawake : c.Awake) (m : Move α) :
    (c.act m).Awake := by
  cases m with
  | send client e decode pager id => exact awake_send hawake client e decode pager id
  | look i => exact (h.brought (Nat.le_refl _) i).awake fun j _ => hawake j
  | turn => exact h.awake_turn hawake
  | pass ms => exact awake_pass hawake ms
  | elapse ms => exact hawake
  | close => exact fun i => (hawake i).mono rfl rfl (List.mem_append_left _)
  | service backend => exact hawake

theorem Sound.awake_run (h : c.Sound t received) (hawake : c.Awake) (moves : List (Move α)) :
    (c.run moves).Awake := by
  induction moves generalizing c with
  | nil => exact hawake
  | cons m moves ih => exact ih (h.act m).1 (h.awake_act hawake m)

theorem awake_start (pool : Pool) (backend : Backend) :
    (start pool backend : Chronicle α).Awake := by
  intro i job hjob
  cases hjob

/-! ## The line runs empty -/

/-- Lets the first in line look a number of times. -/
def turns (c : Chronicle α) (n : Nat) : Chronicle α :=
  c.run (List.replicate n .turn)

theorem turns_of_nil (h : c.session.site.ready = []) (n : Nat) : c.turns n = c := by
  induction n with
  | zero => rfl
  | succ n ih =>
    rw [turns, List.replicate_succ, run, List.foldl_cons, act_turn_of_nil h]
    exact ih

theorem turns_succ (c : Chronicle α) (n : Nat) : c.turns (n + 1) = (c.act .turn).turns n := rfl

/-- Running the line is a number of turns. -/
theorem session_turns (c : Chronicle α) (n : Nat) :
    (c.turns n).session = c.session.runLine none n := by
  induction n generalizing c with
  | zero => rfl
  | succ n ih =>
    cases hready : c.session.site.ready with
    | nil => rw [turns_of_nil hready, Session.runLine_of_nil hready]
    | cons i rest =>
      rw [turns_succ, ih, act_turn_of_cons hready, Session.runLine]
      simp [hready, Chronicle.look, Chronicle.atSite]

/-- What comes of letting the line run empty. -/
structure Drained (bound : Nat) (c c' : Chronicle α) : Prop where
  ready_eq : c'.session.site.ready = []
  longest_le : c'.session.site.backend.longestReply ≤ bound
  rank_le : c'.total (Sending.rank bound) ≤ c.total (Sending.rank bound)
  rank_lt : c.HasDue → c'.total (Sending.rank bound) < c.total (Sending.rank bound)

theorem drained_of_nil (hready : c.session.site.ready = [])
    (hbound : c.session.site.backend.longestReply ≤ bound) :
    Drained bound c c where
  ready_eq := hready
  longest_le := hbound
  rank_le := Nat.le_refl _
  rank_lt := by
    rintro ⟨i, hmem, -⟩
    rw [hready] at hmem
    cases hmem

/-- **The line runs empty** after as many turns as there are sends in line and sends that are not
finished. -/
theorem Sound.drained_turns (h : c.Sound t received)
    (hbound : c.session.site.backend.longestReply ≤ bound) {n : Nat}
    (hn : c.session.site.ready.length + c.total Sending.load ≤ n) :
    Drained bound c (c.turns n) := by
  induction n generalizing c with
  | zero => exact drained_of_nil (List.eq_nil_of_length_eq_zero (by omega)) hbound
  | succ n ih =>
    cases hready : c.session.site.ready with
    | nil =>
      rw [turns_of_nil hready]
      exact drained_of_nil hready hbound
    | cons i rest =>
      have hbrought := h.brought_turn hbound hready
      obtain ⟨more, hline, hmore⟩ := hbrought.ready_eq
      have hfewer : (c.act .turn).session.site.ready.length +
          (c.act .turn).total Sending.load ≤ n := by
        have hload : (c.atSite { c.session.site with ready := rest }).total Sending.load =
            c.total Sending.load := rfl
        have hlength : (c.act .turn).session.site.ready.length = rest.length + more.length := by
          rw [hline, List.length_append]
          rfl
        rw [hready, List.length_cons] at hn
        omega
      have hdrained := ih (h.act .turn).1 hbrought.longest_le hfewer
      rw [turns_succ]
      exact
        { ready_eq := hdrained.ready_eq
          longest_le := hdrained.longest_le
          rank_le := Nat.le_trans hdrained.rank_le hbrought.rank_le
          rank_lt := by
            rintro ⟨j, hmem, job, hjob, hdue⟩
            rw [hready] at hmem
            by_cases hj : j = i
            · subst hj
              exact Nat.lt_of_le_of_lt hdrained.rank_le (hbrought.rank_lt job hjob hdue)
            · -- it is not the first in line, so that its turn is still to come
              have hstill : (c.act .turn).HasDue := by
                refine ⟨j, ?_, job, (hbrought.jobs_eq j hj).trans hjob, ?_⟩
                · rw [hline]
                  exact List.mem_append_left more ((List.mem_cons.mp hmem).resolve_left hj)
                · rw [hbrought.now_eq]
                  exact hdue
              exact Nat.lt_of_lt_of_le (hdrained.rank_lt hstill) hbrought.rank_le }

/-- How often somebody looks before the line is empty. -/
def turnsLeft (c : Chronicle α) : Nat :=
  c.session.site.ready.length + 3 * c.session.jobs.length + 1

/-- What each job exceeds is no more than so many times the number of jobs. -/
theorem sum_map_le {f g : Job α → Nat} {k : Nat} (h : ∀ job, f job ≤ k + g job)
    (jobs : List (Job α)) :
    (jobs.map f).sum ≤ jobs.length * k + (jobs.map g).sum := by
  induction jobs with
  | nil => exact Nat.zero_le _
  | cons job jobs ih =>
    have hjob := h job
    rw [List.map_cons, List.map_cons, List.sum_cons, List.sum_cons, List.length_cons, Nat.succ_mul]
    omega

theorem total_load_le (c : Chronicle α) : c.total Sending.load ≤ c.session.jobs.length := by
  have hone (job : Job α) : job.stage.load ≤ 1 + 0 := by
    cases job.stage <;> simp [Sending.load]
  have hsum := sum_map_le hone c.session.jobs
  rw [List.map_const', List.sum_replicate_nat, Nat.mul_zero, Nat.mul_one] at hsum
  exact hsum

theorem Sound.drained (h : c.Sound t received)
    (hbound : c.session.site.backend.longestReply ≤ bound) :
    Drained bound c (c.turns c.turnsLeft) := by
  have hload := c.total_load_le
  refine h.drained_turns hbound ?_
  unfold turnsLeft
  omega

/-! ## Time jumps -/

/-- If a send is not finished when the line is empty, there is a next time at which somebody must
look, and it is still to come. -/
theorem Sound.exists_due (h : c.Sound t received) (hawake : c.Awake)
    (hready : c.session.site.ready = []) {job : Job α} (hjob : c.session.jobs[i]? = some job)
    (hpending : job.stage ≠ .finished) :
    ∃ time, c.session.nextTime? = some time ∧ c.session.site.now < time ∧
      (c.act (.pass (time - c.session.site.now))).HasDue := by
  -- a send that has a deadline is not finished, and its deadline is still to come
  have hlater {j : Nat} {job : Job α} {time : Nat} (hjob : c.session.jobs[j]? = some job)
      (hdeadline : job.stage.deadline? = some time) : c.session.site.now < time := by
    rcases hawake j job hjob with hfinished | hmem | ⟨time', htime, hlt⟩
    · rw [hfinished] at hdeadline
      cases hdeadline
    · rw [hready] at hmem
      cases hmem
    · cases htime.symm.trans hdeadline
      exact hlt
  have hsend {j : Nat} {job : Job α} (hjob : c.session.jobs[j]? = some job) : job.deadline? =
      job.stage.deadline? := by
    obtain ⟨request, success, decode, stage, hjob', -⟩ :=
      h.sends j (List.getElem?_eq_some_iff.mp hjob).1
    cases hjob.symm.trans hjob'
    rfl
  obtain ⟨own, hown⟩ : ∃ own, job.deadline? = some own := by
    rcases hawake i job hjob with hfinished | hmem | ⟨own, hown, -⟩
    · exact absurd hfinished hpending
    · rw [hready] at hmem
      cases hmem
    · exact ⟨own, (hsend hjob).trans hown⟩
  have hmem : own ∈ c.session.jobs.filterMap Job.deadline? :=
    List.mem_filterMap.mpr ⟨job, List.mem_of_getElem? hjob, hown⟩
  obtain ⟨time, htime⟩ := Option.isSome_iff_exists.mp (List.isSome_min?_of_mem hmem)
  obtain ⟨first, hfirst, hdeadline⟩ := List.mem_filterMap.mp (List.min?_mem htime)
  obtain ⟨j, hj⟩ := List.getElem?_of_mem hfirst
  rw [hsend hj] at hdeadline
  have hlt := hlater hj hdeadline
  have hnow : c.session.site.now + (time - c.session.site.now) = time := by omega
  refine ⟨time, htime, hlt, j, mem_ready_pass hj hdeadline (Nat.le_of_eq hnow.symm), first, hj, ?_⟩
  have hthen : (c.act (.pass (time - c.session.site.now))).session.site.now = time := hnow
  rw [hthen, Sending.isDue, hdeadline]
  exact decide_eq_true (Nat.le_refl time)

/-! ## Waiting -/

/-- What comes of one round of waiting: the line runs empty, and time jumps to the next deadline. -/
structure Round (t : Terms) (received : List (Request × Conclusion)) (bound : Nat) (c : Chronicle α)
    (time : Nat) (c' : Chronicle α) : Prop where
  nextTime_eq : (c.turns c.turnsLeft).session.nextTime? = some time
  session_eq : c'.session = (c.turns c.turnsLeft).session.advanceTo time
  sound : c'.Sound t received
  awake : c'.Awake
  longest_le : c'.session.site.backend.longestReply ≤ bound
  rank_lt : (c'.turns c'.turnsLeft).total (Sending.rank bound) <
    (c.turns c.turnsLeft).total (Sending.rank bound)

/-- **Each round** brings the session further, as long as a send has no result. -/
theorem Sound.exists_round (h : c.Sound t received) (hawake : c.Awake)
    (hbound : c.session.site.backend.longestReply ≤ bound)
    (hsends : c.Sends i request success decode)
    (hresult : (c.turns c.turnsLeft).session.result? i = none) :
    ∃ time ms, Round t received bound c time ((c.turns c.turnsLeft).act (.pass ms)) := by
  obtain ⟨hsound, hfollows⟩ := h.run (List.replicate c.turnsLeft .turn)
  have hawake₁ := h.awake_run hawake (List.replicate c.turnsLeft .turn)
  have hdrained := h.drained hbound
  obtain ⟨stage, hjob, hstanding⟩ := hfollows.sends hsends
  have hpending := hstanding.ne_finished hresult
  obtain ⟨time, hnext, hlater, hdue⟩ := hsound.exists_due hawake₁ hdrained.ready_eq hjob hpending
  refine ⟨time, time - (c.turns c.turnsLeft).session.site.now, ?_⟩
  have hsound₂ := (hsound.act (.pass (time - (c.turns c.turnsLeft).session.site.now))).1
  exact
    { nextTime_eq := hnext
      session_eq := by
        have hnow : (c.turns c.turnsLeft).session.site.now +
            (time - (c.turns c.turnsLeft).session.site.now) = time :=
          Nat.add_sub_cancel' (Nat.le_of_lt hlater)
        exact congrArg (c.turns c.turnsLeft).session.advanceTo hnow
      sound := hsound₂
      awake := awake_pass hawake₁ _
      longest_le := hdrained.longest_le
      rank_lt := (hsound₂.drained hdrained.longest_le).rank_lt hdue }

/-- Waiting for a send is nothing but some moves, and ends with its result if it goes on for long
enough. -/
theorem Sound.exists_awaitFor (h : c.Sound t received) (hawake : c.Awake)
    (hbound : c.session.site.backend.longestReply ≤ bound)
    (hsends : c.Sends i request success decode) {fuel : Nat}
    (hfuel : (c.turns c.turnsLeft).total (Sending.rank bound) < fuel) :
    ∃ later result, (c.run later).session =
      c.session.awaitFor none none (fun s => (s.result? i).isSome) fuel ∧
      (c.run later).session.result? i = some result := by
  induction fuel generalizing c with
  | zero => exact absurd hfuel (Nat.not_lt_zero _)
  | succ fuel ih =>
    have hsession : c.session.runReady none = (c.turns c.turnsLeft).session :=
      (c.session_turns _).symm
    rw [Session.awaitFor]
    cases hresult : c.session.result? i with
    | some result => exact ⟨[], result, by simp [Session.runOwn, hresult, run_nil], hresult⟩
    | none =>
      cases hresult₁ : (c.turns c.turnsLeft).session.result? i with
      | some result =>
        refine ⟨List.replicate c.turnsLeft .turn, result, ?_, hresult₁⟩
        simp [Session.runOwn, hresult, Session.isDue, hsession, hresult₁]
        rfl
      | none =>
        -- the line has run empty and there is still no result, so time jumps
        obtain ⟨time, ms, hround⟩ := h.exists_round hawake hbound hsends hresult₁
        have hsends₂ := ((h.run (List.replicate c.turnsLeft .turn)).1.act (.pass ms)).2.sends
          ((h.run (List.replicate c.turnsLeft .turn)).2.sends hsends)
        obtain ⟨later, result, hthen, hresult₂⟩ :=
          ih hround.sound hround.awake hround.longest_le hsends₂
          (Nat.lt_of_lt_of_le hround.rank_lt (Nat.le_of_lt_succ hfuel))
        have hrun : c.run (List.replicate c.turnsLeft .turn ++ .pass ms :: later) =
            ((c.turns c.turnsLeft).act (.pass ms)).run later := run_append c _ _
        refine ⟨List.replicate c.turnsLeft .turn ++ .pass ms :: later, result, ?_, ?_⟩
        · rw [hrun, hthen, hround.session_eq]
          simp [Session.runOwn, hresult, Session.isDue, hsession, hresult₁, hround.nextTime_eq,
            Session.earlier?]
        · rw [hrun]
          exact hresult₂

theorem total_rank_lt_horizon (c : Chronicle α) :
    c.total (Sending.rank c.session.site.backend.longestReply) < c.session.horizon := by
  unfold Session.horizon
  rw [← List.sum_eq_foldl_nat]
  -- the bound counts one job more than there are
  have hroom : c.session.jobs.length * (c.session.site.backend.longestReply + 4) <
      (c.session.jobs.length + 1) * (c.session.site.backend.longestReply + 4) := by
    rw [Nat.succ_mul]
    omega
  refine Nat.lt_of_le_of_lt ?_ (Nat.add_lt_add_right hroom _)
  refine sum_map_le (fun job => ?_) c.session.jobs
  cases job with
  | send outcome request success decode stage =>
    cases stage with
    | acquiring x => cases x <;> simp [Job.stage, Sending.rank, Acquisition.rank]
    | exchanging x =>
      rcases x with ⟨channel, request', wakeAt, delays, conclusion⟩ | ⟨channel, result⟩
      · show delays.length + 1 ≤ c.session.site.backend.longestReply + 4 + delays.length
        omega
      · exact Nat.zero_le _
    | finished => simp [Job.stage, Sending.rank]
  | _ => simp [Job.stage, Sending.rank]

/-- **Waiting for a send** ends with its result, and is nothing but some moves. -/
theorem Sound.exists_wait (h : c.Sound t received) (hawake : c.Awake)
    (hsends : c.Sends i request success decode) :
    ∃ later result, c.session.wait i none = (some result, (c.run later).session) ∧
      ((c.run later).record i).result = some result := by
  have hlongest := Nat.le_refl c.session.site.backend.longestReply
  have hfuel := Nat.lt_of_le_of_lt (h.drained hlongest).rank_le c.total_rank_lt_horizon
  obtain ⟨later, result, hthen, hresult⟩ := h.exists_awaitFor hawake hlongest hsends hfuel
  refine ⟨later, result, ?_, hresult⟩
  rw [← hresult, hthen]
  rfl

end Chronicle

end ItemStore
