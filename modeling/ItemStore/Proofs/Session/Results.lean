import ItemStore.Session.Requests

/-!
# Results stay

Whatever the jobs of a session do and however long somebody waits, outcomes that have a result keep
it, and no outcome comes or goes.

## Main results

- `Session.keeps_run`: a look of a job, of whatever kind, keeps results;
- `Session.keeps_wait`: so does waiting, since it is nothing but looks and the passing of time;
- `Session.wait_of_result`: waiting for a result that is there already does nothing at all.
-/

namespace ItemStore.Session

variable {α : Type} {s s' s'' : Session α} {outcome : Nat} {result : Except StoreError α}

/-- A session has the outcomes of another one, and their results. -/
structure Keeps (s s' : Session α) : Prop where
  length_eq : s'.outcomes.length = s.outcomes.length
  result_eq : ∀ {n : Nat} {result : Except StoreError α}, s.result? n = some result →
    s'.result? n = some result

theorem Keeps.of_outcomes (h : s'.outcomes = s.outcomes) : Keeps s s' where
  length_eq := congrArg List.length h
  result_eq := by simp [result?, h]

theorem Keeps.refl (s : Session α) : Keeps s s := .of_outcomes rfl

theorem Keeps.trans (h : Keeps s s') (h' : Keeps s' s'') : Keeps s s'' where
  length_eq := h'.length_eq.trans h.length_eq
  result_eq hresult := h'.result_eq (h.result_eq hresult)

theorem keeps_atSite (s : Session α) (site : Site) : Keeps s { s with site } := .of_outcomes rfl

theorem keeps_advanceTo (s : Session α) (time : Nat) : Keeps s (s.advanceTo time) :=
  .of_outcomes rfl

/-- An outcome is put in the place of one whose result it has. -/
theorem Keeps.of_set {o o' : Outcome α} (ho : s.outcomes[outcome]? = some o)
    (hs : s'.outcomes = s.outcomes.set outcome o')
    (hslot : ∀ {result}, o.slot = some result → o'.slot = some result) :
    Keeps s s' where
  length_eq := by rw [hs, List.length_set]
  result_eq := by
    intro n result hresult
    rw [result?, hs]
    by_cases hn : outcome = n
    · subst hn
      have hplace : outcome < s.outcomes.length := (List.getElem?_eq_some_iff.mp ho).1
      rw [result?, ho] at hresult
      rw [List.getElem?_set_self hplace]
      exact hslot hresult
    · rw [List.getElem?_set_ne hn]
      exact hresult

/-- An outcome has no result before it is there. -/
theorem lt_of_result (h : s.result? outcome = some result) : outcome < s.outcomes.length := by
  obtain ⟨o, ho, -⟩ := Option.bind_eq_some_iff.mp h
  exact (List.getElem?_eq_some_iff.mp ho).1

/-! ## Jobs -/

theorem keeps_resolve (s : Session α) (outcome : Nat) (result : Except StoreError α) :
    Keeps s (s.resolve outcome result) := by
  cases ho : s.outcomes[outcome]? with
  | none =>
    rw [resolve, ho]
    exact .refl s
  | some o =>
    have hset : (s.resolve outcome result).outcomes =
        s.outcomes.set outcome { o with slot := (o.slot.complete result).2, watchers := [] } := by
      rw [resolve, ho]
    refine .of_set ho hset ?_
    intro first hfirst
    -- a second result does not count
    show (o.slot.complete result).2 = some first
    rw [hfirst]
    rfl

theorem keeps_giveBack (s : Session α) (e : Ending) : Keeps s (s.giveBack e) := by
  unfold giveBack
  split
  · exact .of_outcomes rfl
  · exact .refl s

/-- **A look of a job** keeps results. -/
theorem keeps_run (s : Session α) (i : Nat) : Keeps s (s.run i) := by
  unfold run
  split
  next => exact .refl s
  next n request success decode stage hjob =>
    dsimp only
    split
    next => exact .of_outcomes rfl
    next e hending =>
      -- the job moves on before its outcome is resolved
      have hlooked : Keeps s
          (({ s with site := (stage.step i request s.site).2.2 } : Session α).setJob i
            (.send n request success decode (stage.step i request s.site).1)) := .of_outcomes rfl
      exact (hlooked.trans (keeps_resolve _ n _)).trans (keeps_giveBack _ e)
  next => exact .of_outcomes rfl
  next => exact .of_outcomes rfl
  next => exact .refl s
  next n hjob =>
    split
    next => exact .refl s
    next o ho =>
      split
      next => exact .of_outcomes rfl
      next => exact .of_set ho rfl id

theorem keeps_runLine (own : Option Nat) (fuel : Nat) (s : Session α) :
    Keeps s (s.runLine own fuel) := by
  induction fuel generalizing s with
  | zero => exact .refl s
  | succ fuel ih =>
    unfold runLine
    split
    next => exact .refl s
    next i rest hready =>
      refine Keeps.trans ?_ (ih _)
      split
      · exact keeps_atSite s _
      · exact (keeps_atSite s _).trans (keeps_run _ i)

theorem keeps_runOwn (own : Option Nat) (s : Session α) : Keeps s (s.runOwn own) := by
  cases own with
  | none => exact .refl s
  | some i => exact keeps_run s i

/-! ## Waiting -/

theorem keeps_awaitFor (own deadline : Option Nat) (done : Session α → Bool) (fuel : Nat)
    (s : Session α) :
    Keeps s (s.awaitFor own deadline done fuel) := by
  induction fuel generalizing s with
  | zero => exact .refl s
  | succ fuel ih =>
    have hown := keeps_runOwn own s
    have hround : Keeps s (((s.runOwn own).runReady own).runOwn own) :=
      (hown.trans (keeps_runLine own _ _)).trans (keeps_runOwn own _)
    unfold awaitFor
    dsimp only
    split
    · exact hown
    · split
      · exact hround
      · split
        · exact hround
        next time _ => exact (hround.trans (keeps_advanceTo _ time)).trans (ih _)

theorem keeps_wait (s : Session α) (outcome : Nat) (limit : Option Nat) :
    Keeps s (s.wait outcome limit).2 :=
  keeps_awaitFor none _ _ _ s

/-- What waiting gives is the result that the outcome has afterwards. -/
theorem result?_wait (s : Session α) (outcome : Nat) (limit : Option Nat) :
    (s.wait outcome limit).2.result? outcome = (s.wait outcome limit).1 := rfl

theorem keeps_of_wait {result? : Option (Except StoreError α)}
    (hwait : s.wait outcome none = (result?, s')) :
    Keeps s s' ∧ s'.result? outcome = result? := by
  have hkeeps := keeps_wait s outcome none
  have hresult := result?_wait s outcome none
  rw [hwait] at hkeeps hresult
  exact ⟨hkeeps, hresult⟩

theorem horizon_pos (s : Session α) : 0 < s.horizon := by
  unfold horizon
  rw [Nat.succ_mul]
  omega

/-- Who waits for a result that is there goes on at once. -/
theorem wait_of_result (h : s.result? outcome = some result) (limit : Option Nat) :
    s.wait outcome limit = (some result, s) := by
  obtain ⟨fuel, hfuel⟩ := Nat.exists_eq_succ_of_ne_zero (Nat.ne_of_gt s.horizon_pos)
  have hawait : s.await none (limit.map (s.site.now + ·))
      (fun s => (s.result? outcome).isSome) = s := by
    rw [await, hfuel, awaitFor]
    simp [runOwn, h]
  rw [wait, hawait, h]

end ItemStore.Session
