import ItemStore.Proofs.Except
import ItemStore.Proofs.Session.Progress
import ItemStore.Proofs.Session.Results

/-!
# Walks and streams of pages

The pages behind an outcome can be read by hand: wait for the outcome, ask for the next one, and so
on. Or they are taken from a stream, which asks for the next page before it hands one out, and keeps
an error for later if there was one. This module says that both come to the same.

## Main result

- `Session.pages_eq_walk`: a stream yields the pages of the walk, then the error in which the walk
  ended, if it did, and then nothing. What was asked for on the way and arrived as a page is among
  them.

## Architecture

1. `Session.Walk` is the walk. Each of its steps is a wait and a `Session.next`, and
   `Session.Following` says what can come of the latter.
2. `Session.Walk.items_eq` and `Session.Walk.session_eq` compare the walk with the stream, and
   `Session.Walk.fetched` with the outcomes that it leaves behind. All three go step by step along
   the walk.
3. `Session.Walk.ne_stuck`: no walk from a request that was sent waits for ever, since each further
   page is asked for by a send in the same chronicle, and `Chronicle.Sound.exists_wait` holds of all
   of them.
-/

namespace ItemStore

namespace Session

variable {α : Type} {s s' : Session α} {outcome : Nat}

/-! ## Ends of walks -/

/-- How far a walk has come. -/
inductive WalkEnd where
  /-- To a page without a link. -/
  | last
  /-- To an error. -/
  | failed (e : StoreError)
  /-- It was not to go on beyond this outcome. -/
  | paused (outcome : Nat)
  /-- It waits for ever. -/
  | stuck

namespace WalkEnd

/-- Whether a walk is over, for one of the two reasons for which it can be. -/
def isOver : WalkEnd → Bool
  | .last | .failed _ => true
  | _ => false

/-- The error, if there was one. -/
def error? : WalkEnd → Option StoreError
  | .failed e => some e
  | _ => none

end WalkEnd

/-- What a stream is to yield for a walk: its pages, and then the error in which it ended, if it
did. -/
def items (pages : List α) (ending : WalkEnd) : List (Except StoreError α) :=
  pages.map .ok ++ ending.error?.toList.map .error

theorem items_cons (page : α) (pages : List α) (ending : WalkEnd) :
    items (page :: pages) ending = .ok page :: items pages ending := rfl

/-- An error comes last. -/
theorem length_of_error {pages : List α} {ending : WalkEnd} {limit k : Nat} {e : StoreError}
    (h : ((items pages ending).take limit)[k]? = some (.error e)) :
    ((items pages ending).take limit).length = k + 1 := by
  induction pages generalizing limit k with
  | nil =>
    have hle : ((items ([] : List α) ending).take limit).length ≤ 1 := by
      rw [List.length_take]
      exact Nat.le_trans (Nat.min_le_right _ _) (by cases ending <;> simp [items, WalkEnd.error?])
    have hlt := (List.getElem?_eq_some_iff.mp h).1
    omega
  | cons page pages ih =>
    cases limit with
    | zero => cases h
    | succ limit =>
      rw [items_cons, List.take_succ_cons] at h ⊢
      cases k with
      | zero => cases h
      | succ k => exact congrArg Nat.succ (ih h)

/-! ## What was asked for -/

/-- The number of the outcome to which so many steps of a walk lead. The first page that is asked
for gets the next number of the session, and so on. -/
def pageNumber (s : Session α) (outcome : Nat) : (steps : Nat) → Nat
  | 0 => outcome
  | steps + 1 => s.outcomes.length + steps

/-- How the pages of a walk and the outcomes of the session afterwards go together. -/
structure Fetched (s : Session α) (outcome : Nat) (pages : List α) (ending : WalkEnd)
    (s' : Session α) : Prop where
  length_le : s.outcomes.length ≤ s'.outcomes.length
  /-- What was there before is still there. -/
  result_eq : ∀ {n : Nat} {result : Except StoreError α}, s.result? n = some result →
    s'.result? n = some result
  /-- Every page of the walk is the result of its outcome. -/
  visited : ∀ {k : Nat} {page : α}, pages[k]? = some page →
    s'.result? (s.pageNumber outcome k) = some (.ok page)
  /-- Every page that was asked for and arrived is visited, unless the walk was not to go on to
  it. -/
  found : ∀ {k : Nat} {page : α}, s'.result? (s.pageNumber outcome k) = some (.ok page) →
    pages[k]? = some page ∨ ending = .paused (s.pageNumber outcome k)

/-- A walk that does not come beyond its first outcome. -/
theorem Keeps.fetched {pages : List α} {ending : WalkEnd} (h : Keeps s s')
    (hpages : pages.length ≤ 1)
    (hvisited : ∀ {page : α}, pages[0]? = some page → s'.result? outcome = some (.ok page))
    (hfound : ∀ {page : α}, s'.result? outcome = some (.ok page) →
      pages[0]? = some page ∨ ending = .paused outcome) :
    Fetched s outcome pages ending s' where
  length_le := Nat.le_of_eq h.length_eq.symm
  result_eq := h.result_eq
  visited := by
    intro k page hpage
    cases k with
    | zero => exact hvisited hpage
    | succ k =>
      have hlt := (List.getElem?_eq_some_iff.mp hpage).1
      omega
  found := by
    intro k page hresult
    cases k with
    | zero => exact hfound hresult
    | succ k =>
      -- nothing was asked for
      have hlt : s.outcomes.length + k < s'.outcomes.length := lt_of_result hresult
      rw [h.length_eq] at hlt
      omega

variable [Paginated α] {page : α} {idOf : Nat → String}

/-! ## One page further -/

/-- What comes of asking for the page behind an outcome that has a page. -/
inductive Following (s : Session α) (outcome : Nat) (page : α) (id : String) :
    Except StoreError (Option Nat) → Session α → Prop where
  /-- There is no page behind it. -/
  | last (hlink : Paginated.nextLink page = none) : Following s outcome page id (.ok none) s
  /-- There is a link, but nothing to follow it with. -/
  | notPaged {link : String} (hlink : Paginated.nextLink page = some link)
      (hpager : (s.outcomes[outcome]?).bind Outcome.pager = none) :
      Following s outcome page id (.error Outcome.notPagedError) s
  /-- The link cannot be followed. -/
  | refused {link : String} {pager : Pager α} {e : StoreError}
      (hlink : Paginated.nextLink page = some link)
      (hpager : (s.outcomes[outcome]?).bind Outcome.pager = some pager)
      (hfollow : pager.template.follow link = .error e) :
      Following s outcome page id (.error e) s
  /-- The next page is asked for. -/
  | asked {link : String} {pager : Pager α} {e : Envelope}
      (hlink : Paginated.nextLink page = some link)
      (hpager : (s.outcomes[outcome]?).bind Outcome.pager = some pager)
      (hfollow : pager.template.follow link = .ok e) :
      Following s outcome page id (.ok (some s.outcomes.length))
        (s.dispatch pager.client e pager.decode (some pager) id).2

theorem following_next (h : s.result? outcome = some (.ok page)) (id : String) :
    Following s outcome page id (s.next outcome id).1 (s.next outcome id).2 := by
  rw [next, wait_of_result h]
  dsimp only
  cases hlink : Paginated.nextLink page with
  | none => exact .last hlink
  | some link =>
    cases hpager : (s.outcomes[outcome]?).bind Outcome.pager with
    | none => exact .notPaged hlink hpager
    | some pager =>
      dsimp only
      cases hfollow : pager.template.follow link with
      | error e =>
        rw [follow, hfollow]
        exact .refused hlink hpager hfollow
      | ok e =>
        rw [follow, hfollow]
        exact .asked hlink hpager hfollow

/-! ## Walks -/

/-- **A walk** over the pages of an outcome and behind it: wait for the outcome, and if this gives a
page, visit it and go on to the next outcome. It visits at most so many outcomes. The page that is
asked for from the outcome number `k` on the way gets the id `idOf k`. -/
inductive Walk : (idOf : Nat → String) → (steps : Nat) → Session α → (outcome : Nat) → List α →
    WalkEnd → Session α → Prop where
  | paused (idOf : Nat → String) (s : Session α) (outcome : Nat) : Walk idOf 0 s outcome []
      (.paused outcome) s
  | stuck {idOf : Nat → String} {steps : Nat} {s s' : Session α} {outcome : Nat}
      (hwait : s.wait outcome none = (none, s')) :
      Walk idOf (steps + 1) s outcome [] .stuck s'
  /-- Waiting ends in an error. -/
  | failed {idOf : Nat → String} {steps : Nat} {s s' : Session α} {outcome : Nat} {e : StoreError}
      (hwait : s.wait outcome none = (some (.error e), s')) : Walk idOf (steps + 1) s outcome []
        (.failed e) s'
  /-- Going on from a page ends in an error. -/
  | refused {idOf : Nat → String} {steps : Nat} {s s' s'' : Session α} {outcome : Nat} {page : α}
      {e : StoreError} (hwait : s.wait outcome none = (some (.ok page), s'))
      (hnext : s'.next outcome (idOf 0) = (.error e, s'')) :
      Walk idOf (steps + 1) s outcome [page] (.failed e) s''
  | last {idOf : Nat → String} {steps : Nat} {s s' s'' : Session α} {outcome : Nat} {page : α}
      (hwait : s.wait outcome none = (some (.ok page), s'))
      (hnext : s'.next outcome (idOf 0) = (.ok none, s'')) :
      Walk idOf (steps + 1) s outcome [page] .last s''
  | goesOn {idOf : Nat → String} {steps : Nat} {s s' s'' last : Session α}
      {outcome following : Nat} {page : α}
      {pages : List α} {ending : WalkEnd} (hwait : s.wait outcome none = (some (.ok page), s'))
      (hnext : s'.next outcome (idOf 0) = (.ok (some following), s''))
      (rest : Walk (fun k => idOf (k + 1)) steps s'' following pages ending last) :
      Walk idOf (steps + 1) s outcome (page :: pages) ending last

/-- There is a walk of any length from any outcome. -/
theorem exists_walk (idOf : Nat → String) (steps : Nat) (s : Session α) (outcome : Nat) :
    ∃ pages ending s', Walk idOf steps s outcome pages ending s' := by
  induction steps generalizing idOf s outcome with
  | zero => exact ⟨_, _, _, .paused idOf s outcome⟩
  | succ steps ih =>
    obtain ⟨result, s', hwait⟩ : ∃ result s', s.wait outcome none = (result, s') := ⟨_, _, rfl⟩
    rcases result with _ | e | page
    · exact ⟨_, _, _, .stuck hwait⟩
    · exact ⟨_, _, _, .failed hwait⟩
    · obtain ⟨following, s'', hnext⟩ : ∃ following s'',
          s'.next outcome (idOf 0) = (following, s'') := ⟨_, _, rfl⟩
      rcases following with e | _ | following
      · exact ⟨_, _, _, .refused hwait hnext⟩
      · exact ⟨_, _, _, .last hwait hnext⟩
      · obtain ⟨pages, ending, last, rest⟩ := ih (fun k => idOf (k + 1)) s'' following
        exact ⟨_, _, _, .goesOn hwait hnext rest⟩

/-! ## The stream -/

theorem takePages_ended (idOf : Nat → String) (limit : Nat) (s : Session α) :
    takePages idOf limit .ended s = ([], s) := by
  cases limit <;> rfl

/-- An error is yielded once. -/
theorem takePages_failing (idOf : Nat → String) (limit : Nat) (e : StoreError) (s : Session α) :
    takePages idOf limit (.failing e) s =
      (([.error e] : List (Except StoreError α)).take limit, s) := by
  cases limit with
  | zero => rfl
  | succ limit =>
    rw [takePages, takePage]
    simp [takePages_ended]

theorem takePages_succ_of_stuck (hwait : s.wait outcome none = (none, s')) (idOf : Nat → String)
    (limit : Nat) :
    takePages idOf (limit + 1) (.at outcome) s = ([], s') := by
  rw [takePages, takePage, hwait]

theorem takePages_succ_of_failed {e : StoreError}
    (hwait : s.wait outcome none = (some (.error e), s')) (idOf : Nat → String) (limit : Nat) :
    takePages idOf (limit + 1) (.at outcome) s = ([.error e], s') := by
  rw [takePages, takePage, hwait]
  simp [takePages_ended]

/-- Where a stream goes on after a page. -/
def PageStream.after : Except StoreError (Option Nat) → PageStream
  | .ok (some outcome) => .at outcome
  | .ok none => .ended
  | .error e => .failing e

theorem takePages_succ_of_page {following : Except StoreError (Option Nat)} {s'' : Session α}
    (hwait : s.wait outcome none = (some (.ok page), s'))
    (hnext : s'.next outcome (idOf 0) = (following, s'')) (limit : Nat) :
    takePages idOf (limit + 1) (.at outcome) s =
      let rest := takePages (fun k => idOf (k + 1)) limit (.after following) s''
      (.ok page :: rest.1, rest.2) := by
  rw [takePages, takePage, hwait]
  dsimp only
  rw [hnext]
  rcases following with e | _ | following <;> rfl

namespace Walk

variable {steps : Nat} {pages : List α} {ending : WalkEnd}

/-- **The stream** yields what the walk visits. -/
theorem items_eq (h : Walk idOf steps s outcome pages ending s') {limit : Nat}
    (hlimit : limit ≤ steps ∨ ending.isOver = true) :
    (s.pages outcome idOf limit).1 = (items pages ending).take limit := by
  show (takePages idOf limit (.at outcome) s).1 = _
  induction h generalizing limit with
  | paused =>
    have hzero : limit = 0 := by simpa [WalkEnd.isOver] using hlimit
    subst hzero
    rfl
  | stuck hwait =>
    cases limit with
    | zero => rfl
    | succ limit =>
      rw [takePages_succ_of_stuck hwait]
      rfl
  | failed hwait =>
    cases limit with
    | zero => rfl
    | succ limit =>
      rw [takePages_succ_of_failed hwait]
      simp [items, WalkEnd.error?]
  | refused hwait hnext =>
    cases limit with
    | zero => rfl
    | succ limit =>
      rw [takePages_succ_of_page hwait hnext, PageStream.after, takePages_failing]
      rfl
  | last hwait hnext =>
    cases limit with
    | zero => rfl
    | succ limit =>
      rw [takePages_succ_of_page hwait hnext, PageStream.after, takePages_ended]
      simp [items, WalkEnd.error?]
  | goesOn hwait hnext rest ih =>
    cases limit with
    | zero => rfl
    | succ limit =>
      have hrest := ih (hlimit.imp_left Nat.le_of_succ_le_succ)
      rw [takePages_succ_of_page hwait hnext, PageStream.after, items_cons,
        List.take_succ_cons, ← hrest]

/-- **The session** is left as the walk leaves it. -/
theorem session_eq (h : Walk idOf steps s outcome pages ending s') {limit : Nat}
    (hlimit : limit = steps ∨ ending.isOver = true ∧ (items pages ending).length ≤ limit) :
    (s.pages outcome idOf limit).2 = s' := by
  show (takePages idOf limit (.at outcome) s).2 = s'
  induction h generalizing limit with
  | paused =>
    have hzero : limit = 0 := by simpa [WalkEnd.isOver] using hlimit
    subst hzero
    rfl
  | stuck hwait =>
    cases limit with
    | zero => simp [WalkEnd.isOver] at hlimit
    | succ limit => rw [takePages_succ_of_stuck hwait]
  | failed hwait =>
    cases limit with
    | zero => simp [items, WalkEnd.error?] at hlimit
    | succ limit => rw [takePages_succ_of_failed hwait]
  | refused hwait hnext =>
    cases limit with
    | zero => simp [items] at hlimit
    | succ limit => rw [takePages_succ_of_page hwait hnext, PageStream.after, takePages_failing]
  | last hwait hnext =>
    cases limit with
    | zero => simp [items] at hlimit
    | succ limit => rw [takePages_succ_of_page hwait hnext, PageStream.after, takePages_ended]
  | goesOn hwait hnext rest ih =>
    cases limit with
    | zero => simp [items] at hlimit
    | succ limit =>
      rw [takePages_succ_of_page hwait hnext, PageStream.after]
      exact ih (hlimit.imp Nat.succ.inj (And.imp_right Nat.le_of_succ_le_succ))

/-- A walk that was not to go on has come as far as it was to go. -/
theorem length_of_paused (h : Walk idOf steps s outcome pages ending s') {n : Nat}
    (hending : ending = .paused n) :
    pages.length = steps := by
  induction h with
  | paused => rfl
  | goesOn hwait hnext rest ih => exact congrArg Nat.succ (ih hending)
  | stuck | failed | refused | last => cases hending

end Walk

/-! ## What the walk asked for -/

/-- Asking for a page adds an outcome at the end, and changes no result. -/
theorem Following.outcomes_eq {following : Nat} {id : String}
    (h : Following s outcome page id (.ok (some following)) s') :
    following = s.outcomes.length ∧ s'.outcomes.length = s.outcomes.length + 1 ∧
      ∀ {n : Nat} {result : Except StoreError α}, s.result? n = some result →
      s'.result? n = some result := by
  cases h with
  | asked =>
    refine ⟨rfl, List.length_append, ?_⟩
    intro n result hresult
    have hplace := lt_of_result hresult
    rw [← hresult]
    exact congrArg (·.bind Outcome.slot) (List.getElem?_append_left hplace)

/-- Where no page is asked for, nothing happens. -/
theorem Following.stays {following : Except StoreError (Option Nat)} {id : String}
    (h : Following s outcome page id following s') (hnone : ∀ n, following ≠ .ok (some n)) :
    s' = s := by
  cases h with
  | asked => exact absurd rfl (hnone _)
  | last | notPaged | refused => rfl

theorem following_of_next {following : Except StoreError (Option Nat)} {id : String}
    (hresult : s.result? outcome = some (.ok page)) (hnext : s.next outcome id = (following, s')) :
    Following s outcome page id following s' := by
  have hfollowing := following_next hresult id
  rw [hnext] at hfollowing
  exact hfollowing

/-- A walk that goes on to the outcome of a page that was asked for. -/
theorem Fetched.cons {pages : List α} {ending : WalkEnd} {waited asked : Session α}
    {following : Nat} {id : String} (hkeeps : Keeps s waited)
    (hresult : waited.result? outcome = some (.ok page))
    (hasked : Following waited outcome page id (.ok (some following)) asked)
    (h : Fetched asked following pages ending s') :
    Fetched s outcome (page :: pages) ending s' := by
  obtain ⟨rfl, hlength, hkept⟩ := hasked.outcomes_eq
  rw [hkeeps.length_eq] at hlength
  have hpage : s'.result? outcome = some (.ok page) := h.result_eq (hkept hresult)
  -- the walk behind the page numbers its outcomes one step later
  have hnumber (k : Nat) : asked.pageNumber waited.outcomes.length k =
      s.pageNumber outcome (k + 1) := by
    cases k with
    | zero => exact hkeeps.length_eq
    | succ k =>
      show asked.outcomes.length + k = s.outcomes.length + (k + 1)
      rw [hlength]
      omega
  exact
    { length_le := by
        have hrest := h.length_le
        omega
      result_eq := fun hresult => h.result_eq (hkept (hkeeps.result_eq hresult))
      visited := by
        intro k page' hpage'
        cases k with
        | zero =>
          cases hpage'
          exact hpage
        | succ k =>
          rw [← hnumber]
          exact h.visited hpage'
      found := by
        intro k page' hresult'
        cases k with
        | zero =>
          cases hpage.symm.trans hresult'
          exact .inl rfl
        | succ k =>
          rw [← hnumber] at hresult' ⊢
          exact h.found hresult' }

/-- **No page** is lost on a walk. -/
theorem Walk.fetched {steps : Nat} {pages : List α} {ending : WalkEnd}
    (h : Walk idOf steps s outcome pages ending s') :
    Fetched s outcome pages ending s' := by
  induction h with
  | paused =>
    exact (Keeps.refl _).fetched (Nat.zero_le _) (fun hpage => by cases hpage) fun _ => .inr rfl
  | stuck hwait | failed hwait =>
    obtain ⟨hkeeps, hresult⟩ := keeps_of_wait hwait
    refine hkeeps.fetched (Nat.zero_le _) (fun hpage => by cases hpage) fun hpage => ?_
    cases hresult.symm.trans hpage
  | refused hwait hnext | last hwait hnext =>
    obtain ⟨hkeeps, hresult⟩ := keeps_of_wait hwait
    obtain rfl := (following_of_next hresult hnext).stays fun _ hsome => by cases hsome
    refine hkeeps.fetched (Nat.le_refl 1) (fun hpage => ?_) fun hpage => ?_
    · cases hpage
      exact hresult
    · cases hresult.symm.trans hpage
      exact .inl rfl
  | goesOn hwait hnext rest ih =>
    obtain ⟨hkeeps, hresult⟩ := keeps_of_wait hwait
    exact .cons hkeeps hresult (following_of_next hresult hnext) ih

/-- Where a walk ends without an error, there is no link to a further page. -/
theorem Walk.exists_getLast {steps : Nat} {pages : List α} {ending : WalkEnd}
    (h : Walk idOf steps s outcome pages ending s') (hending : ending = .last) :
    ∃ page, pages.getLast? = some page ∧ Paginated.nextLink page = none := by
  induction h with
  | paused | stuck | failed | refused => cases hending
  | last hwait hnext =>
    obtain ⟨-, hresult⟩ := keeps_of_wait hwait
    cases following_of_next hresult hnext with
    | last hlink => exact ⟨_, rfl, hlink⟩
  | goesOn hwait hnext rest ih =>
    obtain ⟨page, hlast, hlink⟩ := ih hending
    refine ⟨page, ?_, hlink⟩
    rw [List.getLast?_cons, hlast]
    rfl

/-! ## Waiting on a walk -/

/-- How one can have got an outcome. -/
inductive Obtained : Session α → Nat → Prop where
  /-- It had its result from the start. -/
  | ready {s : Session α} {outcome : Nat} {result : Except StoreError α}
      (h : s.outcomes[outcome]? = some (.ready result)) :
      Obtained s outcome
  /-- It is that of a request, paged or not, which was sent in a session with a new pool. Anything
  may have happened to the session before and since. -/
  | sent {endpoint : Endpoint} {config : PoolConfig} {pool : Pool}
      (h : Pool.new endpoint config = .ok pool)
      (backend : Backend) (moves : List (Move α)) {outcome : Nat}
      (hsent : outcome < ((Chronicle.start pool backend).run moves).session.outcomes.length) :
      Obtained ((Chronicle.start pool backend).run moves).session outcome

/-- The result of a send comes, and then that of the send to which its page leads, and so on. -/
theorem Walk.ne_stuck_of_send {steps : Nat} {pages : List α} {ending : WalkEnd} {t : Terms}
    {received : List (Request × Conclusion)} {c : Chronicle α} (hsound : c.Sound t received)
    (hawake : c.Awake) (hsent : outcome < c.session.outcomes.length)
    (h : Walk idOf steps s outcome pages ending s') (hs : s = c.session) :
    ending ≠ .stuck := by
  induction h generalizing c with
  | paused | failed | refused | last => intro hending; cases hending
  | stuck hwait =>
    obtain ⟨request, success, decode, hsends⟩ := hsound.sends _ (hsound.outcomes_length ▸ hsent)
    obtain ⟨later, result, hresult, -⟩ := hsound.exists_wait hawake hsends
    rw [hs, hresult] at hwait
    cases hwait
  | goesOn hwait hnext rest ih =>
    obtain ⟨-, hpage⟩ := keeps_of_wait hwait
    obtain ⟨request, success, decode, hsends⟩ := hsound.sends _ (hsound.outcomes_length ▸ hsent)
    obtain ⟨later, result, hresult, -⟩ := hsound.exists_wait hawake hsends
    rw [hs, hresult] at hwait
    cases hwait
    cases following_of_next hpage hnext with
    | @asked link pager e hlink hpager hfollow =>
      have hsound' := (hsound.run later).1
      have hawake' := hsound.awake_run hawake later
      -- asking for the page is one more move
      refine ih (c := (c.run later).act (.send pager.client e pager.decode (some pager) _))
        (hsound'.send ..) (hsound'.awake_act hawake' _) ?_ rfl
      show _ < (_ ++ [_]).length
      rw [List.length_append]
      exact Nat.lt_succ_self _

/-- Nobody waits on a walk from a result that is there, and the walk does not lead further. -/
theorem Walk.ne_stuck_of_ready {steps : Nat} {pages : List α} {ending : WalkEnd}
    {result : Except StoreError α} (hready : s.outcomes[outcome]? = some (.ready result))
    (h : Walk idOf steps s outcome pages ending s') :
    ending ≠ .stuck := by
  have hresult : s.result? outcome = some result := by rw [result?, hready]; rfl
  have hpager : (s.outcomes[outcome]?).bind Outcome.pager = none := by rw [hready]; rfl
  cases h with
  | paused | failed | refused | last => intro hending; cases hending
  | stuck hwait =>
    rw [wait_of_result hresult] at hwait
    cases hwait
  | goesOn hwait hnext rest =>
    rw [wait_of_result hresult] at hwait
    cases hwait
    cases following_of_next hresult hnext with
    | asked hlink hpaged => cases hpager.symm.trans hpaged

theorem Walk.ne_stuck {steps : Nat} {pages : List α} {ending : WalkEnd}
    (hobtained : Obtained s outcome) (h : Walk idOf steps s outcome pages ending s') :
    ending ≠ .stuck := by
  cases hobtained with
  | ready hready => exact h.ne_stuck_of_ready hready
  | sent hpool backend moves hsent =>
    have hsound := Chronicle.sound_start (α := α) hpool backend
    exact h.ne_stuck_of_send (hsound.run moves).1
      (hsound.awake_run (Chronicle.awake_start _ backend) moves) hsent rfl

/-! ## Streams and walks -/

/-- What is promised of a stream, next to a walk from the same outcome. -/
structure Streamed (idOf : Nat → String) (steps : Nat) (s : Session α) (outcome : Nat)
    (pages : List α) (ending : WalkEnd) (s' : Session α) : Prop where
  /-- The stream yields what the walk visits, as far as the walk was to go. If the walk is over,
  then nothing comes behind its last page, or its error if it ended in one, however much is
  taken. -/
  items_eq : ∀ {limit : Nat}, limit ≤ steps ∨ ending.isOver = true →
    (s.pages outcome idOf limit).1 = (items pages ending).take limit
  /-- The stream does to the session what the walk does. -/
  session_eq : ∀ {limit : Nat}, limit = steps ∨ ending.isOver = true ∧
    (items pages ending).length ≤ limit → (s.pages outcome idOf limit).2 = s'
  /-- The walk is as long as it was to be, unless it is over. -/
  length_eq : ∀ {n : Nat}, ending = .paused n → pages.length = steps
  /-- A walk that ends in no error ends on a page without a link to a further one. -/
  exists_getLast : ending = .last →
    ∃ page, pages.getLast? = some page ∧ Paginated.nextLink page = none
  /-- No page is lost. -/
  fetched : Fetched s outcome pages ending s'
  /-- Each result comes sooner or later. -/
  ne_stuck : Obtained s outcome → ending ≠ .stuck

/-- **A stream of pages** yields the pages that one visits who waits for an outcome, asks for the
next one, and so on, then the error if this ends in one, and then nothing. No error is followed by
anything, and no page that was asked for and arrived is left out. -/
theorem pages_eq_walk (s : Session α) (outcome : Nat) (idOf : Nat → String) (steps : Nat) :
    (∃ pages ending s', Walk idOf steps s outcome pages ending s') ∧
      (∀ {pages ending s'}, Walk idOf steps s outcome pages ending s' →
        Streamed idOf steps s outcome pages ending s') ∧
      ∀ {k e}, (s.pages outcome idOf steps).1[k]? = some (.error e) →
      (s.pages outcome idOf steps).1.length = k + 1 := by
  refine ⟨exists_walk idOf steps s outcome, ?_, ?_⟩
  · intro pages ending s' h
    exact
      { items_eq := h.items_eq
        session_eq := h.session_eq
        length_eq := h.length_of_paused
        exists_getLast := h.exists_getLast
        fetched := h.fetched
        ne_stuck := fun hobtained => h.ne_stuck hobtained }
  · intro k e herror
    obtain ⟨pages, ending, s', h⟩ := exists_walk idOf steps s outcome
    rw [h.items_eq (.inl (Nat.le_refl steps))] at herror ⊢
    exact length_of_error herror

/-- The second page breaks its channel: the stream yields the first page and an error. -/
theorem pages_eq_walk_of_fault :
    let url : Url := ⟨"https", some ⟨"", .domain "items.test", none⟩, .segments [], none, none⟩
    let config : PoolConfig := { maxChannels := 1, maxIdle := 1 }
    let pool : Pool := { endpoint := ⟨url, "/v0"⟩, config, free := 1 }
    let first : Response :=
      ⟨200, .empty, "\x7b\"count\":1,\"results\":[],\"next\":\"/v0/c?afterKey=k\"\x7d".toUTF8⟩
    let backend : Backend :=
      { behaviour := .script (.delayed 5 (.respond first)) [.fault .other],
        server := Server.new "" false, locator := "" }
    let client : Client := ⟨⟨url, "/v0"⟩, ⟨[], ""⟩, config⟩
    let e := Envelope.new .get "c"
    let s := ((Chronicle.start pool backend).run
      [.send client e Decoder.page (some ⟨client, e, Decoder.page⟩) "first"]).session
    let page : Page := { count := 1, next := some "/v0/c?afterKey=k" }
    let idOf (k : Nat) : String := if k = 0 then "second" else "third"
    Obtained s 0 ∧ ∃ cause s', Walk idOf 5 s 0 [page] (.failed cause) s' ∧
      Streamed idOf 5 s 0 [page] (.failed cause) s' := by
  intro url config pool first backend client e s page idOf
  have hobtained : Obtained s 0 := by
    have hnew : Pool.new pool.endpoint config = .ok pool := rfl
    exact .sent hnew backend [.send client e Decoder.page (some ⟨client, e, Decoder.page⟩) "first"]
      (Nat.zero_lt_one)
  obtain ⟨hfirst, hnext, hsecond⟩ : (s.wait 0 none).1.map Except.toOption = some (some page) ∧
      ((s.wait 0 none).2.next 0 (idOf 0)).1.toOption = some (some 1) ∧
      (((s.wait 0 none).2.next 0 (idOf 0)).2.wait 1 none).1.map Except.toOption = some none := by
    decide +kernel
  -- what was computed is all that counts of the session
  clear_value s page idOf
  obtain ⟨result, hwait, hresult⟩ := Option.map_eq_some_iff.mp hfirst
  obtain ⟨failure, hwait', hfailure⟩ := Option.map_eq_some_iff.mp hsecond
  obtain ⟨cause, rfl⟩ := toOption_eq_none_iff.mp hfailure
  rw [toOption_eq_some_iff] at hresult hnext
  subst hresult
  have hwalk : Walk idOf 5 s 0 [page] (.failed cause) _ :=
    .goesOn (Prod.ext hwait rfl) (Prod.ext hnext rfl) (.failed (Prod.ext hwait' rfl))
  exact ⟨hobtained, cause, _, hwalk, (pages_eq_walk s 0 idOf 5).2.1 hwalk⟩

end Session

end ItemStore
