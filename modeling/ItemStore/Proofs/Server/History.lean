import ItemStore.Proofs.Server.Answers

/-!
# Conditional writes over the life of a server

A server is used by several parties at once. Requests are answered one after another, but a direct
insert takes its version first and puts its item later, and others may come in between. This module
follows such a server from its start and keeps a log of what its users see.

## Main results

- `Shared.no_lost_update`: over the whole life of a server no version is given twice, and a write
  that is conditional on a version succeeds only if the item still is as the write that got this
  version has left it.

## Architecture

1. `Shared.act` is one step, `Shared.History` a whole life with its log. `Entry.Writes` and
   `Entry.Deletes` say what an entry of the log tells of an item; they look at requests and answers
   only.
2. `Numbered` ties the counter to the versions that are in use, and `Explained` ties the store to
   the log. Each step keeps them, by way of what a request can do (`Server.handled_handle`).
3. An accepted condition finds its version in the store, and `Explained.latest` then tells where in
   the log it is from.
-/

namespace ItemStore

/-! ## Servers in use -/

/-- A direct insert that has taken its version and has not put its item yet. -/
structure Insertion where
  collection : String
  key : String
  value : Json
  ref : String

/-- A server with the inserts that are under way. -/
structure Shared where
  server : Server
  pending : List Insertion

namespace Shared

/-- What a party does. -/
inductive Action where
  /-- A direct insert takes its version. -/
  | beginInsert (collection key : String) (value : Json)
  /-- A direct insert that is under way puts its item and returns. -/
  | finishInsert (i : Nat)
  /-- A request is answered. -/
  | request (locator : String) (request : Request)

/-- What is seen of it. -/
inductive Entry where
  | nothing
  | begun
  | inserted (collection key ref : String)
  | answered (request : Request) (response : Response)

/-- One step. -/
def act (s : Shared) : Action → Entry × Shared
  | .beginInsert collection key value =>
    let (server, ref) := s.server.takeRef
    (.begun, ⟨server, s.pending ++ [⟨collection, key, value, ref⟩]⟩)
  | .finishInsert i =>
    match s.pending[i]? with
    | some p =>
      (.inserted p.collection p.key p.ref,
        ⟨s.server.place p.collection p.key ⟨p.value, p.ref⟩, s.pending.eraseIdx i⟩)
    | none => (.nothing, s)
  | .request locator request =>
    let (response, server) := s.server.handle locator request
    (.answered request response, ⟨server, s.pending⟩)

/-- The logs that a new server can have, and the states that they lead to. -/
inductive History (apiKey : String) (gzip : Bool) : List Entry → Shared → Prop where
  | start : History apiKey gzip [] ⟨Server.new apiKey gzip, []⟩
  | act {log : List Entry} {s : Shared} (h : History apiKey gzip log s) (action : Action) :
      History apiKey gzip (log ++ [(s.act action).1]) (s.act action).2

/-- A direct insert that nothing interrupts is a write. -/
theorem server_act_act (s : Shared) (collection key : String) (value : Json) :
    let begun := (s.act (.beginInsert collection key value)).2
    (begun.act (.finishInsert s.pending.length)).2 =
      ⟨(s.server.write collection key value).1, s.pending⟩ := by
  simp [act, Server.write, List.eraseIdx_append_of_length_le]

/-! ## Logs -/

namespace Entry

/-- An item was written and got a version: by a direct insert, or by a request that was answered
with status 201. -/
def Writes (collection key ref : String) : Entry → Prop
  | .inserted collection' key' ref' => collection' = collection ∧ key' = key ∧ ref' = ref
  | .answered request response =>
    (request.method = .put ∨ request.method = .patch) ∧
      Server.segments? request.url.path = some [collection, key] ∧ response.status = 201 ∧
      response.etagRef? = some ref
  | _ => False

/-- An item was deleted, if there was one. -/
def Deletes (collection key : String) : Entry → Prop
  | .answered request response =>
    request.method = .delete ∧ Server.segments? request.url.path = some [collection, key] ∧
      response.status = 204
  | _ => False

/-- An item was written or deleted. -/
def Touches (collection key : String) (e : Entry) : Prop :=
  (∃ ref, e.Writes collection key ref) ∨ e.Deletes collection key

/-- A write that was conditional on a version succeeded. -/
def Updates (collection key ref : String) : Entry → Prop
  | .answered request response =>
    (request.method = .put ∨ request.method = .patch) ∧
      Server.segments? request.url.path = some [collection, key] ∧
      (∃ value, request.headers.get? "If-Match" = some value ∧ Server.Names value ref) ∧
      response.status = 201
  | _ => False

/-- Whether a write has begun, which takes a version. -/
def takesVersion : Entry → Bool
  | .begun => true
  | .answered _ response => response.status = 201
  | _ => false

variable {e : Entry} {collection key ref collection' key' ref' : String}

theorem Writes.unique (h : e.Writes collection key ref) (h' : e.Writes collection' key' ref') :
    collection = collection' ∧ key = key' ∧ ref = ref' := by
  cases e with
  | inserted c k r =>
    obtain ⟨rfl, rfl, rfl⟩ := h
    exact h'
  | answered request response =>
    obtain ⟨-, hsegments, -, htag⟩ := h
    obtain ⟨-, hsegments', -, htag'⟩ := h'
    simp only [hsegments, Option.some.injEq, List.cons.injEq, and_true] at hsegments'
    exact ⟨hsegments'.1, hsegments'.2, Option.some.inj (htag.symm.trans htag')⟩
  | nothing => cases h
  | begun => cases h

theorem Writes.not_deletes (h : e.Writes collection key ref) : ¬e.Deletes collection' key' := by
  intro h'
  cases e with
  | answered request response =>
    obtain ⟨-, -, hcreated, -⟩ := h
    obtain ⟨-, -, hdeleted⟩ := h'
    rw [hcreated] at hdeleted
    cases hdeleted
  | _ => cases h'

theorem Writes.eq_of_touches (h : e.Writes collection key ref) (h' : e.Touches collection' key') :
    collection = collection' ∧ key = key' := by
  rcases h' with ⟨ref', h'⟩ | h'
  · exact ⟨(h.unique h').1, (h.unique h').2.1⟩
  · exact absurd h' h.not_deletes

theorem Deletes.eq_of_touches (h : e.Deletes collection key) (h' : e.Touches collection' key') :
    collection = collection' ∧ key = key' := by
  rcases h' with ⟨ref', h'⟩ | h'
  · exact absurd h h'.not_deletes
  · cases e with
    | answered request response =>
      obtain ⟨-, hsegments, -⟩ := h
      obtain ⟨-, hsegments', -⟩ := h'
      simpa only [hsegments, Option.some.injEq, List.cons.injEq, and_true] using hsegments'
    | _ => cases h

end Entry

/-- How many versions were taken. -/
def versions (log : List Entry) : Nat :=
  log.countP Entry.takesVersion

/-- A version was returned to the party that wrote an item. -/
def Returned (log : List Entry) (ref : String) : Prop :=
  ∃ e ∈ log, ∃ collection key, e.Writes collection key ref

/-- One entry of a log comes before another, with some in between. -/
def Apart (log : List Entry) (first : Entry) (between : List Entry) (second : Entry) : Prop :=
  ∃ before after, log = before ++ first :: (between ++ second :: after)

theorem versions_concat (log : List Entry) (e : Entry) :
    versions (log ++ [e]) = versions log + if e.takesVersion then 1 else 0 := by
  rw [versions, List.countP_append, List.countP_singleton]
  rfl

theorem versions_le_append (log after : List Entry) : versions log ≤ versions (log ++ after) := by
  rw [versions, versions, List.countP_append]
  exact Nat.le_add_right ..

theorem returned_concat {log : List Entry} {e : Entry} {ref : String} :
    Returned (log ++ [e]) ref ↔ Returned log ref ∨
    ∃ collection key, e.Writes collection key ref := by
  simp only [Returned, List.mem_append, List.mem_singleton, or_and_right, exists_or, exists_eq_left]

private theorem eq_or_of_concat_eq {log before after : List Entry} {e w : Entry}
    (h : log ++ [e] = before ++ w :: after) :
    (log = before ∧ e = w ∧ after = []) ∨ ∃ after', after = after' ++ [e] ∧
    log = before ++ w :: after' := by
  rcases List.eq_nil_or_concat after with rfl | ⟨after', x, rfl⟩
  · obtain ⟨rfl, hlast⟩ := List.append_inj' h rfl
    exact .inl ⟨rfl, List.singleton_inj.mp hlast, rfl⟩
  · rw [List.concat_eq_append, ← List.cons_append, ← List.append_assoc] at h
    obtain ⟨rfl, hlast⟩ := List.append_inj' h rfl
    exact .inr ⟨after', by rw [List.singleton_inj.mp hlast, List.concat_eq_append], rfl⟩

/-! ## Versions in use -/

/-- A version is the text of one of the first numbers. -/
def Issued (n : Nat) (ref : String) : Prop :=
  ∃ i, 1 ≤ i ∧ i ≤ n ∧ ref = Server.refText (UInt64.ofNat i)

theorem Issued.mono {m n : Nat} {ref : String} (h : Issued m ref) (hle : m ≤ n) : Issued n ref := by
  obtain ⟨i, hpos, hi, rfl⟩ := h
  exact ⟨i, hpos, Nat.le_trans hi hle, rfl⟩

theorem issued_last (n : Nat) : Issued (n + 1) (Server.refText (UInt64.ofNat (n + 1))) :=
  ⟨n + 1, Nat.succ_le_succ n.zero_le, Nat.le_refl _, rfl⟩

/-- Before the counter starts again, the next version is none of those in use. -/
theorem Issued.ne_next {n : Nat} {ref : String} (h : Issued n ref) (hn : n + 1 < 2 ^ 64) :
    ref ≠ Server.refText (UInt64.ofNat (n + 1)) := by
  obtain ⟨i, hpos, hle, rfl⟩ := h
  intro heq
  -- neither number is reduced, so equal texts would make them equal
  have hnat := congrArg UInt64.toNat (Server.refText_inj heq)
  rw [UInt64.toNat_ofNat', UInt64.toNat_ofNat', Nat.mod_eq_of_lt (by omega),
    Nat.mod_eq_of_lt hn] at hnat
  omega

/-- How the counter stands to the versions in use. -/
structure Numbered (log : List Entry) (s : Shared) : Prop where
  next_eq : s.server.nextRef = UInt64.ofNat (versions log + 1)
  returned : ∀ ref, Returned log ref → Issued (versions log) ref
  pending : ∀ p ∈ s.pending, Issued (versions log) p.ref ∧ ¬Returned log p.ref
  distinct : (s.pending.map Insertion.ref).Nodup

/-- How the store stands to the log: an item has the version that the last write of it returned. -/
structure Explained (log : List Entry) (s : Server) : Prop where
  returned : ∀ {collection key : String} {item : StoredItem}, s.item? collection key = some item →
    Returned log item.ref
  latest : ∀ {before after : List Entry} {w : Entry} {collection key collection' key' : String}
    {item : StoredItem},
    log = before ++ w :: after → w.Writes collection' key' item.ref →
      s.item? collection key = some item →
      (collection' = collection ∧ key' = key) ∧ ∀ e ∈ after, ¬e.Touches collection key

variable {log : List Entry} {s s' : Server} {e : Entry} {collection key ref : String}

/-- A step explains the store that it leaves, if what is found there was written by it under a fresh
version, or was there before and was left alone. -/
theorem Explained.step (h : Explained log s)
    (hfresh : ∀ {collection key ref : String}, e.Writes collection key ref → ¬Returned log ref)
    (hfound : ∀ {collection key : String} {item : StoredItem}, s'.item? collection key = some item →
      e.Writes collection key item.ref ∨
      (¬e.Touches collection key ∧ s.item? collection key = some item)) :
    Explained (log ++ [e]) s' where
  returned hitem := by
    rcases hfound hitem with hwrites | ⟨-, hold⟩
    · exact returned_concat.mpr (.inr ⟨_, _, hwrites⟩)
    · exact returned_concat.mpr (.inl (h.returned hold))
  latest := by
    intro before after w collection key collection' key' item hlog hw hitem
    -- the write that returned the version is this step, or one in the old log
    rcases eq_or_of_concat_eq hlog with ⟨-, rfl, rfl⟩ | ⟨after', rfl, hinit⟩
    · rcases hfound hitem with hwrites | ⟨-, hold⟩
      · exact ⟨⟨(hw.unique hwrites).1, (hw.unique hwrites).2.1⟩, by simp⟩
      · exact absurd (h.returned hold) (hfresh hw)
    · rcases hfound hitem with hwrites | ⟨huntouched, hold⟩
      · exact absurd ⟨w, hinit ▸ List.mem_append_cons_self, collection', key', hw⟩ (hfresh hwrites)
      · obtain ⟨hsame, hafter⟩ := h.latest hinit hw hold
        refine ⟨hsame, fun x hx => ?_⟩
        rcases List.mem_append.mp hx with hx | hx
        · exact hafter x hx
        · exact List.mem_singleton.mp hx ▸ huntouched

theorem Explained.kept (h : Explained log s)
    (huntouched : ∀ collection key, ¬e.Touches collection key)
    (hitem : ∀ collection key, s'.item? collection key = s.item? collection key) :
    Explained (log ++ [e]) s' :=
  h.step (fun hwrites => absurd (.inl ⟨_, hwrites⟩) (huntouched _ _)) fun hfound =>
    .inr ⟨huntouched _ _, hitem _ _ ▸ hfound⟩

theorem Explained.write (h : Explained log s) (hwrites : e.Writes collection key ref)
    (hfresh : ¬Returned log ref) {value : Json}
    (hitem : ∀ collection' key', s'.item? collection' key' =
      if collection = collection' ∧ key = key' then some ⟨value, ref⟩
        else s.item? collection' key') :
    Explained (log ++ [e]) s' := by
  refine h.step (fun hwrites' => (hwrites.unique hwrites').2.2 ▸ hfresh)
    fun {collection' key' item} hfound => ?_
  rw [hitem] at hfound
  split at hfound
  next hsame =>
    cases hfound
    exact .inl (hsame.1 ▸ hsame.2 ▸ hwrites)
  next hother => exact .inr ⟨fun htouches => hother (hwrites.eq_of_touches htouches), hfound⟩

theorem Explained.delete (h : Explained log s) (hdeletes : e.Deletes collection key)
    (hitem : ∀ collection' key', s'.item? collection' key' =
      if collection = collection' ∧ key = key' then none else s.item? collection' key') :
    Explained (log ++ [e]) s' := by
  refine h.step (fun hwrites => absurd hdeletes hwrites.not_deletes)
    fun {collection' key' item} hfound => ?_
  rw [hitem] at hfound
  split at hfound
  next => cases hfound
  next hother => exact .inr ⟨fun htouches => hother (hdeletes.eq_of_touches htouches), hfound⟩

/-! ## One step -/

variable {t t' : Shared}

/-- A step keeps the counter in line with the versions in use, if the version that it returns has
been issued, and none of those that are still under way is returned by it. -/
theorem Numbered.step (h : Numbered log t)
    (hnext : t'.server.nextRef = UInt64.ofNat (versions (log ++ [e]) + 1))
    (hreturns : ∀ {collection key ref : String}, e.Writes collection key ref →
      Issued (versions (log ++ [e])) ref)
    (hpending : ∀ p ∈ t'.pending, (Issued (versions (log ++ [e])) p.ref ∧ ¬Returned log p.ref) ∧
      ∀ collection key, ¬e.Writes collection key p.ref)
    (hdistinct : (t'.pending.map Insertion.ref).Nodup) : Numbered (log ++ [e]) t' where
  next_eq := hnext
  returned ref href := by
    rcases returned_concat.mp href with hold | ⟨_, _, hwrites⟩
    · exact (h.returned ref hold).mono (versions_le_append log [e])
    · exact hreturns hwrites
  pending p hp := by
    obtain ⟨⟨hissued, hold⟩, hwrites⟩ := hpending p hp
    refine ⟨hissued, fun href => ?_⟩
    rcases returned_concat.mp href with href | ⟨collection, key, href⟩
    · exact hold href
    · exact hwrites collection key href
  distinct := hdistinct

theorem Numbered.next_succ (h : Numbered log t) (hnext : t'.server.nextRef = t.server.nextRef + 1) :
    t'.server.nextRef = UInt64.ofNat (versions log + 1 + 1) := by
  rw [hnext, h.next_eq, UInt64.ofNat_add (versions log + 1) 1]
  rfl

theorem Numbered.ne_next (h : Numbered log t) (hfew : versions log + 1 < 2 ^ 64)
    (hissued : Issued (versions log) ref) :
    ref ≠ Server.refText t.server.nextRef := by
  rw [h.next_eq]
  exact hissued.ne_next hfew

theorem Numbered.not_returned_next (h : Numbered log t) (hfew : versions log + 1 < 2 ^ 64) :
    ¬Returned log (Server.refText t.server.nextRef) :=
  fun hold => h.ne_next hfew (h.returned _ hold) rfl

theorem Numbered.issued_next (h : Numbered log t) :
    Issued (versions log + 1) (Server.refText t.server.nextRef) := by
  rw [h.next_eq]
  exact issued_last (versions log)

theorem Numbered.kept (h : Numbered log t) (htakes : e.takesVersion = false)
    (hwrites : ∀ collection key ref, ¬e.Writes collection key ref)
    (hnext : t'.server.nextRef = t.server.nextRef) (hpending : t'.pending = t.pending) :
    Numbered (log ++ [e]) t' := by
  have hversions : versions (log ++ [e]) = versions log := by rw [versions_concat, htakes]; rfl
  refine h.step ?_ (fun hw => absurd hw (hwrites _ _ _)) (fun p hp => ?_) (hpending ▸ h.distinct)
  · rw [hnext, h.next_eq, hversions]
  · rw [hversions]
    exact ⟨h.pending p (hpending ▸ hp), fun _ _ => hwrites _ _ _⟩

/-- The version that an insert takes is none of those in use. -/
theorem Numbered.begin (h : Numbered log t) (hfew : versions log + 1 < 2 ^ 64) {p : Insertion}
    (href : p.ref = Server.refText t.server.nextRef)
    (hnext : t'.server.nextRef = t.server.nextRef + 1) (hpending : t'.pending = t.pending ++ [p]) :
    Numbered (log ++ [.begun]) t' := by
  have hversions : versions (log ++ [.begun]) = versions log + 1 := versions_concat ..
  refine h.step ?_ (fun hw => hw.elim) (fun q hq => ⟨?_, fun _ _ hw => hw⟩) ?_
  · rw [h.next_succ hnext, hversions]
  · rw [hpending] at hq
    rw [hversions]
    rcases List.mem_append.mp hq with hq | hq
    · exact ⟨(h.pending q hq).1.mono (Nat.le_succ _), (h.pending q hq).2⟩
    · rw [List.mem_singleton.mp hq, href]
      exact ⟨h.issued_next, h.not_returned_next hfew⟩
  · rw [hpending, List.map_append, List.nodup_append]
    refine ⟨h.distinct, by simp, fun ref hold ref' hnew => ?_⟩
    obtain ⟨q, hq, rfl⟩ := List.mem_map.mp hold
    rw [List.mem_singleton.mp hnew, href]
    exact h.ne_next hfew (h.pending q hq).1

/-- The version that an insert returns is no longer under way. -/
theorem Numbered.finish (h : Numbered log t) {before after : List Insertion} {p : Insertion}
    (hpending : t.pending = before ++ p :: after) (hpending' : t'.pending = before ++ after)
    (hnext : t'.server.nextRef = t.server.nextRef) :
    Numbered (log ++ [.inserted p.collection p.key p.ref]) t' := by
  have hversions : versions (log ++ [.inserted p.collection p.key p.ref]) = versions log :=
    versions_concat ..
  have hdistinct : ((p :: (before ++ after)).map Insertion.ref).Nodup :=
    (List.perm_middle.map Insertion.ref).nodup_iff.mp (hpending ▸ h.distinct)
  rw [List.map_cons, List.nodup_cons] at hdistinct
  refine h.step ?_ ?_ (fun q hq => ?_) (hpending' ▸ hdistinct.2)
  · rw [hnext, h.next_eq, hversions]
  · rintro _ _ _ ⟨-, -, rfl⟩
    rw [hversions]
    exact (h.pending p (hpending ▸ List.mem_append_cons_self)).1
  · -- an insert that is still under way was so before, and its version is not the one that is
    -- returned
    rw [hpending'] at hq
    have hold : q ∈ t.pending := by
      rw [hpending]
      exact (List.mem_append.mp hq).elim (List.mem_append_left _) fun hq =>
        List.mem_append_right _ (List.mem_cons_of_mem _ hq)
    rw [hversions]
    exact ⟨h.pending q hold, fun _ _ hw => hdistinct.1 (hw.2.2 ▸ List.mem_map_of_mem hq)⟩

/-- The version of a request that writes is none of those in use. -/
theorem Numbered.write (h : Numbered log t) (hfew : versions log + 1 < 2 ^ 64)
    (htakes : e.takesVersion = true)
    (hwrites : e.Writes collection key (Server.refText t.server.nextRef))
    (hnext : t'.server.nextRef = t.server.nextRef + 1) (hpending : t'.pending = t.pending) :
    Numbered (log ++ [e]) t' := by
  have hversions : versions (log ++ [e]) = versions log + 1 := by rw [versions_concat, htakes]; rfl
  refine h.step ?_ (fun hw => ?_) (fun p hp => ?_) (hpending ▸ h.distinct)
  · rw [h.next_succ hnext, hversions]
  · rw [hversions, (hw.unique hwrites).2.2]
    exact h.issued_next
  · obtain ⟨hissued, hold⟩ := h.pending p (hpending ▸ hp)
    rw [hversions]
    exact ⟨⟨hissued.mono (Nat.le_succ _), hold⟩,
      fun _ _ hw => h.ne_next hfew hissued (hw.unique hwrites).2.2⟩

/-- What holds of a log and of the state that it leads to. -/
structure Sound (log : List Entry) (s : Shared) : Prop where
  ordered : s.server.Ordered
  numbered : Numbered log s
  explained : Explained log s.server

theorem Sound.nothing (h : Sound log t) : Sound (log ++ [.nothing]) t where
  ordered := h.ordered
  numbered := h.numbered.kept rfl (fun _ _ _ hw => hw) rfl rfl
  explained := h.explained.kept (fun _ _ htouches => htouches.elim (fun ⟨_, hw⟩ => hw) id)
    fun _ _ => rfl

theorem Sound.begin (h : Sound log t) (hfew : versions log + 1 < 2 ^ 64) (collection key : String)
    (value : Json) :
    Sound (log ++ [.begun]) (t.act (.beginInsert collection key value)).2 where
  ordered := h.ordered
  numbered := h.numbered.begin (p := ⟨collection, key, value, t.server.takeRef.2⟩) hfew rfl rfl rfl
  explained := h.explained.kept (fun _ _ htouches => htouches.elim (fun ⟨_, hw⟩ => hw) id)
    fun _ _ => rfl

theorem Sound.finish (h : Sound log t) {i : Nat} {p : Insertion} (hp : t.pending[i]? = some p) :
    Sound (log ++ [.inserted p.collection p.key p.ref])
      ⟨t.server.place p.collection p.key ⟨p.value, p.ref⟩, t.pending.eraseIdx i⟩ := by
  obtain ⟨hi, hget⟩ := List.getElem?_eq_some_iff.mp hp
  have hpending : t.pending = t.pending.take i ++ p :: t.pending.drop (i + 1) := by
    rw [← hget, List.getElem_cons_drop, List.take_append_drop]
  have hmem : p ∈ t.pending := List.mem_of_getElem? hp
  exact
    { ordered := h.ordered.place p.collection p.key _
      numbered := h.numbered.finish hpending (List.eraseIdx_eq_take_drop_succ ..) rfl
      explained := h.explained.write ⟨rfl, rfl, rfl⟩ (h.numbered.pending p hmem).2
        (Server.item?_place _ _ _ _) }

theorem Sound.answer (h : Sound log t) {request : Request} {response : Response} {server : Server}
    (hhandled : t.server.Handled request response server)
    (hfew : versions (log ++ [.answered request response]) < 2 ^ 64) :
    Sound (log ++ [.answered request response]) ⟨server, t.pending⟩ := by
  cases hhandled with
  | @wrote collection key value method_eq segments_eq conditions status_eq tag_eq =>
    have htakes : (Entry.answered request response).takesVersion = true := decide_eq_true status_eq
    have hwrites : (Entry.answered request response).Writes collection key
        (Server.refText t.server.nextRef) :=
      ⟨method_eq, segments_eq, status_eq, Server.etagRef?_of_entityTag tag_eq⟩
    have hnext : versions log + 1 < 2 ^ 64 := by
      rw [versions_concat, htakes] at hfew
      exact hfew
    exact
      { ordered := h.ordered.write collection key value
        numbered := h.numbered.write hnext htakes hwrites rfl rfl
        explained := h.explained.write hwrites (h.numbered.not_returned_next hnext)
          (Server.item?_write _ _ _ _) }
  | @deleted collection key method_eq segments_eq status_eq =>
    have htakes : (Entry.answered request response).takesVersion = false :=
      decide_eq_false (by rw [status_eq]; decide)
    have hdeletes : (Entry.answered request response).Deletes collection key :=
      ⟨method_eq, segments_eq, status_eq⟩
    exact
      { ordered := h.ordered.delete collection key
        numbered := h.numbered.kept htakes (fun _ _ _ hw => hw.not_deletes hdeletes)
          (Server.nextRef_delete ..) rfl
        explained := h.explained.delete hdeletes (Server.item?_delete h.ordered _ _) }
  | kept not_created not_deleted =>
    have hwrites (collection key ref : String) : ¬(Entry.answered request response).Writes
        collection key ref :=
      fun hw => not_created hw.2.2.1
    exact
      { ordered := h.ordered
        numbered := h.numbered.kept (decide_eq_false not_created) hwrites rfl rfl
        explained := h.explained.kept
          (fun _ _ htouches => htouches.elim (fun ⟨_, hw⟩ => hwrites _ _ _ hw)
            fun hd => not_deleted hd.2.2)
          fun _ _ => rfl }

/-- Each step keeps what holds of the log and the state. -/
theorem Sound.act (h : Sound log t) (action : Action)
    (hfew : versions (log ++ [(t.act action).1]) < 2 ^ 64) :
    Sound (log ++ [(t.act action).1]) (t.act action).2 := by
  cases action with
  | beginInsert collection key value =>
    exact h.begin (versions_concat log .begun ▸ hfew) collection key value
  | finishInsert i =>
    cases hp : t.pending[i]? with
    | some p =>
      have hact : t.act (.finishInsert i) = (.inserted p.collection p.key p.ref,
          ⟨t.server.place p.collection p.key ⟨p.value, p.ref⟩, t.pending.eraseIdx i⟩) := by
        simp only [Shared.act, hp]
      rw [hact]
      exact h.finish hp
    | none =>
      have hact : t.act (.finishInsert i) = (.nothing, t) := by simp only [Shared.act, hp]
      rw [hact]
      exact h.nothing
  | request locator request => exact h.answer (t.server.handled_handle locator request) hfew

/-! ## Whole lives -/

variable {apiKey : String} {gzip : Bool}

theorem sound_start (apiKey : String) (gzip : Bool) : Sound [] ⟨Server.new apiKey gzip, []⟩ where
  ordered := Server.ordered_new apiKey gzip
  numbered :=
    { next_eq := rfl
      returned := by rintro ref ⟨e, he, -⟩; cases he
      pending := by rintro p hp; cases hp
      distinct := List.nodup_nil }
  explained :=
    { returned := by intro _ _ _ hitem; cases hitem
      latest := by intro _ _ _ _ _ _ _ _ _ _ hitem; cases hitem }

theorem History.sound (h : History apiKey gzip log t) (hfew : versions log < 2 ^ 64) :
    Sound log t := by
  -- the bound on a log bounds each log before it
  induction h with
  | start => exact sound_start apiKey gzip
  | @act log s h action ih =>
    exact (ih (Nat.lt_of_le_of_lt (versions_le_append ..) hfew)).act action hfew

/-- Each entry of a log comes from a step that follows what the log says before it. -/
theorem History.exists_act {before after : List Entry} (h : History apiKey gzip log t)
    (hlog : log = before ++ e :: after) :
    ∃ s action, History apiKey gzip before s ∧ (s.act action).1 = e := by
  induction h generalizing after with
  | start => simp at hlog
  | @act log s h action ih =>
    rcases eq_or_of_concat_eq hlog with ⟨rfl, he, -⟩ | ⟨after', -, hinit⟩
    · exact ⟨s, action, h, he⟩
    · exact ih hinit

/-- A log in which one entry comes before another ends in the other, up to there. -/
theorem Apart.exists_act {first second : Entry} {between : List Entry}
    (h : Apart log first between second) (hlog : History apiKey gzip log t)
    (hfew : versions log < 2 ^ 64) :
    ∃ before s action, Sound (before ++ first :: between) s ∧ (s.act action).1 = second ∧
      versions (before ++ first :: between ++ [second]) < 2 ^ 64 := by
  obtain ⟨before, after, rfl⟩ := h
  have hsplit : before ++ first :: (between ++ second :: after) =
      (before ++ first :: between) ++ second :: after := by
    rw [List.append_assoc, List.cons_append]
  obtain ⟨s, action, hprefix, hact⟩ := hlog.exists_act hsplit
  have hlater : versions (before ++ first :: between ++ [second]) < 2 ^ 64 := by
    refine Nat.lt_of_le_of_lt (versions_le_append _ after) ?_
    rwa [List.append_assoc, List.singleton_append, ← hsplit]
  exact ⟨before, s, action, hprefix.sound (Nat.lt_of_le_of_lt (versions_le_append _ _) hlater),
    hact, hlater⟩

/-- An entry with status 201 tells of a write whose conditions were met. -/
theorem exists_of_created {action : Action} {request : Request} {response : Response}
    (hact : (t.act action).1 = .answered request response) (hstatus : response.status = 201) :
    ∃ collection key, Server.segments? request.url.path = some [collection, key] ∧
      (Entry.answered request response).Writes collection key (Server.refText t.server.nextRef) ∧
      Server.MeetsConditions request.headers (t.server.item? collection key) := by
  cases action with
  | beginInsert collection key value => cases hact
  | finishInsert i =>
    unfold act at hact
    cases hp : t.pending[i]? <;> simp [hp] at hact
  | request locator request' =>
    obtain ⟨rfl, rfl⟩ := Entry.answered.inj hact
    obtain ⟨collection, key, hmethod, hsegments, htag, hconditions⟩ :=
      (t.server.handled_handle locator request').of_created hstatus
    exact ⟨collection, key, hsegments, ⟨hmethod, hsegments, hstatus, htag⟩, hconditions⟩

theorem exists_of_inserted {action : Action}
    (hact : (t.act action).1 = .inserted collection key ref) :
    ∃ p ∈ t.pending, p.ref = ref := by
  cases action with
  | finishInsert i =>
    unfold act at hact
    cases hp : t.pending[i]? with
    | none => simp [hp] at hact
    | some p =>
      simp only [hp, Entry.inserted.injEq] at hact
      exact ⟨p, List.mem_of_getElem? hp, hact.2.2⟩
  | _ => cases hact

/-- A write returns a version that no earlier one has returned. -/
theorem Sound.fresh (h : Sound log t) {action : Action} (hact : (t.act action).1 = e)
    (hfew : versions (log ++ [e]) < 2 ^ 64) (hwrites : e.Writes collection key ref) :
    ¬Returned log ref := by
  cases e with
  | answered request response =>
    obtain ⟨_, _, -, hwrites', -⟩ := exists_of_created hact hwrites.2.2.1
    have htakes : (Entry.answered request response).takesVersion = true :=
      decide_eq_true hwrites.2.2.1
    have hnext : versions log + 1 < 2 ^ 64 := by
      rw [versions_concat, htakes] at hfew
      exact hfew
    exact (hwrites.unique hwrites').2.2 ▸ h.numbered.not_returned_next hnext
  | inserted collection' key' ref' =>
    -- the version of an insert was taken earlier, and nobody has got it while the insert was under
    -- way
    obtain ⟨p, hp, heq⟩ := exists_of_inserted hact
    rw [← hwrites.2.2, ← heq]
    exact (h.numbered.pending p hp).2
  | nothing => cases hwrites
  | begun => cases hwrites

/-- The version that an accepted condition names is that of the item, if it is a version at all. -/
theorem exists_item_of_updates {action : Action} {n : UInt64}
    (h : (t.act action).1.Updates collection key (Server.refText n)) :
    ∃ item, t.server.item? collection key = some item ∧ item.ref = Server.refText n := by
  cases hact : (t.act action).1 with
  | answered request response =>
    rw [hact] at h
    obtain ⟨-, hsegments, ⟨value, hvalue, hnames⟩, hstatus⟩ := h
    obtain ⟨collection', key', hsegments', -, hconditions⟩ := exists_of_created hact hstatus
    obtain ⟨rfl, rfl⟩ : collection = collection' ∧ key = key' := by
      simpa only [hsegments, Option.some.injEq, List.cons.injEq, and_true] using hsegments'
    have href := hconditions.ifMatch value hvalue
    rw [Server.conditionRef_of_names hnames] at href
    exact Option.map_eq_some_iff.mp href
  | _ => rw [hact] at h; cases h

/-- A write that is conditional on a version succeeds only if the item is as the write that returned
it has left it. -/
theorem Sound.of_updates (h : Sound log t) {before after : List Entry} {w : Entry}
    {collection' key' : String} {action : Action} (hlog : log = before ++ w :: after)
    (hw : w.Writes collection' key' ref) (hupdates : (t.act action).1.Updates collection key ref) :
    (collection' = collection ∧ key' = key) ∧ ∀ e ∈ after, ¬e.Touches collection key := by
  have hreturned : Returned log ref := ⟨w, hlog ▸ List.mem_append_cons_self, collection', key', hw⟩
  -- a condition is read back only if it names a number, as every version that was returned does
  obtain ⟨i, -, -, rfl⟩ := h.numbered.returned ref hreturned
  obtain ⟨item, hitem, href⟩ := exists_item_of_updates hupdates
  exact h.explained.latest hlog (href ▸ hw) hitem

/-- What the users of a server can rely on. -/
structure NoLostUpdate (log : List Entry) (s : Shared) : Prop where
  /-- A request that is answered with status 201 is a write that returns a version. -/
  created : ∀ {request response}, .answered request response ∈ log → response.status = 201 →
    ∃ collection key ref, (Entry.answered request response).Writes collection key ref
  /-- A version that a write returns was not returned before. -/
  fresh : ∀ {w between e collection key ref collection' key' ref'}, Apart log w between e →
    w.Writes collection key ref → e.Writes collection' key' ref' → ref' ≠ ref
  /-- A write that is conditional on a version that an earlier write has returned succeeds only if
  that was a write of the same item, and if the item was neither written nor deleted since. -/
  latest : ∀ {w between e collection key ref collection' key'}, Apart log w between e →
    w.Writes collection' key' ref → e.Updates collection key ref →
    (collection' = collection ∧ key' = key) ∧ ∀ x ∈ between, ¬x.Touches collection key
  /-- Of the writes that are conditional on that version at most one succeeds. -/
  once : ∀ {w between e between' e' collection key collection' key' collection₀ key₀ ref},
    Apart log w (between ++ e :: between') e' → w.Writes collection₀ key₀ ref →
    e.Updates collection key ref → ¬e'.Updates collection' key' ref
  /-- A request to put an item where there is none succeeds only if there is none. -/
  absent : ∀ {locator request collection key}, request.method = .put →
    Server.segments? request.url.path = some [collection, key] →
    (request.headers.get? "If-None-Match").map Text.trim = some "*" →
    (s.server.handle locator request).1.status = 201 → s.server.item? collection key = none

/-- **No update is lost**, over the whole life of a server and whatever its users do in which order,
as long as it gives fewer than `2 ^ 64` versions. -/
theorem no_lost_update (h : History apiKey gzip log t) (hfew : versions log < 2 ^ 64) :
    NoLostUpdate log t := by
  have hcreated {request : Request} {response : Response} (hmem : .answered request response ∈ log)
      (hstatus : response.status = 201) :
      ∃ collection key ref, (Entry.answered request response).Writes collection key ref := by
    obtain ⟨before, after, hlog⟩ := List.append_of_mem hmem
    obtain ⟨s, action, -, hact⟩ := h.exists_act hlog
    obtain ⟨collection, key, -, hwrites, -⟩ := exists_of_created hact hstatus
    exact ⟨collection, key, _, hwrites⟩
  have hlatest {w e : Entry} {between : List Entry} {collection key ref collection' key' : String}
      (hapart : Apart log w between e) (hw : w.Writes collection' key' ref)
      (hupdates : e.Updates collection key ref) :
      (collection' = collection ∧ key' = key) ∧ ∀ x ∈ between, ¬x.Touches collection key := by
    obtain ⟨before, s, action, hsound, rfl, -⟩ := hapart.exists_act h hfew
    exact hsound.of_updates rfl hw hupdates
  constructor
  case created => exact hcreated
  case latest => exact hlatest
  case fresh =>
    intro w between e collection key ref collection' key' ref' hapart hw he heq
    obtain ⟨before, s, action, hsound, hact, hlater⟩ := hapart.exists_act h hfew
    exact hsound.fresh hact hlater he ⟨w, List.mem_append_cons_self, collection, key, heq ▸ hw⟩
  case once =>
    intro w between e between' e' collection key collection' key' collection₀ key₀ ref
      hapart hw he he'
    -- the first of the two updates is itself a write of the item, after the write of the version
    obtain ⟨⟨rfl, rfl⟩, huntouched⟩ := hlatest hapart hw he'
    obtain ⟨before, after, hlog⟩ := hapart
    obtain ⟨⟨rfl, rfl⟩, -⟩ := hlatest ⟨before, between' ++ e' :: after, by simpa using hlog⟩ hw he
    refine huntouched e (by simp) (.inl ?_)
    have hmem : e ∈ log := by simp [hlog]
    cases e with
    | answered request response =>
      obtain ⟨_, _, ref', hwrites⟩ := hcreated hmem he.2.2.2
      exact ⟨ref', he.1, he.2.1, hwrites.2.2⟩
    | _ => cases he
  case absent =>
    intro locator request collection key _ hsegments hstar hstatus
    obtain ⟨_, _, -, hsegments', -, hconditions⟩ :=
      (t.server.handled_handle locator request).of_created hstatus
    obtain ⟨rfl, rfl⟩ : collection = _ ∧ key = _ := by
      simpa only [hsegments, Option.some.injEq, List.cons.injEq, and_true] using hsegments'
    exact hconditions.ifNoneMatch hstar

/-- Two clients put an item on the condition that it is as a direct insert left it; the second of
them is refused. -/
theorem no_lost_update_of_two_clients :
    let s₀ : Shared := ⟨Server.new "k" false, []⟩
    let put : Request :=
      { id := "", method := .put
        url :=
          ⟨"https", some ⟨"", .domain "items.test", none⟩, .segments ["v0", "c", "k"], none, none⟩
        headers :=
          ⟨[("Authorization", s₀.server.authorization), ("If-Match", " \"0000000000000001\"")]⟩
        body := some "7".toUTF8 }
    let s₁ := (s₀.act (.beginInsert "c" "k" .null)).2
    let s₂ := (s₁.act (.finishInsert 0)).2
    let s₃ := (s₂.act (.request "" put)).2
    let s₄ := (s₃.act (.request "" put)).2
    (s₂.server.handle "" put).1.status = 201 ∧ (s₃.server.handle "" put).1.status = 409 ∧
      NoLostUpdate [.begun, .inserted "c" "k" "0000000000000001", (s₂.act (.request "" put)).1,
        (s₃.act (.request "" put)).1] s₄ := by
  intro s₀ put s₁ s₂ s₃ s₄
  have hinserted : (s₁.act (.finishInsert 0)).1 = .inserted "c" "k" "0000000000000001" := by
    have href : Server.refText 1 = "0000000000000001" := by decide +kernel
    exact congrArg (Entry.inserted "c" "k") href
  have hbegun : History "k" false [.begun] s₁ := History.start.act (.beginInsert "c" "k" .null)
  have hlog := ((hbegun.act (.finishInsert 0)).act (.request "" put)).act (.request "" put)
  rw [hinserted] at hlog
  refine ⟨by decide +kernel, by decide +kernel, no_lost_update hlog ?_⟩
  exact Nat.lt_of_le_of_lt List.countP_le_length (by decide)

end Shared

end ItemStore
