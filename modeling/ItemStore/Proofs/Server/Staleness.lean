import ItemStore.Proofs.Server.Transparency

/-!
# Stale conditions

A request can name the version that the item it addresses must have. If the item has another
version, or is not there, the condition is stale, and the request should change nothing. The routes
that write an item check this before they do so. The route that deletes an item does not look at the
conditions of a request.

## Main results

- `Server.stale_changes_nothing_iff`: a request with a stale condition changes the store if and only
  if it deletes an item; it then deletes the one that it addresses, and nothing else;
- `Server.stale_deletion_deletes`: such a deletion.

## Architecture

1. `Server.Reachable.ordered` is about the states that a server gets into.
2. `Server.MeetsConditions.not_isStale` is the check that both routes to a write make, whatever the
   spelling of the condition.
3. `Server.view_delete_of_absent`: to delete an item that is not there changes nothing.
-/

namespace ItemStore.Server

/-! ## States -/

/-- The states that a server gets into, by calls and by changes of the setting for compression. -/
inductive Reachable (apiKey : String) : Server → Prop where
  | new (gzip : Bool) : Reachable apiKey (new apiKey gzip)
  | withGzip {s : Server} (h : Reachable apiKey s) (enabled : Bool) : Reachable apiKey
      (s.withGzip enabled)
  | call {s : Server} (h : Reachable apiKey s) (c : Call) : Reachable apiKey (s.call c).2

variable {apiKey : String} {s : Server} {locator : String} {request : Request}
  {collection key : String}

theorem Reachable.ordered (h : Reachable apiKey s) : s.Ordered := by
  induction h with
  | new gzip => exact ordered_new apiKey gzip
  | withGzip h enabled ih => exact ih
  | call h c ih => exact (call_keeps ih c).1

/-! ## Conditions -/

/-- The request names a version that the item it addresses does not have, perhaps because there is
no such item. Of several conditions the first one counts. -/
def IsStale (s : Server) (request : Request) : Prop :=
  ∃ value, request.headers.get? "If-Match" = some value ∧
    (s.itemAt? request.url.path).map StoredItem.ref ≠ some (conditionRef value)

/-- The request is one to delete an item that is there. -/
structure Deletes (s : Server) (request : Request) : Prop where
  authorized : request.headers.get? "Authorization" = some s.authorization
  method_eq : request.method = .delete
  present : (s.itemAt? request.url.path).isSome

/-- A write that is granted is not stale. -/
theorem MeetsConditions.not_isStale (h : MeetsConditions request.headers (s.item? collection key))
    (hsegments : segments? request.url.path = some [collection, key]) : ¬s.IsStale request := by
  rintro ⟨value, hvalue, hstale⟩
  rw [itemAt?, hsegments] at hstale
  exact hstale (h.ifMatch value hvalue)

/-! ## Deletions -/

theorem route_of_delete (locator : String)
    (hauthorized : request.headers.get? "Authorization" = some s.authorization)
    (hmethod : request.method = .delete)
    (hsegments : segments? request.url.path = some [collection, key]) :
    s.route locator request = (⟨204, .empty, .empty⟩, s.delete collection key) := by
  rw [route, if_neg (not_not_intro hauthorized), hsegments, hmethod]

/-- To delete an item that is not there changes nothing. -/
theorem view_delete_of_absent (hordered : s.Ordered) (h : s.item? collection key = none) :
    (s.delete collection key).view = s.view := by
  have hitem : (s.delete collection key).item? = s.item? := by
    funext collection' key'
    rw [item?_delete hordered]
    split
    next hsame =>
      obtain ⟨rfl, rfl⟩ := hsame
      exact h.symm
    next => rfl
  rw [view, hitem, nextRef_delete]
  rfl

/-- What a deletion does. -/
theorem Deletes.effect (h : s.Deletes request) (hordered : s.Ordered) (locator : String) :
    ∃ collection key, segments? request.url.path = some [collection, key] ∧
    (s.item? collection key).isSome ∧
      (s.handle locator request).1.status = 204 ∧
      (s.handle locator request).2.view = s.view.change (.delete collection key) := by
  obtain ⟨item, hitem⟩ := Option.isSome_iff_exists.mp h.present
  obtain ⟨collection, key, hsegments, hitem⟩ := itemAt?_eq_some_iff.mp hitem
  have hroute := route_of_delete locator h.authorized h.method_eq hsegments
  refine ⟨collection, key, hsegments, Option.isSome_of_eq_some hitem, ?_, ?_⟩
  · rw [status_handle, hroute]
  · rw [handle_snd, hroute]
    exact view_delete hordered collection key

/-! ## Staleness -/

/-- A request that is stale and not a deletion leaves every item, its version and the counter as
they are. -/
theorem IsStale.view_eq (h : s.IsStale request) (hordered : s.Ordered) (hnot : ¬s.Deletes request)
    (locator : String) :
    (s.handle locator request).2.view = s.view := by
  by_cases hauthorized : request.headers.get? "Authorization" = some s.authorization
  · have hhandled := s.handled_handle locator request
    generalize (s.handle locator request).1 = response,
      (s.handle locator request).2 = s' at hhandled
    -- nothing was written, since a write needs its conditions to be met
    cases hhandled with
    | wrote _ _ segments_eq conditions => exact absurd h (conditions.not_isStale segments_eq)
    | @deleted collection key method_eq segments_eq =>
      have hat : s.itemAt? request.url.path = s.item? collection key := by rw [itemAt?, segments_eq]
      -- it asks for a deletion, so there is nothing to delete
      have habsent : s.item? collection key = none :=
        Option.not_isSome_iff_eq_none.mp fun hpresent =>
        hnot ⟨hauthorized, method_eq, hat ▸ hpresent⟩
      exact view_delete_of_absent hordered habsent
    | kept => rfl
  · rw [(unauthorized_handle hauthorized).2]

/-- What a request with a stale condition does to a store. -/
structure KeptIfStale (s : Server) (locator : String) (request : Request) : Prop where
  /-- It changes the store if and only if it deletes an item. -/
  unchanged_iff : (s.handle locator request).2.view = s.view ↔ ¬s.Deletes request
  /-- With any other method it leaves the whole server as it is. -/
  unchanged : request.method ≠ .delete → (s.handle locator request).2 = s
  /-- An item that it deletes is the one that it addresses, and nothing else changes. -/
  deletes : s.Deletes request → ∃ collection key, segments? request.url.path =
    some [collection, key] ∧
    (s.item? collection key).isSome ∧ (s.handle locator request).1.status = 204 ∧
    (s.handle locator request).2.view = s.view.change (.delete collection key)

/-- **A stale condition keeps a store from changing**, in every state that a server gets into and
whatever the request asks for, unless it asks to delete an item. -/
theorem stale_changes_nothing_iff (hreachable : Reachable apiKey s) (hstale : s.IsStale request)
    (locator : String) :
    KeptIfStale s locator request := by
  have hordered := hreachable.ordered
  constructor
  case unchanged_iff =>
    refine ⟨fun hview hdeletes => ?_, fun hnot => hstale.view_eq hordered hnot locator⟩
    obtain ⟨collection, key, -, hpresent, -, hdeleted⟩ := hdeletes.effect hordered locator
    -- the item is there in the one view, and not in the other
    have hitem : s.item? collection key =
        (s.view.change (.delete collection key)).item? collection key := by
      rw [← hdeleted, hview]
      rfl
    rw [hitem] at hpresent
    simp [VersionedMap.change] at hpresent
  case unchanged =>
    intro hmethod
    have hhandled := s.handled_handle locator request
    generalize (s.handle locator request).1 = response,
      (s.handle locator request).2 = s' at hhandled ⊢
    cases hhandled with
    | wrote _ _ segments_eq conditions => exact absurd hstale (conditions.not_isStale segments_eq)
    | deleted method_eq => exact absurd method_eq hmethod
    | kept => rfl
  case deletes => exact fun hdeletes => hdeletes.effect hordered locator

/-- A condition on a version that an item had before it was written again, between blanks and
without quotes. -/
theorem stale_changes_nothing_of_put :
    let s := (((new "k" false).call (.insert "c" "k" .null)).2.call (.insert "c" "k" (.ofNat 1))).2
    let request : Request :=
      { id := "", method := .put
        url :=
          ⟨"https", some ⟨"", .domain "items.test", none⟩, .segments ["v0", "c", "k"], none, none⟩
        headers := ⟨[("Authorization", s.authorization), ("if-match", " 0000000000000001 ")]⟩,
          body := some "2".toUTF8 }
    s.IsStale request ∧ ¬s.Deletes request ∧ (s.handle "" request).2.view = s.view := by
  intro s request
  have hreachable : Reachable "k" s := ((Reachable.new false).call _).call _
  have hstale : s.IsStale request := ⟨" 0000000000000001 ", by decide, by decide +kernel⟩
  have hnot : ¬s.Deletes request := fun h => nomatch h.method_eq
  exact ⟨hstale, hnot, (stale_changes_nothing_iff hreachable hstale "").unchanged_iff.mpr hnot⟩

/-- An item is deleted on a condition that names none of its versions. -/
theorem stale_deletion_deletes :
    let s := ((new "k" false).call (.insert "c" "k" (.ofNat 1))).2
    let request : Request :=
      { id := "", method := .delete
        url :=
          ⟨"https", some ⟨"", .domain "items.test", none⟩, .segments ["v0", "c", "k"], none, none⟩
        headers := ⟨[("Authorization", s.authorization), ("If-Match", "\"stale\"")]⟩, body := none }
    Reachable "k" s ∧ s.IsStale request ∧ s.item? "c" "k" = some ⟨.ofNat 1, "0000000000000001"⟩ ∧
      (s.handle "" request).1.status = 204 ∧ (s.handle "" request).2.item? "c" "k" = none := by
  intro s request
  exact ⟨(Reachable.new false).call _,
    ⟨"\"stale\"", by decide, by decide +kernel⟩, by decide +kernel, by decide +kernel,
    by decide +kernel⟩

end ItemStore.Server
