import ItemStore.Proofs.Server.History

/-!
# The server as a versioned map

What the users of a server see of its store is a map from addresses to values with versions. Most
requests do not change it; a request to write or to delete an item changes one entry, if the server
grants it. This module states that map and its steps without reference to the way in which a server
keeps its items, and shows that every life of a server is a run of it.

## Main results

- `VersionedMap.Step` is one step of the map: what a call may change, and what its caller sees of
  that;
- `Server.refines_versioned_map`: the calls to a server and their answers are a run of the map, in
  which each write gets a version of its own, and at any time a request to read an item shows its
  entry.

## Architecture

1. `VersionedMap.Grants` says which change a request leads to, from the request and the map alone.
2. `Server.effect_route` is about a single route: it makes the change that is granted and confirms
   it, or makes none.
3. `Server.step_call` carries that over to calls, and `Server.Life.run` to whole lives.
-/

namespace ItemStore

/-! ## Maps -/

/-- A map from addresses to values with versions, and the number of the next version. -/
structure VersionedMap where
  item? : String → String → Option StoredItem
  nextRef : UInt64

/-- A change of one entry. -/
inductive Change where
  | write (collection key : String) (value : Json)
  | delete (collection key : String)

namespace VersionedMap

/-- The map without entries. -/
def empty : VersionedMap := ⟨fun _ _ => none, 1⟩

/-- The version of the next write. -/
def freshRef (m : VersionedMap) : String :=
  Server.refText m.nextRef

/-- The map after a change. A write takes the next version. -/
def change (m : VersionedMap) : Change → VersionedMap
  | .write collection key value =>
    ⟨fun collection' key' =>
      if collection = collection' ∧ key = key' then some ⟨value, m.freshRef⟩
      else m.item? collection' key', m.nextRef + 1⟩
  | .delete collection key =>
    ⟨fun collection' key' => if collection = collection' ∧ key = key' then none
      else m.item? collection' key', m.nextRef⟩

/-- The change that a request leads to, if it may make changes at all. -/
inductive Grants (m : VersionedMap) (request : Request) : Change → Prop where
  /-- The body is a value, which becomes the value of the item. -/
  | put {collection key : String} {body : ByteArray} {value : Json}
      (method_eq : request.method = .put)
      (segments_eq : Server.segments? request.url.path = some [collection, key])
      (body_eq : request.body = some body)
      (value_eq : Json.ofBytes? body = some value)
      (conditions : Server.MeetsConditions request.headers (m.item? collection key)) :
      Grants m request (.write collection key value)
  /-- The body is a document, which can be applied to the value of the item. -/
  | patch {collection key : String} {body : ByteArray} {doc : PatchDocument} {item : StoredItem}
      {value : Json} (method_eq : request.method = .patch)
      (segments_eq : Server.segments? request.url.path = some [collection, key])
      (body_eq : request.body = some body)
      (doc_eq : PatchDocument.ofBytes body = .ok doc) (item_eq : m.item? collection key = some item)
      (conditions : Server.MeetsConditions request.headers (some item))
      (value_eq : PatchDocument.apply doc item.value = .ok value) :
      Grants m request (.write collection key value)
  /-- The item is deleted, if there is one. -/
  | delete {collection key : String} (method_eq : request.method = .delete)
      (segments_eq : Server.segments? request.url.path = some [collection, key]) :
      Grants m request (.delete collection key)

section
variable (m : VersionedMap) (change : Change) {request : Request} {collection key : String}

theorem grants_put_iff (hmethod : request.method = .put)
    (hsegments : Server.segments? request.url.path = some [collection, key]) :
    m.Grants request change ↔ ∃ body value, request.body = some body ∧
    Json.ofBytes? body = some value ∧
      Server.MeetsConditions request.headers (m.item? collection key) ∧
      change = .write collection key value := by
  constructor
  · intro h
    cases h with
    | put _ segments_eq body_eq value_eq conditions =>
      cases hsegments.symm.trans segments_eq
      exact ⟨_, _, body_eq, value_eq, conditions, rfl⟩
    | patch method_eq => cases hmethod.symm.trans method_eq
    | delete method_eq => cases hmethod.symm.trans method_eq
  · rintro ⟨body, value, hbody, hvalue, hconditions, rfl⟩
    exact .put hmethod hsegments hbody hvalue hconditions

theorem grants_patch_iff (hmethod : request.method = .patch)
    (hsegments : Server.segments? request.url.path = some [collection, key]) :
    m.Grants request change ↔ ∃ body doc item value, request.body = some body ∧
    PatchDocument.ofBytes body = .ok doc ∧
      m.item? collection key = some item ∧ Server.MeetsConditions request.headers (some item) ∧
      PatchDocument.apply doc item.value = .ok value ∧ change = .write collection key value := by
  constructor
  · intro h
    cases h with
    | put method_eq => cases hmethod.symm.trans method_eq
    | patch _ segments_eq body_eq doc_eq item_eq conditions value_eq =>
      cases hsegments.symm.trans segments_eq
      exact ⟨_, _, _, _, body_eq, doc_eq, item_eq, conditions, value_eq, rfl⟩
    | delete method_eq => cases hmethod.symm.trans method_eq
  · rintro ⟨body, doc, item, value, hbody, hdoc, hitem, hconditions, hvalue, rfl⟩
    exact .patch hmethod hsegments hbody hdoc hitem hconditions hvalue

/-- Only requests to put, patch or delete an item are granted changes. -/
theorem Grants.asks {m : VersionedMap} {change : Change} (h : m.Grants request change) :
    (request.method = .put ∨ request.method = .patch ∨ request.method = .delete) ∧
      ∃ collection key, Server.segments? request.url.path = some [collection, key] := by
  cases h with
  | put method_eq segments_eq => exact ⟨.inl method_eq, _, _, segments_eq⟩
  | patch method_eq segments_eq => exact ⟨.inr (.inl method_eq), _, _, segments_eq⟩
  | delete method_eq segments_eq => exact ⟨.inr (.inr method_eq), _, _, segments_eq⟩

end

/-- The answer confirms a change. -/
def Confirms (m : VersionedMap) (response : Response) : Change → Prop
  | .write _ _ _ => response.status = 201 ∧ response.etagRef? = some m.freshRef
  | .delete _ _ => response.status = 204

/-- The answer shows an entry of the map. -/
def Shows (response : Response) : Option StoredItem → Prop
  | some item => ∃ r, response.decompressed = .ok r ∧ r.status = 200 ∧
      r.header? "ETag" = some (Server.entityTag item.ref) ∧ r.body = item.value.compact.toUTF8
  | none =>
    ∃ r explanation, response.decompressed = .ok r ∧ r.status = 404 ∧
      r.body = explanation.compact.toUTF8 ∧
      Json.get? "code" explanation = some (.str "items_not_found")

end VersionedMap

/-! ## Calls -/

namespace Server

/-- What is done with a server. -/
inductive Call where
  /-- An item is inserted directly. -/
  | insert (collection key : String) (value : Json)
  | request (locator : String) (request : Request)

/-- What is seen of it. -/
inductive Seen where
  | inserted (ref : String)
  | answered (response : Response)

/-- Carries out a call. -/
def call (s : Server) : Call → Seen × Server
  | .insert collection key value =>
    let (s', ref) := s.write collection key value; (.inserted ref, s')
  | .request locator request =>
    let (response, s') := s.handle locator request; (.answered response, s')

/-- The calls to a new server with what was seen of them, and the states that they lead to. -/
inductive Life (apiKey : String) (gzip : Bool) : List (Call × Seen) → Server → Prop where
  | start : Life apiKey gzip [] (new apiKey gzip)
  | call {log : List (Call × Seen)} {s : Server} (h : Life apiKey gzip log s) (c : Call) :
      Life apiKey gzip (log ++ [(c, (s.call c).1)]) (s.call c).2

/-- The version that was given, if one was. -/
def Seen.ref? : Seen → Option String
  | .inserted ref => some ref
  | .answered response => if response.status = 201 then response.etagRef? else none

/-- The versions that were given, in order. -/
def given (log : List (Call × Seen)) : List String :=
  log.filterMap fun entry => entry.2.ref?

/-- The store of a server as a map. -/
def view (s : Server) : VersionedMap := ⟨s.item?, s.nextRef⟩

end Server

namespace VersionedMap

open Server (Call Seen)

/-- One step of a map whose server accepts an authorization. -/
inductive Step (authorization : String) (m : VersionedMap) : Call → Seen → VersionedMap → Prop where
  | inserted (collection key : String) (value : Json) :
      Step authorization m (.insert collection key value) (.inserted m.freshRef)
        (m.change (.write collection key value))
  /-- A request is granted a change. -/
  | changed {locator : String} {request : Request} {response : Response} {change : Change}
      (authorized : request.headers.get? "Authorization" = some authorization)
      (granted : m.Grants request change) (confirmed : m.Confirms response change) :
      Step authorization m (.request locator request) (.answered response) (m.change change)
  /-- A request is granted no change. -/
  | kept {locator : String} {request : Request} {response : Response}
      (authorized : request.headers.get? "Authorization" = some authorization)
      (refused : ∀ change, ¬m.Grants request change)
      (status_mem : response.status ∈ [200, 400, 404, 405, 409]) :
      Step authorization m (.request locator request) (.answered response) m
  | unauthorized {locator : String} {request : Request} {response : Response}
      (unauthorized : request.headers.get? "Authorization" ≠ some authorization)
      (status_eq : response.status = 401) :
      Step authorization m (.request locator request) (.answered response) m

/-- The steps that lead from the empty map to another one. -/
inductive Run (authorization : String) : List (Call × Seen) → VersionedMap → Prop where
  | start : Run authorization [] empty
  | step {log : List (Call × Seen)} {m m' : VersionedMap} {c : Call} {seen : Seen}
      (h : Run authorization log m)
      (hstep : Step authorization m c seen m') : Run authorization (log ++ [(c, seen)]) m'

end VersionedMap

namespace Server

variable {s : Server} {locator : String} {request : Request} {collection key : String}

/-! ## Routes -/

theorem view_write (s : Server) (collection key : String) (value : Json) :
    (s.write collection key value).1.view = s.view.change (.write collection key value) := by
  have hitem : (s.write collection key value).1.item? =
      (s.view.change (.write collection key value)).item? :=
    funext₂ fun collection' key' => item?_write s collection key value collection' key'
  exact congrArg (VersionedMap.mk · (s.nextRef + 1)) hitem

theorem view_delete (h : s.Ordered) (collection key : String) :
    (s.delete collection key).view = s.view.change (.delete collection key) := by
  have hitem : (s.delete collection key).item? = (s.view.change (.delete collection key)).item? :=
    funext₂ fun collection' key' => item?_delete h collection key collection' key'
  rw [view, nextRef_delete, hitem]
  rfl

/-- What an authorized request does: the change that it is granted, or none. -/
inductive Effect (s : Server) (request : Request) : Response → Server → Prop where
  | changed {response : Response} {s' : Server} {change : Change}
      (granted : s.view.Grants request change)
      (confirmed : s.view.Confirms response change) (view_eq : s'.view = s.view.change change) :
      Effect s request response s'
  | kept {response : Response} (refused : ∀ change, ¬s.view.Grants request change)
      (status_mem : response.status ∈ [200, 400, 404, 405, 409]) : Effect s request response s

/-- The effect of a request is seen in the status and the entity tag of its answer. -/
theorem Effect.congr {s' : Server} {r r' : Response} (h : Effect s request r s')
    (hstatus : r'.status = r.status) (htag : r'.header? "ETag" = r.header? "ETag") :
    Effect s request r' s' := by
  cases h with
  | @changed _ change granted confirmed view_eq =>
    refine .changed granted ?_ view_eq
    cases change with
    | write => exact ⟨hstatus.trans confirmed.1, by rw [Response.etagRef?, htag]; exact confirmed.2⟩
    | delete => exact hstatus.trans confirmed
  | kept refused status_mem => exact .kept refused (hstatus ▸ status_mem)

theorem etagRef?_written (collection key : String) (n : UInt64) :
    (written collection key (refText n)).etagRef? = some (refText n) := by
  have hname : Text.sameName "Location" "ETag" = false := by decide
  exact etagRef?_of_entityTag (by simp [written, Response.header?, Response.withHeader, hname])

private theorem effect_store {value : Json}
    (h : s.view.Grants request (.write collection key value)) :
    Effect s request (s.store collection key value).1 (s.store collection key value).2 :=
  .changed h ⟨rfl, etagRef?_written ..⟩ (view_write s collection key value)

private theorem effect_of_status {response : Response} (status : Nat) (h : response.status = status)
    (hmem : status ∈ [200, 400, 404, 405, 409])
    (hrefused : ∀ change, ¬s.view.Grants request change) :
    Effect s request response s :=
  .kept hrefused (h ▸ hmem)

theorem effect_put (hmethod : request.method = .put)
    (hsegments : segments? request.url.path = some [collection, key]) :
    Effect s request (s.put locator request collection key).1
      (s.put locator request collection key).2 := by
  have hgrants (change : Change) := s.view.grants_put_iff change hmethod hsegments
  unfold put
  split
  next hbody => exact effect_of_status 400 rfl (by decide) fun change => by simp [hgrants, hbody]
  next body hbody =>
    split
    next hvalue =>
      exact effect_of_status 400 rfl (by decide) fun change => by simp [hgrants, hbody, hvalue]
    next value hvalue =>
      split
      next refusal hrefusal =>
        have hunmet : ¬MeetsConditions request.headers (s.view.item? collection key) :=
          not_meetsConditions hrefusal
        exact effect_of_status 409 (status_of_precondition hrefusal) (by decide) fun change => by
          simp [hgrants, hunmet]
      next hnone =>
        exact effect_store (.put hmethod hsegments hbody hvalue (precondition_eq_none_iff.mp hnone))

theorem effect_patch (hmethod : request.method = .patch)
    (hsegments : segments? request.url.path = some [collection, key]) :
    Effect s request (s.patch locator request collection key).1
      (s.patch locator request collection key).2 := by
  have hgrants (change : Change) := s.view.grants_patch_iff change hmethod hsegments
  unfold patch
  split
  next hbody => exact effect_of_status 400 rfl (by decide) fun change => by simp [hgrants, hbody]
  next body hbody =>
    split
    next hdoc =>
      exact effect_of_status 400 rfl (by decide) fun change => by simp [hgrants, hbody, hdoc]
    next doc hdoc =>
      split
      next hitem =>
        have habsent : s.view.item? collection key = none := hitem
        exact effect_of_status 404 rfl (by decide) fun change => by simp [hgrants, habsent]
      next item hitem =>
        have hpresent : s.view.item? collection key = some item := hitem
        split
        next refusal hrefusal =>
          have hunmet := not_meetsConditions hrefusal
          exact effect_of_status 409 (status_of_precondition hrefusal) (by decide) fun change => by
            simp [hgrants, hpresent, hunmet]
        next hnone =>
          have hmet := precondition_eq_none_iff.mp hnone
          split
          next f happly =>
            exact effect_of_status 409 rfl (by decide) fun change => by
              simp [hgrants, hbody, hdoc, hpresent, happly]
          next value happly =>
            exact effect_store (.patch hmethod hsegments hbody hdoc hitem hmet happly)

/-- **What an authorized request does**: it makes the change that it is granted and confirms it, or
it makes none. -/
theorem effect_route (hordered : s.Ordered)
    (hauthorized : request.headers.get? "Authorization" = some s.authorization) :
    Effect s request (s.route locator request).1 (s.route locator request).2 := by
  rw [route, if_neg (not_not_intro hauthorized)]
  split
  next hsegments =>
    exact effect_of_status 404 rfl (by decide) fun change h => by
      obtain ⟨-, _, _, hsegments'⟩ := h.asks
      cases hsegments.symm.trans hsegments'
  next segments hsegments =>
    -- a request that changes nothing has another method, or does not address an item
    have hrefused (hother : (∀ collection key, segments ≠ [collection, key]) ∨
        ¬(request.method = .put ∨ request.method = .patch ∨ request.method = .delete))
        (change : Change) :
        ¬s.view.Grants request change := fun h => by
      obtain ⟨hmethod, collection, key, hsegments'⟩ := h.asks
      rcases hother with hother | hother
      · exact hother collection key (Option.some.inj (hsegments.symm.trans hsegments'))
      · exact hother hmethod
    split
    next collection hmethod =>
      have hkept := hrefused (.inr (by simp [hmethod]))
      rcases status_list s locator request collection with h | h <;>
        exact effect_of_status _ h (by decide) hkept
    next collection key hmethod =>
      have hkept := hrefused (.inr (by simp [hmethod]))
      rcases status_read s locator collection key with h | h <;>
        exact effect_of_status _ h (by decide) hkept
    next collection key hmethod => exact effect_put hmethod hsegments
    next collection key hmethod => exact effect_patch hmethod hsegments
    next collection key hmethod =>
      exact .changed (.delete hmethod hsegments) rfl (view_delete hordered collection key)
    next => exact effect_of_status 405 rfl (by decide) (hrefused (.inl (by simp)))
    next _ hput hpatch hdelete =>
      exact effect_of_status 405 rfl (by decide)
        (hrefused (.inr fun h => h.elim hput fun h => h.elim hpatch hdelete))
    next _ hpair _ _ _ _ _ => exact effect_of_status 404 rfl (by decide) (hrefused (.inl hpair))

theorem route_of_unauthorized (h : request.headers.get? "Authorization" ≠ some s.authorization) :
    s.route locator request = (.ofJson 401 (.obj []), s) := by
  rw [route, if_pos h]

/-- A request without the authorization is refused, and changes nothing. -/
theorem unauthorized_handle (h : request.headers.get? "Authorization" ≠ some s.authorization) :
    (s.handle locator request).1.status = 401 ∧ (s.handle locator request).2 = s := by
  rw [status_handle, handle_snd, route_of_unauthorized h]
  exact ⟨rfl, rfl⟩

/-! ## Calls and lives -/

theorem Effect.step {response : Response} {s' : Server} (h : Effect s request response s')
    (hauthorized : request.headers.get? "Authorization" = some s.authorization) :
    VersionedMap.Step s.authorization s.view (.request locator request) (.answered response)
      s'.view := by
  cases h with
  | changed granted confirmed view_eq => exact view_eq ▸ .changed hauthorized granted confirmed
  | kept refused status_mem => exact .kept hauthorized refused status_mem

/-- Each call is a step of the map. -/
theorem step_call (hordered : s.Ordered) (c : Call) :
    VersionedMap.Step s.authorization s.view c (s.call c).1 (s.call c).2.view := by
  cases c with
  | insert collection key value =>
    have hview := view_write s collection key value
    exact hview ▸ .inserted collection key value
  | request locator request =>
    change VersionedMap.Step _ _ _ (.answered (s.handle locator request).1)
      (s.handle locator request).2.view
    by_cases hauthorized : request.headers.get? "Authorization" = some s.authorization
    · have heffect : Effect s request (s.route locator request).1 (s.route locator request).2 :=
        effect_route hordered hauthorized
      exact (heffect.congr (s.status_handle locator request)
        (s.entityTag_handle locator request)).step hauthorized
    · have hrefused : (s.handle locator request).1.status = 401 ∧
          (s.handle locator request).2 = s :=
        unauthorized_handle hauthorized
      obtain ⟨hstatus, hkept⟩ := hrefused
      rw [hkept]
      exact .unauthorized hauthorized hstatus

variable {apiKey : String} {gzip : Bool} {log : List (Call × Seen)}

/-- A call keeps collections in order and the server's authorization. -/
theorem call_keeps (hordered : s.Ordered) (c : Call) :
    (s.call c).2.Ordered ∧ (s.call c).2.authorization = s.authorization := by
  cases c with
  | insert collection key value => exact ⟨hordered.write collection key value, rfl⟩
  | request locator request =>
    have hhandled := s.handled_handle locator request
    exact ⟨hhandled.ordered hordered, hhandled.authorization_eq⟩

theorem Life.keeps (h : Life apiKey gzip log s) :
    s.Ordered ∧ s.authorization = (Credentials.apiKey apiKey).authorization := by
  induction h with
  | start => exact ⟨ordered_new apiKey gzip, rfl⟩
  | call h c ih =>
    obtain ⟨hordered, hauthorization⟩ := call_keeps ih.1 c
    exact ⟨hordered, hauthorization.trans ih.2⟩

/-- The life of a server is a run of the map. -/
theorem Life.run (h : Life apiKey gzip log s) :
    VersionedMap.Run (Credentials.apiKey apiKey).authorization log s.view := by
  induction h with
  | start => exact .start
  | @call log s h c ih =>
    obtain ⟨hordered, hauthorization⟩ := h.keeps
    exact ih.step (hauthorization ▸ step_call hordered c)

end Server

/-! ## Versions -/

namespace VersionedMap

open Server (Call Seen given)

variable {authorization : String} {log : List (Call × Seen)} {m m' : VersionedMap} {c : Call}
  {seen : Seen}

/-- A step gives the next version to a write, and otherwise none. -/
theorem Step.ref? (h : Step authorization m c seen m') :
    (seen.ref? = some m.freshRef ∧ m'.nextRef = m.nextRef + 1) ∨
    (seen.ref? = none ∧ m'.nextRef = m.nextRef) := by
  cases h with
  | inserted => exact .inl ⟨rfl, rfl⟩
  | @changed _ _ response change _ _ confirmed =>
    cases change with
    | write => exact .inl ⟨by rw [Seen.ref?, if_pos confirmed.1, confirmed.2], rfl⟩
    | delete =>
      have hstatus : response.status = 204 := confirmed
      exact .inr ⟨by rw [Seen.ref?, hstatus]; rfl, rfl⟩
  | @kept _ _ response _ _ status_mem =>
    have hstatus : response.status ≠ 201 := by
      intro h
      rw [h] at status_mem
      exact absurd status_mem (by decide)
    exact .inr ⟨if_neg hstatus, rfl⟩
  | unauthorized _ status_eq => exact .inr ⟨by rw [Seen.ref?, status_eq]; rfl, rfl⟩

/-- The versions that were given are the texts of the first numbers, and the next number follows
them. -/
theorem Run.numbered (h : Run authorization log m) :
    m.nextRef = UInt64.ofNat ((given log).length + 1) ∧
    ∀ ref ∈ given log, Shared.Issued (given log).length ref := by
  induction h with
  | start => exact ⟨rfl, nofun⟩
  | @step log m m' c seen h hstep ih =>
    obtain ⟨hnext, hissued⟩ := ih
    have hgiven : given (log ++ [(c, seen)]) = given log ++ seen.ref?.toList := by
      rw [given, List.filterMap_append]
      cases hseen : seen.ref? <;> simp [given, hseen]
    rcases hstep.ref? with ⟨href, hnext'⟩ | ⟨href, hnext'⟩
    · rw [hgiven, href, Option.toList_some, List.length_append, List.length_singleton,
        hnext', hnext]
      refine ⟨(UInt64.ofNat_add _ 1).symm, fun ref hmem => ?_⟩
      rcases List.mem_append.mp hmem with hmem | hmem
      · exact (hissued ref hmem).mono (Nat.le_succ _)
      · rw [List.mem_singleton.mp hmem, freshRef, hnext]
        exact Shared.issued_last _
    · rw [hgiven, href, Option.toList_none, List.append_nil, hnext']
      exact ⟨hnext, hissued⟩

/-- Before the counter starts again, the version of the next write was never given. -/
theorem Run.fresh (h : Run authorization log m) (hfew : (given log).length + 1 < 2 ^ 64) :
    m.freshRef ∉ given log := by
  obtain ⟨hnext, hissued⟩ := h.numbered
  intro hmem
  exact (hissued _ hmem).ne_next hfew (by rw [freshRef, hnext])

end VersionedMap

/-! ## Reading -/

namespace Server

variable {s : Server} {locator : String} {request : Request} {collection key : String}

theorem plain_read (s : Server) (locator collection key : String) :
    (s.read locator collection key).Plain := by
  unfold read
  split
  next item _ =>
    exact ((Response.plain_ofJson 200 item.value).withHeader (by decide) (by decide) _).withHeader
      (by decide) (by decide) _
  next => exact Response.plain_ofJson ..

/-- The body of an answer that explains an error gives its code. -/
theorem exists_explanation (locator : String) (status : Nat) (code message : String) :
    ∃ explanation, (errorResponse locator status code message).body = explanation.compact.toUTF8 ∧
      Json.get? "code" explanation = some (.str code) :=
  ⟨.ofPairs [("code", .str code), ("message", .str message), ("locator", .str locator)], rfl,
    by simp [Json.get?, Json.ofPairs, Assoc.get?_ofPairs]⟩

/-- An authorized request to read an item shows its entry. -/
theorem shows_of_read (hauthorized : request.headers.get? "Authorization" = some s.authorization)
    (hmethod : request.method = .get)
    (hsegments : segments? request.url.path = some [collection, key]) :
    VersionedMap.Shows (s.handle locator request).1 (s.item? collection key) := by
  have hroute : s.route locator request = (s.read locator collection key, s) := by
    rw [route, if_neg (not_not_intro hauthorized), hsegments, hmethod]
  have hunpack : (s.handle locator request).1.decompressed = .ok (s.answer locator request) :=
    decompressed_handle (hroute ▸ plain_read s locator collection key)
  have hstatus : (s.answer locator request).status = (s.read locator collection key).status := by
    rw [status_answer, hroute]
  have hbody : (s.answer locator request).body = (s.read locator collection key).body := by
    rw [body_answer, hroute]
  have htag : (s.answer locator request).header? "ETag" =
      (s.read locator collection key).header? "ETag" := by
    rw [header?_answer (by decide), hroute]
  cases hitem : s.item? collection key with
  | some item =>
    have hread : s.read locator collection key = ((Response.ofJson 200 item.value).withHeader "ETag"
        (entityTag item.ref)).withHeader "Content-Location"
        (locationOf collection key item.ref) := by
      rw [read, hitem]
    refine ⟨_, hunpack, ?_, ?_, ?_⟩
    · rw [hstatus, hread]; rfl
    · have hname : Text.sameName "Content-Location" "ETag" = false := by decide
      rw [htag, hread]
      simp [Response.header?, Response.withHeader, hname]
    · rw [hbody, hread]; rfl
  | none =>
    have hread : s.read locator collection key = notFound locator collection key := by
      rw [read, hitem]
    obtain ⟨explanation, hexplains, hcode⟩ := exists_explanation locator 404 "items_not_found"
      ("the item at " ++ collection ++ "/" ++ key ++ " does not exist")
    refine ⟨_, explanation, hunpack, ?_, ?_, hcode⟩
    · rw [hstatus, hread]; rfl
    · rw [hbody, hread]; exact hexplains

/-- What the users of a server see is a versioned map. -/
structure Refines (apiKey : String) (log : List (Call × Seen)) (s : Server) : Prop where
  /-- The calls and what was seen of them are a run of the map that the store is now. -/
  run : VersionedMap.Run (Credentials.apiKey apiKey).authorization log s.view
  /-- The version of the next write has not been given yet, unless the counter has started again. -/
  fresh : (given log).length + 1 < 2 ^ 64 → s.view.freshRef ∉ given log
  /-- An authorized request to read an item shows its entry. -/
  read : ∀ {locator request collection key},
    request.headers.get? "Authorization" = some (Credentials.apiKey apiKey).authorization →
      request.method = .get →
    segments? request.url.path = some [collection, key] →
    VersionedMap.Shows (s.handle locator request).1 (s.view.item? collection key)
  /-- A request without the authorization is refused, and changes nothing. -/
  unauthorized : ∀ {locator request},
    request.headers.get? "Authorization" ≠ some (Credentials.apiKey apiKey).authorization →
    (s.handle locator request).1.status = 401 ∧ (s.handle locator request).2 = s

/-- **The server is a versioned map**, over its whole life and whatever calls are made. -/
theorem refines_versioned_map {apiKey : String} {gzip : Bool} {log : List (Call × Seen)}
    {s : Server} (h : Life apiKey gzip log s) : Refines apiKey log s := by
  obtain ⟨-, hauthorization⟩ := h.keeps
  exact
    { run := h.run
      fresh := h.run.fresh
      read := fun hauthorized hmethod hsegments =>
        shows_of_read (hauthorization ▸ hauthorized) hmethod hsegments
      unauthorized := fun hunauthorized => unauthorized_handle (hauthorization ▸ hunauthorized) }

/-- An item is inserted and patched, and then deleted by somebody without the authorization and by
somebody with it. -/
theorem refines_versioned_map_of_patch_and_delete :
    let s₀ := new "k" true
    let url : Url :=
      ⟨"https", some ⟨"", .domain "items.test", none⟩, .segments ["v0", "c", "k"], none, none⟩
    let headers : Headers := ⟨[("Authorization", s₀.authorization)]⟩
    let insert : Call := .insert "c" "k" (.ofPairs [("n", .ofNat 1)])
    let patch : Call := .request ""
      { id := "", method := .patch, url, headers,
        body := some "[\x7b\"op\":\"inc\",\"path\":\"/n\"\x7d]".toUTF8 }
    let intrude : Call :=
      .request "" { id := "", method := .delete, url, headers := .empty, body := none }
    let delete : Call := .request "" { id := "", method := .delete, url, headers, body := none }
    let s₁ := (s₀.call insert).2
    let s₂ := (s₁.call patch).2
    let s₃ := (s₂.call intrude).2
    s₃.item? "c" "k" = some ⟨.ofPairs [("n", .ofNat 2)], "0000000000000002"⟩ ∧
    (s₃.call delete).2.item? "c" "k" = none ∧
      Refines "k" [(insert, (s₀.call insert).1), (patch, (s₁.call patch).1),
        (intrude, (s₂.call intrude).1), (delete, (s₃.call delete).1)] (s₃.call delete).2 := by
  intro s₀ url headers insert patch intrude delete s₁ s₂ s₃
  have hstart : Life "k" true [] s₀ := .start
  have hlife := (((hstart.call insert).call patch).call intrude).call delete
  exact ⟨by decide +kernel, by decide +kernel, refines_versioned_map hlife⟩

end Server

end ItemStore
