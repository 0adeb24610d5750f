import ItemStore.Proofs.Message.Compression
import ItemStore.Proofs.Server.Store
import ItemStore.Proofs.Server.Version

/-!
# What a request does

Later modules never unfold the routes of a server. They use `Server.handled_handle`, which says all
that a request can do to a store, and how its answer tells: an answer with status 201 has written an
item and gives its version, one with status 204 has deleted an item, and after any other the store
is as it was.
-/

namespace ItemStore.Server

/-! ## Conditions -/

/-- What the conditions of a request ask of the current item. -/
structure MeetsConditions (headers : Headers) (current : Option StoredItem) : Prop where
  ifMatch : ∀ value, headers.get? "If-Match" = some value →
    current.map StoredItem.ref = some (conditionRef value)
  ifNoneMatch : (headers.get? "If-None-Match").map Text.trim = some "*" → current = none

private theorem of_ite_eq_none {α : Type} {p q : Prop} [Decidable p] [Decidable q] {a b : α}
    (h : (if p then some a else if q then some b else none) = none) : ¬p ∧ ¬q := by
  by_cases hp : p <;> by_cases hq : q <;> simp_all

private theorem of_ite_eq_some {α : Type} {p q : Prop} [Decidable p] [Decidable q] {a b c : α}
    (h : (if p then some a else if q then some b else none) = some c) : c = a ∨ c = b := by
  by_cases hp : p <;> by_cases hq : q <;> simp_all

theorem precondition_eq_none_iff {locator : String} {headers : Headers}
    {current : Option StoredItem} :
    precondition locator headers current = none ↔ MeetsConditions headers current := by
  unfold precondition
  constructor
  · intro h
    obtain ⟨hfresh, hfree⟩ := of_ite_eq_none h
    constructor
    · intro value hvalue
      rw [hvalue] at hfresh
      exact Decidable.byContradiction fun hstale => hfresh (bne_iff_ne.mpr hstale)
    · intro hstar
      exact Option.not_isSome_iff_eq_none.mp fun hpresent => hfree ⟨hstar, hpresent⟩
  · intro ⟨hmatch, hnoneMatch⟩
    cases hvalue : headers.get? "If-Match" with
    | none => simpa using hnoneMatch
    | some value => simpa [hmatch value hvalue] using hnoneMatch

theorem not_meetsConditions {locator : String} {headers : Headers} {current : Option StoredItem}
    {refusal : Response} (h : precondition locator headers current = some refusal) :
    ¬MeetsConditions headers current := by
  rw [← precondition_eq_none_iff, h]
  exact Option.some_ne_none refusal

/-- A request whose conditions are not met is refused with status 409. -/
theorem refusal_of_precondition {locator : String} {headers : Headers} {current : Option StoredItem}
    {refusal : Response} (h : precondition locator headers current = some refusal) :
    ∃ code message, refusal = errorResponse locator 409 code message := by
  rcases of_ite_eq_some h with rfl | rfl
  · exact ⟨_, _, rfl⟩
  · exact ⟨_, _, rfl⟩

theorem status_of_precondition {locator : String} {headers : Headers} {current : Option StoredItem}
    {refusal : Response} (h : precondition locator headers current = some refusal) :
    refusal.status = 409 := by
  obtain ⟨code, message, rfl⟩ := refusal_of_precondition h
  rfl

/-! ## Effects -/

/-- What answering a request does to the store, and what the answer says of it. -/
inductive Handled (s : Server) (request : Request) : Response → Server → Prop where
  /-- The item that the request addresses is written, and the answer gives its version. -/
  | wrote {response : Response} {collection key : String} (value : Json)
      (method_eq : request.method = .put ∨ request.method = .patch)
      (segments_eq : segments? request.url.path = some [collection, key])
      (conditions : MeetsConditions request.headers (s.item? collection key))
      (status_eq : response.status = 201)
      (tag_eq : response.header? "ETag" = some (entityTag (refText s.nextRef))) :
      Handled s request response (s.write collection key value).1
  /-- The item that the request addresses is deleted, if there is one. -/
  | deleted {response : Response} {collection key : String} (method_eq : request.method = .delete)
      (segments_eq : segments? request.url.path = some [collection, key])
      (status_eq : response.status = 204) :
      Handled s request response (s.delete collection key)
  /-- The store stays as it is. -/
  | kept {response : Response} (not_created : response.status ≠ 201)
      (not_deleted : response.status ≠ 204) :
      Handled s request response s

/-- The effect of a request is seen in the status and the entity tag of its answer. -/
theorem Handled.congr {s s' : Server} {request : Request} {r r' : Response}
    (h : Handled s request r s') (hstatus : r'.status = r.status)
    (htag : r'.header? "ETag" = r.header? "ETag") : Handled s request r' s' := by
  cases h with
  | wrote value method_eq segments_eq conditions status_eq tag_eq =>
    exact .wrote value method_eq segments_eq conditions (hstatus.trans status_eq)
      (htag.trans tag_eq)
  | deleted method_eq segments_eq status_eq =>
    exact .deleted method_eq segments_eq (hstatus.trans status_eq)
  | kept not_created not_deleted => exact .kept (hstatus ▸ not_created) (hstatus ▸ not_deleted)

/-- An answer with status 201 tells of a write whose conditions were met. -/
theorem Handled.of_created {s s' : Server} {request : Request} {response : Response}
    (h : Handled s request response s') (hstatus : response.status = 201) :
    ∃ collection key, (request.method = .put ∨ request.method = .patch) ∧
      segments? request.url.path = some [collection, key] ∧
      response.etagRef? = some (refText s.nextRef) ∧
      MeetsConditions request.headers (s.item? collection key) := by
  cases h with
  | @wrote collection key value method_eq segments_eq conditions status_eq tag_eq =>
    exact ⟨collection, key, method_eq, segments_eq, etagRef?_of_entityTag tag_eq, conditions⟩
  | deleted _ _ status_eq =>
    rw [status_eq] at hstatus
    cases hstatus
  | kept not_created _ => exact absurd hstatus not_created

/-- Whatever a request does, collections stay in order. -/
theorem Handled.ordered {s s' : Server} {request : Request} {response : Response}
    (h : Handled s request response s') (hordered : s.Ordered) : s'.Ordered := by
  cases h with
  | wrote value => exact hordered.write _ _ value
  | deleted => exact hordered.delete _ _
  | kept => exact hordered

/-- Whatever a request does, the server accepts the same credentials. -/
theorem Handled.authorization_eq {s s' : Server} {request : Request} {response : Response}
    (h : Handled s request response s') : s'.authorization = s.authorization := by
  cases h with
  | wrote value => rfl
  | deleted => exact authorization_delete ..
  | kept => rfl

variable {s : Server} {request : Request} {collection key : String}

private theorem handled_of_status {response : Response} (status : Nat)
    (h : response.status = status) (hother : status ≠ 201 ∧ status ≠ 204) :
    Handled s request response s :=
  .kept (h ▸ hother.1) (h ▸ hother.2)

private theorem handled_store (hmethod : request.method = .put ∨ request.method = .patch)
    (hsegments : segments? request.url.path = some [collection, key])
    (hconditions : MeetsConditions request.headers (s.item? collection key)) (value : Json) :
    Handled s request (s.store collection key value).1 (s.store collection key value).2 :=
  .wrote value hmethod hsegments hconditions rfl
    (by simp [store, written, Response.header?, Response.withHeader]; rfl)

private theorem handled_refusal {locator : String} {current : Option StoredItem}
    {refusal : Response} (h : precondition locator request.headers current = some refusal) :
    Handled s request refusal s :=
  handled_of_status 409 (status_of_precondition h) (by decide)

theorem handled_put {locator : String} (hmethod : request.method = .put)
    (hsegments : segments? request.url.path = some [collection, key]) :
    Handled s request (s.put locator request collection key).1
      (s.put locator request collection key).2 := by
  unfold put
  split
  next => exact handled_of_status 400 rfl (by decide)
  next body =>
    split
    next => exact handled_of_status 400 rfl (by decide)
    next value hvalue =>
      split
      next refusal hrefusal => exact handled_refusal hrefusal
      next hnone =>
        exact handled_store (.inl hmethod) hsegments (precondition_eq_none_iff.mp hnone) value

theorem handled_patch {locator : String} (hmethod : request.method = .patch)
    (hsegments : segments? request.url.path = some [collection, key]) :
    Handled s request (s.patch locator request collection key).1
      (s.patch locator request collection key).2 := by
  unfold patch
  split
  next => exact handled_of_status 400 rfl (by decide)
  next body =>
    split
    next => exact handled_of_status 400 rfl (by decide)
    next doc =>
      split
      next => exact handled_of_status 404 rfl (by decide)
      next item hitem =>
        split
        next refusal hrefusal => exact handled_refusal hrefusal
        next hnone =>
          split
          next f happly => exact handled_of_status 409 rfl (by decide)
          next value happly =>
            exact handled_store (.inr hmethod) hsegments
              (hitem ▸ precondition_eq_none_iff.mp hnone) value

theorem status_list (s : Server) (locator : String) (request : Request) (collection : String) :
    (s.list locator request collection).status = 200 ∨
    (s.list locator request collection).status = 400 := by
  unfold list
  split
  next => exact .inr rfl
  next => exact .inl rfl

theorem status_read (s : Server) (locator collection key : String) :
    (s.read locator collection key).status = 200 ∨
    (s.read locator collection key).status = 404 := by
  unfold read
  split
  next => exact .inl rfl
  next => exact .inr rfl

theorem handled_route (s : Server) (locator : String) (request : Request) :
    Handled s request (s.route locator request).1 (s.route locator request).2 := by
  unfold route
  split
  next => exact handled_of_status 401 rfl (by decide)
  next =>
    split
    next => exact handled_of_status 404 rfl (by decide)
    next segments hsegments =>
      split
      next collection hmethod =>
        rcases status_list s locator request collection with h | h <;>
          exact handled_of_status _ h (by decide)
      next collection key hmethod =>
        rcases status_read s locator collection key with h | h <;>
          exact handled_of_status _ h (by decide)
      next collection key hmethod => exact handled_put hmethod hsegments
      next collection key hmethod => exact handled_patch hmethod hsegments
      next collection key hmethod => exact .deleted hmethod hsegments rfl
      next => exact handled_of_status 405 rfl (by decide)
      next => exact handled_of_status 405 rfl (by decide)
      next => exact handled_of_status 404 rfl (by decide)

theorem header?_compressed {r : Response} {name : String}
    (hencoding : Text.sameName "Content-Encoding" name = false)
    (hlength : Text.sameName "Content-Length" name = false) :
    (compressed r).header? name = r.header? name := by
  unfold compressed
  split
  next => rfl
  next => simp [Response.header?, hencoding, hlength]

theorem status_compressed (r : Response) : (compressed r).status = r.status := by
  unfold compressed
  split <;> rfl

theorem status_answer (s : Server) (locator : String) (request : Request) :
    (s.answer locator request).status = (s.route locator request).1.status := by
  unfold answer
  split <;> rfl

theorem body_answer (s : Server) (locator : String) (request : Request) :
    (s.answer locator request).body = (s.route locator request).1.body := by
  unfold answer
  split <;> rfl

theorem header?_answer {name : String} (h : Text.sameName "X-Request-Id" name = false) (s : Server)
    (locator : String) (request : Request) :
    (s.answer locator request).header? name = (s.route locator request).1.header? name := by
  unfold answer
  split
  next => simp [Response.header?, Response.withHeader, h]
  next => rfl

/-- What is put around the answer of a route leaves its status alone. -/
theorem status_handle (s : Server) (locator : String) (request : Request) :
    (s.handle locator request).1.status = (s.route locator request).1.status := by
  have hhandle : (s.handle locator request).1 =
      if acceptsGzip request && s.gzip then compressed (s.answer locator request)
      else s.answer locator request := rfl
  rw [hhandle, ← status_answer]
  split
  next => exact status_compressed _
  next => rfl

/-- What is put around the answer of a route leaves all other headers alone. -/
theorem header?_handle {name : String} (hid : Text.sameName "X-Request-Id" name = false)
    (hencoding : Text.sameName "Content-Encoding" name = false)
    (hlength : Text.sameName "Content-Length" name = false) (s : Server) (locator : String)
    (request : Request) :
    (s.handle locator request).1.header? name = (s.route locator request).1.header? name := by
  have hhandle : (s.handle locator request).1 =
      if acceptsGzip request && s.gzip then compressed (s.answer locator request)
      else s.answer locator request := rfl
  rw [hhandle, ← header?_answer hid]
  split
  next => exact header?_compressed hencoding hlength
  next => rfl

theorem entityTag_handle (s : Server) (locator : String) (request : Request) :
    (s.handle locator request).1.header? "ETag" = (s.route locator request).1.header? "ETag" :=
  header?_handle (by decide) (by decide) (by decide) s locator request

/-- **What a request does**: it writes the item that it addresses, if its conditions are met, or
deletes it, or does nothing; and the answer tells which. -/
theorem handled_handle (s : Server) (locator : String) (request : Request) :
    Handled s request (s.handle locator request).1 (s.handle locator request).2 :=
  (handled_route s locator request).congr (status_handle s locator request)
    (entityTag_handle s locator request)

end ItemStore.Server
