import ItemStore.Proofs.Patch.Canonical
import ItemStore.Proofs.Server.Listing
import ItemStore.Proofs.Server.Refinement
import ItemStore.Proofs.Verdict.Conflict

/-!
# Which answers can be read

The values that a server stores are put into the bodies of its answers: an item as it is, the items
of a page three levels deep in a listing, and the operation of a failed patch, with the value that a
test found, two levels deep in a report. The parser of a client accepts such a body unless it is
nested too deeply, and what it makes of the numbers in it is not asked here. A server limits how
deeply the bodies of requests are nested, but not how deeply it nests values itself.

## Main results

- `VersionedMap.Run.canonical`: the values in a store are canonical, whatever requests are made;
- `Server.decodable_of_life`: which items, listings and reports can be read, exactly, at any time in
  the life of a server.

## Architecture

1. `VersionedMap.Grants.canonical` is about one change that is granted, and
   `VersionedMap.Run.canonical` follows by induction.
2. `Server.within_listing_iff` and `Server.within_conflictBody_iff` say how deeply listings and
   reports are nested.
3. `Server.Parses` is about one answer, and `Server.parses_written` about the answer to a read after
   a granted change.
-/

namespace ItemStore

namespace VersionedMap

open Server (Call Seen)

variable {authorization : String} {log : List (Call × Seen)} {m m' : VersionedMap}
  {request : Request}

/-! ## Stored values -/

/-- The values of all entries are canonical. -/
def Canonical (m : VersionedMap) : Prop :=
  ∀ collection key item, m.item? collection key = some item → item.value.Canonical

theorem Canonical.change (h : m.Canonical) {change : Change}
    (hvalue : ∀ collection key value, change = .write collection key value → value.Canonical) :
    (m.change change).Canonical := by
  intro collection' key' item hitem
  cases change with
  | write collection key value =>
    simp only [VersionedMap.change] at hitem
    split at hitem
    next =>
      cases hitem
      exact hvalue collection key value rfl
    next => exact h collection' key' item hitem
  | delete collection key =>
    simp only [VersionedMap.change] at hitem
    split at hitem
    next => cases hitem
    next => exact h collection' key' item hitem

/-- A change that is granted keeps the values canonical. -/
theorem Grants.canonical {change : Change} (hgranted : m.Grants request change) (h : m.Canonical) :
    (m.change change).Canonical := by
  refine h.change ?_
  rintro collection key value rfl
  cases hgranted with
  | put _ _ _ value_eq => exact (Json.within_of_ofBytes? value_eq).canonical
  | patch _ _ _ doc_eq item_eq _ value_eq =>
    exact PatchDocument.canonical_of_apply (PatchDocument.canonical_of_ofBytes doc_eq)
      (h _ _ _ item_eq) value_eq

/-- Values that are inserted directly are canonical. -/
def InsertsCanonical (log : List (Call × Seen)) : Prop :=
  ∀ entry ∈ log, ∀ collection key value, entry.1 = .insert collection key value → value.Canonical

theorem Step.canonical {call : Call} {seen : Seen} (hstep : Step authorization m call seen m')
    (h : m.Canonical) (hinserted : ∀ collection key value, call = .insert collection key value →
      value.Canonical) : m'.Canonical := by
  cases hstep with
  | inserted collection key value =>
    refine h.change ?_
    rintro _ _ _ ⟨⟩
    exact hinserted collection key value rfl
  | changed _ granted _ => exact granted.canonical h
  | kept => exact h
  | unauthorized => exact h

/-- **Stored values are canonical**, whatever requests are made. -/
theorem Run.canonical (h : Run authorization log m) (hinserted : InsertsCanonical log) :
    m.Canonical := by
  induction h with
  | start => exact nofun
  | step h hstep ih =>
    have hbefore := ih fun entry hentry => hinserted entry (List.mem_append_left _ hentry)
    exact hstep.canonical hbefore (hinserted _ List.mem_concat_self)

end VersionedMap

namespace Server

variable {s : Server} {locator : String} {request : Request} {collection key : String}

/-! ## Depths -/

/-- A page is nested more deeply than the values on it by three levels at least. -/
theorem depth_add_le_of_shown {w : Window} {entry : String × StoredItem}
    (hentry : entry ∈ (s.itemsAfter collection w.after).take w.limit) :
    entry.2.value.depth + 3 ≤ (s.listing collection w).depth := by
  have hvalue : (listed collection entry.1 entry.2).get? "value" = some entry.2.value := by
    simp [listed, Json.ofPairs, Json.get?, Assoc.get?_ofPairs]
  have hresults : (s.listing collection w).get? "results" =
      some (.arr (((s.itemsAfter collection w.after).take w.limit).map fun e =>
      listed collection e.1 e.2)) := by
    rw [listing_eq]
    cases s.link? collection w <;> simp [Json.ofPairs, Json.get?, Assoc.get?_ofPairs]
  have hmem : listed collection entry.1 entry.2 ∈
      ((s.itemsAfter collection w.after).take w.limit).map fun e => listed collection e.1 e.2 :=
    List.mem_map_of_mem hentry
  have := Json.depth_lt_of_get? hvalue
  have := Json.depth_lt_of_mem hmem
  have := Json.depth_lt_of_get? hresults
  omega

/-- How deeply a page is nested, if its items have canonical values. -/
theorem within_listing_iff {w : Window} {limit : Nat}
    (hcanonical : ∀ entry ∈ (s.itemsAfter collection w.after).take w.limit,
      entry.2.value.Canonical) :
    (s.listing collection w).Within (limit + 4) ↔
      ∀ entry ∈ (s.itemsAfter collection w.after).take w.limit,
      entry.2.value.depth ≤ limit + 1 := by
  constructor
  · intro h entry hentry
    have := h.depth_le
    have := depth_add_le_of_shown hentry
    omega
  · exact fun h => inherits_listing Json.inherited_within fun entry hentry =>
      ⟨hcanonical entry hentry, h entry hentry⟩

theorem canonical_listing {w : Window}
    (hcanonical : ∀ entry ∈ (s.itemsAfter collection w.after).take w.limit,
      entry.2.value.Canonical) :
    (s.listing collection w).Canonical := by
  -- a bound that the page keeps to in any case
  have hwithin : (s.listing collection w).Within ((s.listing collection w).depth + 4) := by
    refine (within_listing_iff hcanonical).mpr fun entry hentry => ?_
    have := depth_add_le_of_shown hentry
    omega
  exact hwithin.canonical

/-- A report is nested more deeply than what it holds by two levels at least. -/
theorem depth_add_le_conflictBody (f : PatchFailure) :
    f.op.toJson.depth + 2 ≤ (conflictBody f).depth ∧
      ∀ found, f.actual = some found → found.depth + 2 ≤ (conflictBody f).depth := by
  obtain ⟨-, hop, -, hactual, -⟩ := f.get?_toDetails
  have hdetails : (conflictBody f).get? "details" = some (.obj f.toDetails) := by
    simp [conflictBody, Json.ofPairs, Json.get?, Assoc.get?_ofPairs]
  have hbelow := Json.depth_lt_of_get? hdetails
  constructor
  · have hmember : (Json.obj f.toDetails).get? "op" = some f.op.toJson := hop
    have := Json.depth_lt_of_get? hmember
    omega
  · intro found hfound
    have hmember : (Json.obj f.toDetails).get? "actual" = some found := hactual.trans hfound
    have := Json.depth_lt_of_get? hmember
    omega

/-- A report has the operation and the value that was found two levels deep. -/
theorem within_conflictBody {f : PatchFailure} {limit : Nat} (hop : f.op.toJson.Within (limit + 1))
    (hactual : ∀ found, f.actual = some found → found.Within (limit + 1)) :
    (conflictBody f).Within (limit + 3) := by
  have hP := Json.inherited_within
  have hnested : (Json.arr (f.nestedPath.map Json.ofNat)).Within (limit + 1) := by
    refine hP.arr fun v hv => ?_
    obtain ⟨i, -, rfl⟩ := List.mem_map.mp hv
    exact hP.ofNat ..
  have hdetails : (Json.obj f.toDetails).Within (limit + 2) := by
    refine hP.ofPairs fun pair hpair => ?_
    rw [List.mem_append, List.mem_append] at hpair
    rcases hpair with (hpair | hpair) | hpair
    · simp only [List.mem_cons, List.not_mem_nil, or_false] at hpair
      rcases hpair with rfl | rfl | rfl
      · exact hP.ofNat ..
      · exact hop
      · exact hP.str ..
    · split at hpair
      next => cases hpair
      next => exact List.mem_singleton.mp hpair ▸ hnested
    · split at hpair
      next => cases hpair
      next found hfound => exact List.mem_singleton.mp hpair ▸ hactual found hfound
  exact hP.ofPairs (by simp [hP.str, hdetails])

theorem within_conflictBody_iff {f : PatchFailure} {limit : Nat} (hop : f.op.toJson.Canonical)
    (hactual : ∀ found, f.actual = some found → found.Canonical) :
    (conflictBody f).Within (limit + 3) ↔
      f.op.toJson.depth ≤ limit + 1 ∧ ∀ found, f.actual = some found → found.depth ≤ limit + 1 := by
  obtain ⟨hopDepth, hactualDepth⟩ := depth_add_le_conflictBody f
  constructor
  · intro h
    have := h.depth_le
    refine ⟨by omega, fun found hfound => ?_⟩
    have := hactualDepth found hfound
    omega
  · rintro ⟨hopLimit, hactualLimit⟩
    exact within_conflictBody ⟨hop, hopLimit⟩ fun found hfound =>
      ⟨hactual found hfound, hactualLimit found hfound⟩

theorem canonical_conflictBody {f : PatchFailure} (hop : f.op.toJson.Canonical)
    (hactual : ∀ found, f.actual = some found → found.Canonical) : (conflictBody f).Canonical := by
  obtain ⟨hopDepth, hactualDepth⟩ := depth_add_le_conflictBody f
  have hwithin : (conflictBody f).Within ((conflictBody f).depth + 3) := by
    refine (within_conflictBody_iff hop hactual).mpr ⟨by omega, fun found hfound => ?_⟩
    have := hactualDepth found hfound
    omega
  exact hwithin.canonical

/-! ## Bodies -/

/-- The body of an answer is the text of a value, and a client's parser accepts it exactly if a
condition holds. -/
def Parses (response : Response) (status : Nat) (v : Json) (condition : Prop) : Prop :=
  ∃ r, response.decompressed = .ok r ∧ r.status = status ∧ r.body = v.compact.toUTF8 ∧
    ((Json.ofBytes? r.body).isSome = true ↔ condition)

theorem Parses.congr {response : Response} {status : Nat} {v : Json} {condition condition' : Prop}
    (h : Parses response status v condition) (hiff : condition ↔ condition') :
    Parses response status v condition' := by
  obtain ⟨r, hunpack, hstatus, hbody, hparses⟩ := h
  exact ⟨r, hunpack, hstatus, hbody, hparses.trans hiff⟩

/-- A body that is the text of a canonical value is accepted exactly if the value is not nested too
deeply. -/
theorem parses_of_body {response r : Response} {v : Json} (hr : response.decompressed = .ok r)
    (hbody : r.body = v.compact.toUTF8) (hcanonical : v.Canonical) :
    Parses response r.status v (v.Within Json.depthLimit) := by
  refine ⟨r, hr, rfl, hbody, ?_⟩
  rw [hbody, Option.isSome_iff_exists]
  simp only [Json.ofBytes?_compact_eq_some_iff hcanonical, exists_eq_left]
  exact ⟨fun h => ⟨hcanonical, h⟩, Json.Within.depth_le⟩

/-- A route that answers with the text of a canonical value. -/
theorem parses_of_route {s' : Server} {status : Nat} {v : Json}
    (hroute : s.route locator request = (.ofJson status v, s')) (hcanonical : v.Canonical) :
    Parses (s.handle locator request).1 status v (v.Within Json.depthLimit) := by
  have hunpack : (s.handle locator request).1.decompressed = .ok (s.answer locator request) :=
    decompressed_handle (hroute ▸ Response.plain_ofJson status v)
  have hbody : (s.answer locator request).body = v.compact.toUTF8 := by
    rw [body_answer, hroute]
    rfl
  have hstatus : (s.answer locator request).status = status := by
    rw [status_answer, hroute]
    rfl
  exact hstatus ▸ parses_of_body hunpack hbody hcanonical

/-! ## Requests -/

/-- A request that is granted a write stores the value. -/
theorem route_of_grants {value : Json}
    (hauthorized : request.headers.get? "Authorization" = some s.authorization)
    (hgranted : s.view.Grants request (.write collection key value)) :
    s.route locator request = s.store collection key value := by
  rw [route, if_neg (not_not_intro hauthorized)]
  cases hgranted with
  | put method_eq segments_eq body_eq value_eq conditions =>
    have hmet : precondition locator request.headers (s.item? collection key) = none :=
      precondition_eq_none_iff.mpr conditions
    rw [segments_eq, method_eq]
    simp only [put, body_eq, value_eq, hmet]
  | @patch _ _ _ _ item _ method_eq segments_eq body_eq doc_eq item_eq conditions value_eq =>
    have hmet : precondition locator request.headers (some item) = none :=
      precondition_eq_none_iff.mpr conditions
    have hitem : s.item? collection key = some item := item_eq
    rw [segments_eq, method_eq]
    simp only [patch, body_eq, doc_eq, hitem, hmet, value_eq]

/-- Which entries a granted write leaves. -/
theorem view_of_grants {value : Json}
    (hauthorized : request.headers.get? "Authorization" = some s.authorization)
    (hgranted : s.view.Grants request (.write collection key value)) :
    (s.handle locator request).2.view = s.view.change (.write collection key value) := by
  rw [handle_snd, route_of_grants hauthorized hgranted]
  exact view_write s collection key value

/-- A request whose conditions are met is answered with the report of its document, if that
fails. -/
theorem route_of_conflict {item : StoredItem} {body : ByteArray} {doc : PatchDocument}
    {f : PatchFailure} (hauthorized : request.headers.get? "Authorization" = some s.authorization)
    (hmethod : request.method = .patch)
    (hsegments : segments? request.url.path = some [collection, key])
    (hitem : s.item? collection key = some item)
    (hconditions : MeetsConditions request.headers (some item)) (hbody : request.body = some body)
    (hdoc : PatchDocument.ofBytes body = .ok doc)
    (hfails : PatchDocument.apply doc item.value = .error f) :
    s.route locator request = (.ofJson 409 (conflictBody f), s) := by
  have hmet : precondition locator request.headers (some item) = none :=
    precondition_eq_none_iff.mpr hconditions
  rw [route, if_neg (not_not_intro hauthorized), hsegments, hmethod]
  simp only [patch, hbody, hdoc, hitem, hmet, hfails, conflict_eq]

/-- An authorized request for an item. -/
structure AsksFor (s : Server) (request : Request) (collection key : String) : Prop where
  authorized : request.headers.get? "Authorization" = some s.authorization
  method_eq : request.method = .get
  segments_eq : segments? request.url.path = some [collection, key]

/-- An item is accepted if its value is nested no deeper than the parser accepts. -/
theorem parses_item {item : StoredItem} (hstored : s.view.Canonical)
    (hasks : s.AsksFor request collection key) (hitem : s.item? collection key = some item) :
    Parses (s.handle locator request).1 200 item.value (item.value.depth ≤ 127) := by
  have hshows : VersionedMap.Shows (s.handle locator request).1 (s.item? collection key) :=
    shows_of_read hasks.authorized hasks.method_eq hasks.segments_eq
  rw [hitem] at hshows
  obtain ⟨r, hunpack, hstatus, -, hbody⟩ := hshows
  have hcanonical := hstored collection key item hitem
  have hparses := parses_of_body hunpack hbody hcanonical
  exact hstatus ▸ hparses.congr ⟨Json.Within.depth_le, fun h => ⟨hcanonical, h⟩⟩

/-- So is an item that has just been written. -/
theorem parses_written {value : Json} {locator' : String} {request' : Request}
    (hstored : s.view.Canonical)
    (hauthorized : request.headers.get? "Authorization" = some s.authorization)
    (hgranted : s.view.Grants request (.write collection key value))
    (hasks : s.AsksFor request' collection key) :
    Parses ((s.handle locator request).2.handle locator' request').1 200 value
      (value.depth ≤ 127) := by
  have hview : (s.handle locator request).2.view = s.view.change (.write collection key value) :=
    view_of_grants hauthorized hgranted
  have hstored' : (s.handle locator request).2.view.Canonical := hview ▸ hgranted.canonical hstored
  have hitem : (s.handle locator request).2.item? collection key =
      some ⟨value, s.view.freshRef⟩ := by
    have hchanged : (s.view.change (.write collection key value)).item? collection key =
        some ⟨value, s.view.freshRef⟩ := if_pos ⟨rfl, rfl⟩
    rwa [← hview] at hchanged
  have hasks' : (s.handle locator request).2.AsksFor request' collection key :=
    ⟨(s.handled_handle locator request).authorization_eq ▸ hasks.authorized, hasks.method_eq,
      hasks.segments_eq⟩
  exact parses_item hstored' hasks' hitem

/-- Which answers of a server the parser of a client accepts. -/
structure Decodable (s : Server) : Prop where
  /-- An item, if its value is nested no deeper than the parser accepts. -/
  item : ∀ {locator request collection key item}, s.AsksFor request collection key →
    s.item? collection key = some item →
    Parses (s.handle locator request).1 200 item.value (item.value.depth ≤ 127)
  /-- A page, if the values on it leave room for three levels more. -/
  listing : ∀ {locator request collection w},
    request.headers.get? "Authorization" = some s.authorization → request.method = .get →
    segments? request.url.path = some [collection] → window? request.url.queryPairs = some w →
    Parses (s.handle locator request).1 200 (s.listing collection w)
      (∀ entry ∈ (s.itemsAfter collection w.after).take w.limit, entry.2.value.depth ≤ 124)
  /-- A report, if the operation and the value that a test found leave room for two levels more. -/
  conflict : ∀ {locator request collection key item body doc f},
    request.headers.get? "Authorization" = some s.authorization → request.method = .patch →
    segments? request.url.path = some [collection, key] → s.item? collection key = some item →
    MeetsConditions request.headers (some item) → request.body = some body →
    PatchDocument.ofBytes body = .ok doc →
    PatchDocument.apply doc item.value = .error f →
    Parses (s.handle locator request).1 409 (conflictBody f)
      (f.op.toJson.depth ≤ 125 ∧ ∀ found, f.actual = some found → found.depth ≤ 125)
  /-- After a request to put an item is granted, the item is accepted. -/
  put : ∀ {locator request collection key value locator' request'},
    request.headers.get? "Authorization" = some s.authorization → request.method = .put →
    s.view.Grants request (.write collection key value) → s.AsksFor request' collection key →
    Parses ((s.handle locator request).2.handle locator' request').1 200 value True
  /-- After a request to patch an item is granted, the item is accepted unless the patch nests its
  value too deeply. -/
  patch : ∀ {locator request collection key value locator' request'},
    request.headers.get? "Authorization" = some s.authorization → request.method = .patch →
    s.view.Grants request (.write collection key value) → s.AsksFor request' collection key →
    Parses ((s.handle locator request).2.handle locator' request').1 200 value (value.depth ≤ 127)

/-- **Which answers can be read**, at any time in the life of a server whose direct insertions are
canonical. -/
theorem decodable_of_life {apiKey : String} {gzip : Bool} {log : List (Call × Seen)} {s : Server}
    (h : Life apiKey gzip log s) (hinserted : VersionedMap.InsertsCanonical log) : Decodable s := by
  have hstored : s.view.Canonical := h.run.canonical hinserted
  obtain ⟨hordered, -⟩ := h.keeps
  constructor
  case item => exact fun hasks hitem => parses_item hstored hasks hitem
  case listing =>
    intro locator request collection w hauthorized hmethod hsegments hwindow
    have hshown : ∀ entry ∈ (s.itemsAfter collection w.after).take w.limit,
        entry.2.value.Canonical := by
      intro entry hentry
      exact hstored collection entry.1 entry.2
        (Assoc.get?_of_mem (hordered collection) (mem_itemsOf_of_shown hentry))
    have hroute : s.route locator request = (.ofJson 200 (s.listing collection w), s) :=
      route_of_listing hauthorized hmethod hsegments hwindow
    exact (parses_of_route hroute (canonical_listing hshown)).congr (within_listing_iff hshown)
  case conflict =>
    intro locator request collection key item body doc f hauthorized hmethod hsegments hitem
      hconditions hbody hdoc hfails
    have hroute : s.route locator request = (.ofJson 409 (conflictBody f), s) :=
      route_of_conflict hauthorized hmethod hsegments hitem hconditions hbody hdoc hfails
    obtain ⟨hop, hactual⟩ :=
      PatchDocument.canonical_of_failure (PatchDocument.canonical_of_ofBytes hdoc)
      (hstored collection key item hitem) hfails
    exact (parses_of_route hroute (canonical_conflictBody hop hactual)).congr
      (within_conflictBody_iff hop hactual)
  case put =>
    intro locator request collection key value locator' request' hauthorized hmethod hgranted hasks
    have hdepth : value.depth ≤ 127 := by
      cases hgranted with
      | put _ _ _ value_eq => exact (Json.within_of_ofBytes? value_eq).depth_le
      | patch method_eq => cases hmethod.symm.trans method_eq
    exact (parses_written hstored hauthorized hgranted hasks).congr (iff_true_intro hdepth)
  case patch => exact fun hauthorized _ hgranted hasks =>
    parses_written hstored hauthorized hgranted hasks

/-- A value is put and then copied into itself by a patch. -/
theorem decodable_of_nested_copy :
    let s₀ := new "k" true
    let url : Url :=
      ⟨"https", some ⟨"", .domain "items.test", none⟩, .segments ["v0", "c", "k"], none, none⟩
    let headers : Headers := ⟨[("Authorization", s₀.authorization)]⟩
    let put : Call := .request ""
      { id := "", method := .put, url, headers, body := some "[[]]".toUTF8 }
    let patch : Call := .request ""
      { id := "", method := .patch, url, headers,
        body := some "[\x7b\"op\":\"copy\",\"from\":\"\",\"path\":\"/-\"\x7d]".toUTF8 }
    let get : Request := { id := "", method := .get, url, headers, body := none }
    let s := ((s₀.call put).2.call patch).2
    Decodable s ∧ Parses (s.handle "" get).1 200 (.arr [.arr [], .arr [.arr []]]) (3 ≤ 127) := by
  intro s₀ url headers put patch get s
  have hstart : Life "k" true [] s₀ := .start
  have hlife := (hstart.call put).call patch
  have hdecodable : Decodable s :=
    decodable_of_life hlife (by simp [VersionedMap.InsertsCanonical, put, patch])
  have hitem : s.item? "c" "k" = some ⟨.arr [.arr [], .arr [.arr []]], "0000000000000002"⟩ := by
    decide +kernel
  have hsegments : segments? get.url.path = some ["c", "k"] := by decide +kernel
  have hauthorized : get.headers.get? "Authorization" = some s.authorization := by decide +kernel
  exact ⟨hdecodable, hdecodable.item ⟨hauthorized, rfl, hsegments⟩ hitem⟩

/-- Arrays inside each other. -/
def nestedArrays : Nat → Json
  | 0 => .arr []
  | n + 1 => .arr [nestedArrays n]

/-- A value is put that leaves room for two levels more. The page with it cannot be read. -/
theorem listing_of_nested_value :
    let s₀ := new "k" false
    let url (segments : List String) : Url :=
      ⟨"https", some ⟨"", .domain "items.test", none⟩, .segments segments, none, none⟩
    let headers : Headers := ⟨[("Authorization", s₀.authorization)]⟩
    let put : Request :=
      { id := "", method := .put, url := url ["v0", "c", "k"], headers,
        body := some (nestedArrays 124).compact.toUTF8 }
    let get : Request := { id := "", method := .get, url := url ["v0", "c"], headers, body := none }
    let s₁ := (s₀.handle "" put).2
    (s₀.handle "" put).1.status = 201 ∧
      ∃ r, (s₁.handle "" get).1.decompressed = .ok r ∧ r.status = 200 ∧
      Json.ofBytes? r.body = none := by
  intro s₀ url headers put get s₁
  have hcanonical : (nestedArrays 124).Canonical := by decide +kernel
  have hdepth : (nestedArrays 124).depth = 125 := by decide +kernel
  have hfaithful : (nestedArrays 124).Faithful := Json.faithful_of_isIntegral _ (by decide +kernel)
  have hvalue : Json.ofBytes? (nestedArrays 124).compact.toUTF8 = some (nestedArrays 124) :=
    (Json.ofBytes?_compact_eq_some_iff hcanonical).mpr ⟨hfaithful.symm, by rw [hdepth]; decide⟩
  have hgranted : s₀.view.Grants put (.write "c" "k" (nestedArrays 124)) :=
    .put rfl (by decide +kernel) rfl hvalue ⟨nofun, fun _ => rfl⟩
  have hput : s₀.route "" put = s₀.store "c" "k" (nestedArrays 124) :=
    route_of_grants (by decide +kernel) hgranted
  have hstored : s₁ = (s₀.store "c" "k" (nestedArrays 124)).2 :=
    (handle_snd ..).trans (congrArg Prod.snd hput)
  have hshown : s₁.itemsAfter "c" none = [("k", ⟨nestedArrays 124, refText 1⟩)] := by
    rw [hstored]
    rfl
  have hget : s₁.route "" get = (.ofJson 200 (s₁.listing "c" ⟨10, none⟩), s₁) := by
    refine route_of_listing ?_ rfl (by decide +kernel) (by decide +kernel)
    rw [hstored]
    decide +kernel
  have hpage : ∀ entry ∈ (s₁.itemsAfter "c" none).take 10, entry.2.value = nestedArrays 124 := by
    rw [hshown]
    simp
  have hlisting : (s₁.listing "c" ⟨10, none⟩).Canonical :=
    canonical_listing fun entry hentry => (hpage entry hentry).symm ▸ hcanonical
  -- the page is nested three levels more deeply than the value
  have hdeep : ¬(s₁.listing "c" ⟨10, none⟩).Within Json.depthLimit := by
    intro hwithin
    have hentry : ("k", ⟨nestedArrays 124, refText 1⟩) ∈ (s₁.itemsAfter "c" none).take 10 := by
      rw [hshown]
      exact List.mem_singleton_self _
    have hle := (depth_add_le_of_shown hentry).trans hwithin.depth_le
    rw [hdepth] at hle
    exact absurd hle (by decide)
  obtain ⟨r, hunpack, hstatus, -, hparses⟩ := parses_of_route hget hlisting
  refine ⟨?_, r, hunpack, hstatus,
    Option.not_isSome_iff_eq_none.mp fun hsome => hdeep (hparses.mp hsome)⟩
  rw [status_handle, hput]
  rfl

end Server

end ItemStore
