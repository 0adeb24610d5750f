import ItemStore.Proofs.Client.Requests
import ItemStore.Proofs.Server.Listing
import ItemStore.Proofs.Server.Refinement

/-!
# Addresses of items

The names of an item travel as encoded segments: in the path of a request, through the reading of
the URL, to the routes of the server; and in the location of an answer, through the reading of that
location, back to the client. This module shows that each name arrives as it was sent, whatever
characters it has.

## Main results

- `Client.request_reaches_item`: a request for the address of an item reaches this item and no other
  one, and the answer to a write tells the client the same address with the version that the item
  has got;
- `ItemPath.ofLocation?_locationOf`: a client reads in a location what the server has written there.

The only names that cannot be sent are the empty one and the two that a path takes for dots.
-/

namespace ItemStore

open Url

/-! ## Locations -/

namespace ItemPath

/-- The segments of a location behind the version of the interface. -/
theorem segments_segmentsText {parts : List String} (hne : ∀ part ∈ parts, part ≠ "")
    (hplain : ∀ part ∈ parts, ∀ c ∈ part.toList, Percent.isPlain c = true) :
    segments (segmentsText ("v0" :: parts)) = parts := by
  have hroot : ∀ part ∈ "v0" :: parts, ∀ c ∈ part.toList, Percent.isPlain c = true :=
    List.forall_mem_cons.mpr ⟨isPlainSegment_root.plain, hplain⟩
  -- nothing in the location starts a query or a fragment
  have hchars : ∀ c ∈ (segmentsText ("v0" :: parts)).toList, (!(c = '?' || c = '#')) = true := by
    intro c hc
    rw [toList_segmentsText (List.cons_ne_nil _ _), List.mem_cons] at hc
    have hchar : c = '/' ∨ Percent.isPlain c = true := by
      rcases hc with hc | hc
      · exact .inl hc
      · exact (mem_segmentsChars hc).imp_right fun ⟨part, hpart, hc⟩ => hroot part hpart c hc
    rcases hchar with rfl | hc
    · decide
    · exact Percent.of_isPlain (P := fun c => (!(c = '?' || c = '#')) = true) (by decide) hc
  have hpath : (segmentsText ("v0" :: parts)).toList.takeWhile (fun c => !(c = '?' || c = '#')) =
      (segmentsText ("v0" :: parts)).toList := by
    rw [← List.append_nil (segmentsText ("v0" :: parts)).toList,
      List.takeWhile_append_of_pos hchars, List.takeWhile_nil]
  have hpieces : Text.pieces '/' (segmentsText ("v0" :: parts)).toList =
      [] :: ("v0" :: parts).map String.toList :=
    pieces_segmentsText fun part hpart hslash => ne_slash_of_isPlain (hroot part hpart _ hslash) rfl
  have hfilter : (parts.map String.toList).filter (fun part => !part.isEmpty) =
      parts.map String.toList := by
    apply List.filter_eq_self.mpr
    intro part hpart
    obtain ⟨segment, hsegment, rfl⟩ := List.mem_map.mp hpart
    have hsome : segment.toList ≠ [] :=
      fun hnil => hne segment hsegment (String.toList_eq_nil_iff.mp hnil)
    simpa using hsome
  have hall : ([] :: ("v0" :: parts).map String.toList).filter (fun part => !part.isEmpty) =
      "v0".toList :: parts.map String.toList := by
    rw [List.map_cons, List.filter_cons_of_neg (by simp),
      List.filter_cons_of_pos (by decide), hfilter]
  have hversion : isVersion "v0".toList = true := by decide
  rw [segments, hpath, hpieces, hall]
  simp only [hversion, if_true, List.map_map]
  exact (List.map_congr_left fun part _ => String.ofList_toList).trans (List.map_id' _)

/-- A client reads in a location what the server has written there. -/
theorem ofLocation?_locationOf {collection key ref : String} (hcollection : collection ≠ "")
    (hkey : key ≠ "") (href : ref ≠ "")
    (hunreserved : ∀ c ∈ ref.toList, Percent.isUnreserved c = true) :
    ofLocation? (Server.locationOf collection key ref) = some ⟨collection, key, some ref⟩ := by
  have htext : Server.locationOf collection key ref =
      segmentsText ["v0", Percent.encode collection, Percent.encode key, "refs",
      Percent.encode ref] := by
    rw [Percent.encode_eq_self hunreserved, ← String.toList_inj]
    simp [Server.locationOf, Server.root, segmentsText]
  have hnamed : ∀ part ∈
      [Percent.encode collection, Percent.encode key, "refs", Percent.encode ref], part ≠ "" := by
    simp [Percent.encode_eq_empty_iff, hcollection, hkey, href]
  have hplain : ∀ part ∈
      [Percent.encode collection, Percent.encode key, "refs", Percent.encode ref],
      ∀ c ∈ part.toList, Percent.isPlain c = true := by
    have hrefs : ∀ c ∈ "refs".toList, Percent.isPlain c = true := List.all_eq_true.mp (by decide)
    intro part hpart c hc
    simp only [List.mem_cons, List.not_mem_nil, or_false] at hpart
    rcases hpart with rfl | rfl | rfl | rfl
    · exact Percent.isPlain_of_mem_encode hc
    · exact Percent.isPlain_of_mem_encode hc
    · exact hrefs c hc
    · exact Percent.isPlain_of_mem_encode hc
  rw [ofLocation?, htext, segments_segmentsText hnamed hplain]
  simp [Percent.decode?_encode]

end ItemPath

/-! ## Writes -/

namespace Server

variable {s : Server} {locator : String} {request : Request} {collection key : String}

theorem store_of_created_put (h : (s.put locator request collection key).1.status = 201) :
    ∃ value, s.put locator request collection key = s.store collection key value := by
  unfold put at h ⊢
  split at h
  next => cases h
  next =>
    split at h
    next => cases h
    next value _ =>
      split at h
      next refusal hrefusal =>
        rw [status_of_precondition hrefusal] at h
        cases h
      next => exact ⟨value, rfl⟩

theorem store_of_created_patch (h : (s.patch locator request collection key).1.status = 201) :
    ∃ value, s.patch locator request collection key = s.store collection key value := by
  unfold patch at h ⊢
  split at h
  next => cases h
  next =>
    split at h
    next => cases h
    next =>
      split at h
      next => cases h
      next =>
        split at h
        next refusal hrefusal =>
          rw [status_of_precondition hrefusal] at h
          cases h
        next =>
          split at h
          next => cases h
          next value _ => exact ⟨value, rfl⟩

/-- An answer with status 201 comes from a write to the item that the request addresses. -/
theorem store_of_created (hsegments : segments? request.url.path = some [collection, key])
    (h : (s.route locator request).1.status = 201) :
    ∃ value, s.route locator request = s.store collection key value := by
  unfold route at h ⊢
  rw [hsegments] at h ⊢
  by_cases hauthorized : request.headers.get? "Authorization" = some s.authorization
  · rw [if_neg (not_not_intro hauthorized)] at h ⊢
    cases hmethod : request.method with
    | put =>
      rw [hmethod] at h
      exact store_of_created_put h
    | patch =>
      rw [hmethod] at h
      exact store_of_created_patch h
    | get =>
      rw [hmethod] at h
      rcases status_read s locator collection key with hstatus | hstatus <;>
        cases hstatus.symm.trans h
    | head | post | delete =>
      rw [hmethod] at h
      cases h
  · rw [if_pos hauthorized] at h
    cases h

section
variable {s' : Server} {response : Response}

/-- An answer with status 204 has deleted the item that the request addresses. -/
theorem Handled.item?_of_deleted (h : Handled s request response s') (hordered : s.Ordered)
    (hsegments : segments? request.url.path = some [collection, key])
    (hstatus : response.status = 204) :
    s'.item? collection key = none := by
  cases h with
  | wrote _ _ _ _ status_eq => cases status_eq.symm.trans hstatus
  | deleted _ segments_eq _ =>
    cases hsegments.symm.trans segments_eq
    exact (item?_delete hordered collection key collection key).trans (if_pos ⟨rfl, rfl⟩)
  | kept _ not_deleted => exact absurd hstatus not_deleted

/-- No request touches an item that it does not address. -/
theorem Handled.item?_of_other (h : Handled s request response s') (hordered : s.Ordered)
    (hsegments : segments? request.url.path = some [collection, key]) {collection' key' : String}
    (hother : ¬(collection = collection' ∧ key = key')) :
    s'.item? collection' key' = s.item? collection' key' := by
  cases h with
  | wrote value _ segments_eq =>
    cases hsegments.symm.trans segments_eq
    exact (item?_write s collection key value collection' key').trans (if_neg hother)
  | deleted _ segments_eq =>
    cases hsegments.symm.trans segments_eq
    exact (item?_delete hordered collection key collection' key').trans (if_neg hother)
  | kept => rfl

end

/-- What it means that a request reaches one item, by its names. -/
structure ReachesItem (s : Server) (locator : String) (request : Request)
    (collection key : String) : Prop where
  /-- The routes of the server find the names as they are. -/
  segments_eq : segments? request.url.path = some [collection, key]
  /-- An authorized request to read shows the item. -/
  read : request.headers.get? "Authorization" = some s.authorization → request.method = .get →
    VersionedMap.Shows (s.handle locator request).1 (s.item? collection key)
  /-- A write that is accepted changes the item, and the client reads its names and its version in
  the answer. -/
  written : (s.handle locator request).1.status = 201 →
    ∃ item, (s.handle locator request).2.item? collection key = some item ∧
      (s.handle locator request).1.itemPath? = some ⟨collection, key, some item.ref⟩ ∧
      (s.handle locator request).1.etagRef? = some item.ref
  /-- A deletion deletes the item. -/
  deleted : (s.handle locator request).1.status = 204 →
    (s.handle locator request).2.item? collection key = none
  /-- No other item is touched. -/
  others : ∀ collection' key', ¬(collection = collection' ∧ key = key') →
    (s.handle locator request).2.item? collection' key' = s.item? collection' key'

theorem location_written (collection key ref : String) :
    (Server.written collection key ref).header? "Location" =
      some (locationOf collection key ref) := by
  simp [Server.written, Response.header?, Response.withHeader]

/-- A request whose path names an item reaches it. -/
theorem reachesItem_of_segments (hordered : s.Ordered) (hcollection : collection ≠ "")
    (hkey : key ≠ "") (hsegments : segments? request.url.path = some [collection, key]) :
    s.ReachesItem locator request collection key := by
  have hhandled := s.handled_handle locator request
  constructor
  case segments_eq => exact hsegments
  case read => exact fun hauthorized hmethod => shows_of_read hauthorized hmethod hsegments
  case written =>
    intro hstatus
    rw [status_handle] at hstatus
    obtain ⟨value, hstore⟩ := store_of_created hsegments hstatus
    refine ⟨⟨value, refText s.nextRef⟩, ?_, ?_, ?_⟩
    · rw [handle_snd, hstore]
      exact (item?_write s collection key value collection key).trans (if_pos ⟨rfl, rfl⟩)
    · have hlocation : (s.handle locator request).1.location? =
          some (locationOf collection key (refText s.nextRef)) := by
        rw [Response.location?, header?_handle (by decide) (by decide) (by decide), hstore]
        exact location_written ..
      rw [Response.itemPath?, hlocation, Option.bind_some]
      exact ItemPath.ofLocation?_locationOf hcollection hkey (refText_ne_empty _) fun _ =>
        isUnreserved_of_mem_refText
    · rw [Response.etagRef?, entityTag_handle, hstore]
      exact etagRef?_written ..
  case deleted => exact hhandled.item?_of_deleted hordered hsegments
  case others => exact fun collection' key' hother =>
    hhandled.item?_of_other hordered hsegments hother

end Server

/-! ## Requests -/

/-- A name that an address can hold. -/
structure IsName (name : String) : Prop where
  named : name ≠ ""
  not_dot : name ≠ "."
  not_dots : name ≠ ".."

/-- The path of the requests for an item. -/
def itemAddress (collection key : String) : String :=
  Percent.encode collection ++ "/" ++ Percent.encode key

namespace Client

variable {client : Client} {e : Envelope} {collection key : String}

theorem segments?_request (hbase : client.endpoint.basePath = "/v0")
    (hcollection : IsName collection) (hkey : IsName key)
    (hpath : e.path = itemAddress collection key) (id : String) :
    Server.segments? (client.request e id).url.path = some [collection, key] := by
  have hnamed : Percent.encode collection ≠ "" :=
    mt Percent.encode_eq_empty_iff.mp hcollection.named
  have hfirst := isPlainSegment_encode hcollection.not_dot hcollection.not_dots
  have hsecond := isPlainSegment_encode hkey.not_dot hkey.not_dots
  have htext : itemAddress collection key =
      String.ofList (segmentsChars [Percent.encode collection, Percent.encode key]) := by
    rw [← String.toList_inj]
    simp [itemAddress, segmentsChars]
  have hbaseText : client.endpoint.basePath = segmentsText ["v0"] := hbase
  have hfull : client.endpoint.fullPath (itemAddress collection key) =
      segmentsText (["v0"] ++ [Percent.encode collection, Percent.encode key]) := by
    rw [htext]
    exact Endpoint.fullPath_of_relative hbaseText hnamed hfirst
  have hall : ∀ part ∈ ["v0"] ++ [Percent.encode collection, Percent.encode key],
      IsPlainSegment part := by
    simp [isPlainSegment_root, hfirst, hsecond]
  rw [request, hpath, Endpoint.path_resolve hfull (by simp) hall]
  have hnames : ∀ name ∈ [collection, key], name ≠ "" := by simp [hcollection.named, hkey.named]
  apply Server.segments?_segmentsText hnames

/-- **A request for the address of an item reaches this item** and no other one, in whatever state a
server is; and no two items have the same address. -/
theorem request_reaches_item {apiKey : String} {gzip : Bool}
    {log : List (Server.Call × Server.Seen)} {s : Server} (hlife : Server.Life apiKey gzip log s)
    (hbase : client.endpoint.basePath = "/v0") (hcollection : IsName collection) (hkey : IsName key)
    (hpath : e.path = itemAddress collection key) (locator id : String) :
    s.ReachesItem locator (client.request e id) collection key ∧
      ∀ {e' : Envelope} {collection' key' : String}, IsName collection' → IsName key' →
        e'.path = itemAddress collection' key' →
        ∀ id', (client.request e' id').url.path = (client.request e id).url.path →
        collection' = collection ∧ key' = key := by
  have hsegments := segments?_request hbase hcollection hkey hpath id
  refine ⟨Server.reachesItem_of_segments hlife.keeps.1 hcollection.named hkey.named hsegments, ?_⟩
  intro e' collection' key' hcollection' hkey' hpath' id' hsame
  -- the server reads both pairs of names in the one path
  have hsegments' := segments?_request hbase hcollection' hkey' hpath' id'
  rw [hsame, hsegments] at hsegments'
  simpa [eq_comm] using hsegments'

/-- A collection that is named like a version, and a key that is full of characters with a
meaning. -/
theorem request_reaches_item_of_odd_names :
    let endpoint : Endpoint :=
      ⟨⟨"https", some ⟨"", .domain "items.test", none⟩, .segments [""], none, none⟩, "/v0"⟩
    let client : Client := ⟨endpoint, .new endpoint (.apiKey "k") "v0" userAgent, {}⟩
    let s := Server.new "k" true
    let e := (Envelope.new .put (itemAddress "v1" "refs/?#% ü")).withBody "1".toUTF8
    (s.handle "" (client.request e "id")).1.status = 201 ∧
      (s.handle "" (client.request e "id")).1.itemPath? =
        some ⟨"v1", "refs/?#% ü", some "0000000000000001"⟩ ∧
      s.ReachesItem "" (client.request e "id") "v1" "refs/?#% ü" := by
  intro endpoint client s e
  have hlife : Server.Life "k" true [] s := .start
  have hbase : client.endpoint.basePath = "/v0" := rfl
  have hpath : e.path = itemAddress "v1" "refs/?#% ü" := rfl
  have hreaches := request_reaches_item hlife hbase ⟨by decide, by decide, by decide⟩
    ⟨by decide, by decide, by decide⟩ hpath "" "id"
  exact ⟨by decide +kernel, by decide +kernel, hreaches.1⟩

end Client

end ItemStore
