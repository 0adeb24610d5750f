import ItemStore.Proofs.Json.Fits
import ItemStore.Proofs.Request.Base
import ItemStore.Proofs.Server.Transparency

/-!
# Paths off the root

A server takes the root off a path as a text. A path that starts with the characters of the root and
goes on without a slash is therefore routed, too, although it does not lie under the root.

## Main results

- `Server.off_root`: for a path that does not lie under the root, which requests are refused as
  unknown, exactly; each other one is answered as if a slash stood behind the root;
- `Server.stray_path_writes_item`: a request for such a path that writes an item.

## Architecture

1. `Server.refuses_handle_iff` reads a refusal in the answer of the route, before it is compressed.
2. `Server.missing_of_routed` says which answers with status 404 a path with names can get: none of
   them is a refusal of the path.
3. `Server.segments?_slash` and `Server.handle_congr` compare a path with the one that has the
   slash.
-/

namespace ItemStore

/-! ## Refusals -/

/-- What a client finds in the explanation of an error. -/
theorem ErrorDocument.ofBytes?_errorResponse (locator : String) (status : Nat)
    (code message : String) :
    ofBytes? (Server.errorResponse locator status code message).body =
      some { code := some code, message := some message, details := none,
             locator := some locator } := by
  have hfits :
      (Json.ofPairs [("code", .str code), ("message", .str message),
        ("locator", .str locator)]).Fits 1 :=
    Json.inherited_fits.ofPairs (by simp [Json.inherited_fits.str])
  have hlegible := Json.legible_of_canonical hfits.canonical hfits.faithful
    (Nat.le_trans hfits.depth_le (by decide))
  have hbody : Json.ofBytes? (Server.errorResponse locator status code message).body =
      some (.ofPairs [("code", .str code), ("message", .str message), ("locator", .str locator)]) :=
    hlegible.ofBytes?
  rw [ofBytes?, hbody]
  simp only [Json.ofPairs, ofMembers?, field?, Assoc.get?_ofPairs]
  simp [Json.asString?]

/-- The response has a status, and a client finds a code in its explanation. -/
def Response.Refuses (response : Response) (status : Nat) (code : String) : Prop :=
  ∃ r d, response.decompressed = .ok r ∧ r.status = status ∧
    ErrorDocument.ofBytes? r.body = some d ∧ d.code = some code

namespace Server

variable {s : Server} {locator : String} {request : Request}

/-- Nothing is done with a request, because its path is unknown. -/
def Unknown (s : Server) (locator : String) (request : Request) : Prop :=
  (s.handle locator request).1.Refuses 404 "api_not_found" ∧ (s.handle locator request).2 = s

/-- A client finds the refusal of a route in the answer. -/
theorem refuses_handle_iff {status : Nat} {code : String} :
    (s.handle locator request).1.Refuses status code ↔
      (s.route locator request).1.status = status ∧
        ∃ d, ErrorDocument.ofBytes? (s.route locator request).1.body = some d ∧
        d.code = some code := by
  have hunpack := decompressed_handle (s.plain_route locator request)
  rw [← status_answer, ← body_answer]
  constructor
  · rintro ⟨r, d, hr, hstatus, hd, hcode⟩
    obtain rfl := Except.ok.inj (hunpack.symm.trans hr)
    exact ⟨hstatus, d, hd, hcode⟩
  · rintro ⟨hstatus, d, hd, hcode⟩
    exact ⟨_, d, hunpack, hstatus, hd, hcode⟩

theorem refuses_of_route {status : Nat} {code message : String}
    (h : (s.route locator request).1 = errorResponse locator status code message) {code' : String} :
    (s.handle locator request).1.Refuses status code' ↔ code = code' := by
  rw [refuses_handle_iff, h, ErrorDocument.ofBytes?_errorResponse]
  simp [errorResponse, Response.ofJson]

/-! ## Names -/

/-- A path is routed: it leads to a collection or to an item. -/
def Routed (path : String) : Prop :=
  ∃ names, segments? path = some names ∧ (names.length = 1 ∨ names.length = 2)

private theorem ne_of_status {response : Response} (status : Nat) (h : response.status = status)
    (hne : status ≠ 404) :
    response.status ≠ 404 :=
  h ▸ hne

theorem status_put_ne (s : Server) (locator : String) (request : Request)
    (collection key : String) :
    (s.put locator request collection key).1.status ≠ 404 := by
  unfold put
  split
  next => exact ne_of_status 400 rfl (by decide)
  next =>
    split
    next => exact ne_of_status 400 rfl (by decide)
    next =>
      split
      next hrefusal => exact ne_of_status 409 (status_of_precondition hrefusal) (by decide)
      next => exact ne_of_status 201 rfl (by decide)

theorem missing_patch (s : Server) (locator : String) (request : Request)
    (collection key : String) :
    (s.patch locator request collection key).1.status ≠ 404 ∨
      (s.patch locator request collection key).1 = notFound locator collection key := by
  unfold patch
  split
  next => exact .inl (ne_of_status 400 rfl (by decide))
  next =>
    split
    next => exact .inl (ne_of_status 400 rfl (by decide))
    next =>
      split
      next => exact .inr rfl
      next =>
        split
        next hrefusal => exact .inl (ne_of_status 409 (status_of_precondition hrefusal) (by decide))
        next =>
          split
          next => exact .inl (ne_of_status 409 rfl (by decide))
          next => exact .inl (ne_of_status 201 rfl (by decide))

theorem missing_read (s : Server) (locator collection key : String) :
    (s.read locator collection key).status ≠ 404 ∨
    s.read locator collection key = notFound locator collection key := by
  unfold read
  split
  next => exact .inl (ne_of_status 200 rfl (by decide))
  next => exact .inr rfl

/-- If a path is routed, something is missing only if it is an item. -/
theorem missing_of_routed (locator : String)
    (hauthorized : request.headers.get? "Authorization" = some s.authorization)
    (h : Routed request.url.path) :
    (s.route locator request).1.status ≠ 404 ∨
      ∃ collection key, (s.route locator request).1 = notFound locator collection key := by
  obtain ⟨names, hsegments, hlength⟩ := h
  rw [route, if_neg (not_not_intro hauthorized), hsegments]
  dsimp only
  split
  next collection _ =>
    exact .inl
      ((status_list s locator request collection).elim (ne_of_status 200 · (by decide))
        (ne_of_status 400 · (by decide)))
  next collection key _ =>
    exact (missing_read s locator collection key).imp_right fun h => ⟨_, _, h⟩
  next collection key _ => exact .inl (status_put_ne s locator request collection key)
  next collection key _ =>
    exact (missing_patch s locator request collection key).imp_right fun h => ⟨_, _, h⟩
  next => exact .inl (ne_of_status 204 rfl (by decide))
  next => exact .inl (ne_of_status 405 rfl (by decide))
  next => exact .inl (ne_of_status 405 rfl (by decide))
  next hone htwo _ _ _ _ _ =>
    -- the last route is for paths with none or with more than two
    rcases hlength with h | h
    · obtain ⟨collection, rfl⟩ := List.length_eq_one_iff.mp h
      exact absurd rfl (hone collection)
    · obtain ⟨collection, key, rfl⟩ := List.length_eq_two.mp h
      exact absurd rfl (htwo collection key)

/-- A path that is not routed is unknown to all routes. -/
theorem route_of_not_routed (locator : String)
    (hauthorized : request.headers.get? "Authorization" = some s.authorization)
    (h : ¬Routed request.url.path) :
    s.route locator request = (errorResponse locator 404 "api_not_found" "unknown path", s) := by
  rw [route, if_neg (not_not_intro hauthorized)]
  split
  next => rfl
  next names hsegments =>
    -- every route but the last one is for one name or for two
    have hother : names.length ≠ 1 ∧ names.length ≠ 2 :=
      not_or.mp fun hlength => h ⟨names, hsegments, hlength⟩
    split <;> first | exact absurd rfl hother.1 | exact absurd rfl hother.2 | rfl

/-- An authorized request is refused as unknown if and only if its path is not routed. -/
theorem unknown_iff_not_routed
    (hauthorized : request.headers.get? "Authorization" = some s.authorization) :
    s.Unknown locator request ↔ ¬Routed request.url.path := by
  constructor
  · rintro ⟨hrefuses, -⟩ hrouted
    rcases missing_of_routed locator hauthorized hrouted with hstatus | ⟨collection, key, hmissing⟩
    · exact hstatus (refuses_handle_iff.mp hrefuses).1
    · -- what is missing is an item, which has a code of its own
      exact absurd ((refuses_of_route hmissing).mp hrefuses) (by decide)
  · intro h
    have hroute := route_of_not_routed locator hauthorized h
    exact ⟨(refuses_of_route (congrArg Prod.fst hroute)).mpr rfl,
      (handle_snd ..).trans (congrArg Prod.snd hroute)⟩

/-! ## Strays -/

/-- A path that goes on behind the characters of the root, but not with a slash. -/
def Strays (path : String) : Prop :=
  ∃ c cs, c ≠ '/' ∧ path = root ++ String.ofList (c :: cs)

/-- A path off the root has segments if and only if it strays. -/
theorem isSome_segments?_iff_strays {path : String} (h : ¬Url.IsUnder root path) :
    (segments? path).isSome ↔ Strays path := by
  have hdrop : (segments? path).isSome ↔ ∃ rest, path = root ++ rest := by
    simp [segments?, Option.isSome_iff_exists, Text.dropLiteral?_eq_some_iff]
  rw [hdrop]
  constructor
  · rintro ⟨rest, rfl⟩
    cases hrest : rest.toList with
    | nil =>
      rw [String.toList_eq_nil_iff] at hrest
      exact absurd (.inl (by rw [hrest, String.append_empty])) h
    | cons c cs =>
      have htext : rest = String.ofList (c :: cs) := by rw [← hrest, String.ofList_toList]
      refine ⟨c, cs, ?_, by rw [htext]⟩
      rintro rfl
      refine h (.inr ⟨String.ofList cs, ?_⟩)
      rw [htext, ← String.toList_inj]
      simp
  · rintro ⟨c, cs, -, rfl⟩
    exact ⟨_, rfl⟩

/-- A slash behind the root makes no difference to the segments. -/
theorem segments?_slash (rest : String) :
    segments? (root ++ "/" ++ rest) = segments? (root ++ rest) := by
  have hplain : Text.dropLiteral? root (root ++ rest) = some rest :=
    Text.dropLiteral?_eq_some_iff.mpr rfl
  have hslash : Text.dropLiteral? root (root ++ "/" ++ rest) = some ("/" ++ rest) :=
    Text.dropLiteral?_eq_some_iff.mpr (String.append_assoc ..)
  have hsplit : Text.split '/' ("/" ++ rest) = "" :: Text.split '/' rest := by
    simp [Text.split, Text.pieces]
  rw [segments?, segments?, hplain, hslash, Option.map_some, Option.map_some, hsplit,
    List.filter_cons_of_neg (by simp)]

/-- Of the URL of a request, only the segments of its path and its parameters count. -/
theorem handle_congr {url : Url} (hsegments : segments? url.path = segments? request.url.path)
    (hquery : url.queryPairs = request.url.queryPairs) :
    s.handle locator { request with url } = s.handle locator request := by
  have hlist (collection : String) : s.list locator { request with url } collection =
      s.list locator request collection := by
    rw [list, list, hquery]
  have hroute : s.route locator { request with url } = s.route locator request := by
    rw [route, hsegments]
    simp only [hlist]
    rfl
  rw [handle, hroute]
  rfl

/-! ## Off the root -/

/-- How a server answers a request for a path off the root. -/
structure OffRoot (s : Server) (locator : String) (request : Request) : Prop where
  /-- The request is refused, and changes nothing, if and only if its path is not one that strays to
  one or two names. -/
  unknown_iff : s.Unknown locator request ↔ ¬(Strays request.url.path ∧ Routed request.url.path)
  /-- A path that strays is taken for the one that has a slash behind the root. -/
  taken_as : ∀ {rest : String} {url : Url}, request.url.path = root ++ rest →
    url.path = root ++ "/" ++ rest → url.queryPairs = request.url.queryPairs →
    s.handle locator { request with url } = s.handle locator request

/-- **What is routed off the root**, for every authorized request in every state: nothing but the
paths that stray. -/
theorem off_root (hauthorized : request.headers.get? "Authorization" = some s.authorization)
    (hpath : ¬Url.IsUnder root request.url.path) : OffRoot s locator request := by
  constructor
  case unknown_iff =>
    have hstrays : Routed request.url.path → Strays request.url.path := by
      rintro ⟨names, hsegments, -⟩
      exact (isSome_segments?_iff_strays hpath).mp (Option.isSome_of_eq_some hsegments)
    rw [unknown_iff_not_routed hauthorized, and_iff_right_of_imp hstrays]
  case taken_as =>
    intro rest url hrest hurl hquery
    refine handle_congr ?_ hquery
    rw [hrest, hurl, segments?_slash]

/-- A path that strays to three names is refused. -/
theorem off_root_of_three_names :
    let s := new "k" false
    let request : Request :=
      { id := "", method := .get
        url :=
          ⟨"https", some ⟨"", .domain "items.test", none⟩, .segments ["v00", "a", "b"], none, none⟩
        headers := ⟨[("Authorization", s.authorization)]⟩, body := none }
    ¬Url.IsUnder root request.url.path ∧ s.Unknown "" request := by
  intro s request
  have hpath : ¬Url.IsUnder root request.url.path := by decide
  have hsegments : segments? request.url.path = some ["0", "a", "b"] := by decide
  refine ⟨hpath, (off_root (by decide) hpath).unknown_iff.mpr ?_⟩
  rintro ⟨-, names, hnames, hlength⟩
  cases hsegments.symm.trans hnames
  exact absurd hlength (by decide)

/-- A request for a path off the root that writes an item. -/
theorem stray_path_writes_item :
    let s := new "k" false
    let request : Request :=
      { id := "", method := .put
        url := ⟨"https", some ⟨"", .domain "items.test", none⟩, .segments ["v0c", "k"], none, none⟩
        headers := ⟨[("Authorization", s.authorization)]⟩, body := some "1".toUTF8 }
    request.headers.get? "Authorization" = some s.authorization ∧
      ¬Url.IsUnder root request.url.path ∧
      (s.handle "" request).1.status = 201 ∧ s.item? "c" "k" = none ∧
      (s.handle "" request).2.item? "c" "k" = some ⟨.ofNat 1, "0000000000000001"⟩ ∧
      ¬s.Unknown "" request := by
  intro s request
  have hauthorized : request.headers.get? "Authorization" = some s.authorization := by decide
  have hrouted : Routed request.url.path := ⟨["c", "k"], by decide, .inr rfl⟩
  exact ⟨hauthorized, by decide, by decide +kernel, rfl, by decide +kernel,
    fun hunknown => (unknown_iff_not_routed hauthorized).mp hunknown hrouted⟩

end Server

end ItemStore
