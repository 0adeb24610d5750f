import ItemStore.Proofs.Client.Requests
import ItemStore.Proofs.Message.Setting

/-!
# The headers of a request

A client sets six headers on every request and sends those of the envelope otherwise. This module
says what becomes of headers of the same names that an envelope holds already.

## Main results

- `StandardHeaders.overwrites_first_values`: setting a header, be it a standard one, overwrites the
  first of its values. In a list with two entries of a name, the second one stays.
- `Client.request_headers_exact`: envelopes never have such a list, however they are made. So a
  request has one value for each header that the client sets, and the other headers of the envelope
  unchanged.
-/

namespace ItemStore

/-! ## Standard headers -/

namespace StandardHeaders

/-- The standard headers in the order in which they are set. -/
def all (s : StandardHeaders) : List (String × String) :=
  s.entries ++ [("Authorization", s.authorization)]

/-- The names of the standard headers. -/
def names (s : StandardHeaders) : List String :=
  s.all.map Prod.fst

theorem apply_eq_setAll (s : StandardHeaders) (h : Headers) : s.apply h = h.setAll s.all := by
  simp [apply, all, Headers.setAll, List.foldl_append]

theorem names_new (endpoint : Endpoint) (credentials : Credentials) (version agent : String) :
    (new endpoint credentials version agent).names =
      ["X-Api-Version", "Host", "User-Agent", "Accept-Encoding", "Authorization"] := rfl

theorem pairwise_names_new (endpoint : Endpoint) (credentials : Credentials)
    (version agent : String) :
    (new endpoint credentials version agent).names.Pairwise fun a b =>
      Text.sameName a b = false := by
  rw [names_new]
  decide

/-- **Setting a header overwrites the first of its values.** The entries of other names stay as they
are, in their order. The new value is the only one whatever the header exactly if no name has a
second entry, as it is where headers have only been collected, set and removed. Setting the standard
headers does this to each of them. -/
theorem overwrites_first_values (endpoint : Endpoint) (credentials : Credentials)
    (version agent : String) (h : Headers) :
    let standard := new endpoint credentials version agent
    (∀ name value, (h.insert name value).values name = value :: (h.values name).tail ∧
        (h.insert name value).others [name] = h.others [name]) ∧
      ((∀ name value, (h.insert name value).values name = [value]) ↔ h.Distinct) ∧
      (h.Collected → h.Distinct) ∧
      (∀ pair ∈ standard.all, (standard.apply h).values pair.1 = pair.2 :: (h.values pair.1).tail) ∧
      (standard.apply h).others standard.names = h.others standard.names := by
  intro standard
  have hinsert (name value : String) : (h.insert name value).values name =
      value :: (h.values name).tail := by
    simp
  have hdistinct := pairwise_names_new endpoint credentials version agent
  have hnames : ∀ pair ∈ standard.all, pair.1 ∈ standard.names :=
    fun pair hpair => List.mem_map_of_mem hpair
  refine ⟨fun name value => ⟨hinsert name value, Headers.others_insert List.mem_cons_self h value⟩,
    Headers.forall_values_insert_iff, Headers.Collected.distinct, fun pair hpair => ?_, ?_⟩
  · rw [apply_eq_setAll, Headers.values_setAll_of_mem hdistinct hpair]
  · rw [apply_eq_setAll, Headers.others_setAll standard.all hnames]

/-- A caller sets an authorization of its own, twice and in different spellings, next to another
header. -/
theorem overwrites_first_values_of_two_spellings :
    let endpoint : Endpoint :=
      ⟨⟨"https", some ⟨"", .domain "items.test", none⟩, .segments [""], none, none⟩, "/v0"⟩
    let standard := new endpoint (.bearer "t") "v0" userAgent
    let h := Headers.ofPairs
      [("AUTHORIZATION", "mine"), ("If-Match", "a"), ("authorization", "again")]
    h.Collected ∧ h.Distinct ∧ ("Authorization", "Bearer t") ∈ standard.all ∧
      (standard.apply h).values "Authorization" = ["Bearer t"] ∧
      (standard.apply h).others standard.names = [("If-Match", "a")] := by
  intro endpoint standard h
  obtain ⟨-, -, hdistinct, hvalues, hothers⟩ :=
    overwrites_first_values endpoint (.bearer "t") "v0" userAgent h
  have hcollected : h.Collected := .ofPairs _
  have hmem : ("Authorization", "Bearer t") ∈ standard.all := by decide
  exact ⟨hcollected, hdistinct hcollected, hmem, (hvalues _ hmem).trans (by decide),
    hothers.trans (by decide)⟩

/-- A list to which two entries of a name were appended keeps the second one when that header is
set. Setting the standard headers leaves the second authorization of a caller next to the client's
own. -/
theorem keeps_second_value :
    let endpoint : Endpoint :=
      ⟨⟨"https", some ⟨"", .domain "items.test", none⟩, .segments [""], none, none⟩, "/v0"⟩
    let standard := new endpoint (.bearer "t") "v0" userAgent
    let h := (Headers.empty.append "Authorization" "mine").append "authorization" "other"
    (h.insert "AUTHORIZATION" "set").entries =
      [("Authorization", "set"), ("authorization", "other")] ∧
      (h.insert "AUTHORIZATION" "set").values "AUTHORIZATION" ≠ ["set"] ∧
      "other" ∈ (standard.apply h).values "Authorization" := by
  intro endpoint standard h
  exact ⟨by decide, by decide, by decide⟩

end StandardHeaders

/-! ## Envelopes -/

namespace Envelope

/-- The envelopes that a client comes by: those that are built step by step, and those that are made
for a link. -/
inductive Built : Envelope → Prop where
  | new (method : Method) (path : String) : Built (.new method path)
  | withQuery {e : Envelope} (name value : String) : Built e → Built (e.withQuery name value)
  | withHeader {e : Envelope} (name value : String) : Built e → Built (e.withHeader name value)
  | withBody {e : Envelope} (body : ByteArray) : Built e → Built (e.withBody body)
  | withJson {e : Envelope} (v : Json) : Built e → Built (e.withJson v)
  | withPatch {e : Envelope} (doc : PatchDocument) : Built e → Built (e.withPatch doc)
  | acceptStatus {e : Envelope} (status : Nat) : Built e → Built (e.acceptStatus status)
  | withSuccess {e : Envelope} (success : StatusSet) : Built e → Built (e.withSuccess success)
  | follow {e next : Envelope} (link : String) : Built e → e.follow link = .ok next → Built next

/-- The envelope for a link has the headers of the one that it follows. -/
theorem headers_of_follow {e next : Envelope} {link : String} (h : e.follow link = .ok next) :
    next.headers = e.headers := by
  unfold Envelope.follow at h
  split at h
  next => cases h
  next => cases h; rfl

/-- Each step leaves the headers alone or sets one. -/
theorem Built.collected {e : Envelope} (h : e.Built) : e.headers.Collected := by
  induction h with
  | new => exact .ofPairs []
  -- the steps that set a header
  | withHeader name value _ ih => exact ih.insert name value
  | withJson _ _ ih => exact ih.insert "Content-Type" "application/json"
  | withPatch _ _ ih => exact ih.insert "Content-Type" "application/json-patch+json"
  -- the steps that have nothing to do with headers
  | withQuery _ _ _ ih | withBody _ _ ih | acceptStatus _ _ ih | withSuccess _ _ ih => exact ih
  | follow link _ hfollow ih => exact headers_of_follow hfollow ▸ ih

end Envelope

/-! ## Requests -/

/-- The headers that a client sets on a request, as its settings have it. -/
def ClientSettings.ownHeaders (settings : ClientSettings) (endpoint : Endpoint) (id : String) :
    List (String × String) :=
  [("X-Api-Version", Text.trim settings.apiVersion), ("Host", endpoint.hostHeader),
    ("User-Agent", userAgentFor settings.application), ("Accept-Encoding", "gzip"),
    ("Authorization", settings.credentials.authorization), ("X-Request-Id", id)]

namespace Client

variable {settings : ClientSettings} {client : Client}

theorem names_ownHeaders (settings : ClientSettings) (endpoint : Endpoint) (id : String) :
    (settings.ownHeaders endpoint id).map Prod.fst = ownNames := rfl

theorem pairwise_ownNames : ownNames.Pairwise fun a b => Text.sameName a b = false := by
  decide

theorem headers_request (h : settings.build = .ok client) (e : Envelope) (id : String) :
    (client.request e id).headers = e.headers.setAll (settings.ownHeaders client.endpoint id) := by
  obtain ⟨hheaders, -⟩ := ClientSettings.headers_of_build h
  rw [request, StandardHeaders.apply_eq_setAll, hheaders]
  rfl

/-- **The headers of a request**: whatever the settings of the client and however the envelope came
about, the request has one entry for each header that the client sets, with the value that follows
from the settings, and otherwise the headers of the envelope in their order. -/
theorem request_headers_exact (h : settings.build = .ok client) {e : Envelope} (hbuilt : e.Built)
    (id : String) :
    (∀ own ∈ settings.ownHeaders client.endpoint id,
      (client.request e id).headers.values own.1 = [own.2]) ∧
      (client.request e id).headers.others ownNames = e.headers.others ownNames := by
  rw [headers_request h]
  have hnames := names_ownHeaders settings client.endpoint id
  -- the first value of a name is overwritten, and the envelope has no second one
  constructor
  · intro own hown
    have hdistinct : (settings.ownHeaders client.endpoint id).map Prod.fst |>.Pairwise fun a b =>
        Text.sameName a b = false := hnames ▸ pairwise_ownNames
    rw [Headers.values_setAll_of_mem hdistinct hown, hbuilt.collected.distinct.tail_values]
  · exact Headers.others_setAll _ (fun own hown => hnames ▸ List.mem_map_of_mem hown) e.headers

/-- An envelope claims an authorization, a host and an id of its own, in odd spellings and more than
once, and is followed to a further page: of all that only the headers that the client does not set
are sent. -/
theorem request_headers_exact_of_followed :
    let settings : ClientSettings :=
      { endpoint := "https://items.test:8443", credentials := .bearer "t", apiVersion := " v1 ",
        application := some "app" }
    let e :=
      ((((((Envelope.new .get "c").withHeader "AUTHORIZATION" "mine").withHeader
        "If-Match" "a").withHeader "authorization" "again").withHeader
        "hOST" "other.test").withHeader "x-request-id" "chosen").withJson .null
    ∃ client next, settings.build = .ok client ∧ e.follow "/v0/c?afterKey=k" = .ok next ∧
      next.Built ∧
      ("Authorization", "Bearer t") ∈ settings.ownHeaders client.endpoint "id" ∧
      (client.request next "id").headers.values "Authorization" = ["Bearer t"] ∧
      (client.request next "id").headers.others ownNames =
      [("If-Match", "a"), ("Content-Type", "application/json")] := by
  intro settings e
  have hendpoint : settings.build.toOption.map Client.endpoint =
      some ⟨⟨"https", some ⟨"", .domain "items.test", some 8443⟩, .segments [""], none, none⟩,
      "/v0"⟩ := by decide +kernel
  obtain ⟨client, hbuild, -⟩ := ClientSettings.exists_of_endpoint hendpoint
  obtain ⟨next, hfollow⟩ : ∃ next, e.follow "/v0/c?afterKey=k" = .ok next := ⟨_, rfl⟩
  have hbuilt : next.Built :=
    .follow _ (.withJson _ (.withHeader _ _ (.withHeader _ _ (.withHeader _ _ (.withHeader _ _
      (.withHeader _ _ (.new .get "c"))))))) hfollow
  have hmem : ("Authorization", "Bearer t") ∈ settings.ownHeaders client.endpoint "id" := by
    simp [ClientSettings.ownHeaders, settings, Credentials.authorization]
  obtain ⟨hvalues, hothers⟩ := request_headers_exact hbuild hbuilt "id"
  refine ⟨client, next, hbuild, hfollow, hbuilt, hmem, hvalues _ hmem, hothers.trans ?_⟩
  rw [Envelope.headers_of_follow hfollow]
  decide

end Client

end ItemStore
