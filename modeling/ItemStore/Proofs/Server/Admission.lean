import ItemStore.Proofs.Client.Requests
import ItemStore.Proofs.Server.Staleness
import ItemStore.Proofs.Text.Base64
import ItemStore.Proofs.Text.Utf8

/-!
# Admission

A server compares the header by which a request proves an identity with the one that follows from
its own API key. Two identities must not share a header for that.

## Main results

- `Credentials.authorization_inj`: credentials with the same header are of the same kind and have
  the same secret;
- `Server.admits_own_key`: a server refuses a client for its identity unless this is the API key of
  the server, whatever was asked for and whatever was asked before.

## Architecture

1. The schemes of the two kinds differ in their second character, and a text in Base64 stands for
   one text only.
2. `Client.Presents` is about the headers of a client. A client that was built has them, by
   `Client.presents_of_build`, and `Client.get?_request_of_presents` says what becomes of them in a
   request.
3. `Server.Reachable.authorization_eq`: a server asks for one and the same header all the time.
4. `Server.status_of_authorized`: a request with this header is not refused for its identity.
-/

namespace ItemStore

namespace Base64

theorem encode_eq (s : String) : encode s = String.ofList (encodeBytes (Text.bytes s)) := by
  rw [encode, Text.bytes_eq_flatMap]

theorem encode_inj {s t : String} : encode s = encode t ↔ s = t := by
  rw [encode_eq, encode_eq, String.ofList_inj, encodeBytes_inj, Text.bytes_inj]

end Base64

/-! ## Credentials -/

namespace Credentials

/-- The schemes of the two kinds differ, so that no token looks like a key. -/
theorem authorization_apiKey_ne_bearer (key token : String) :
    (apiKey key).authorization ≠ (bearer token).authorization := by
  intro h
  have hlist : ("Basic " ++ Base64.encode (key ++ ":")).toList = ("Bearer " ++ token).toList :=
    congrArg String.toList h
  rw [String.toList_append, String.toList_append] at hlist
  -- the second character
  exact absurd (List.cons.inj (List.cons.inj hlist).2).1 (by decide)

/-- Credentials with the same header are the same. -/
theorem authorization_inj {c c' : Credentials} : c.authorization = c'.authorization ↔ c = c' := by
  constructor
  · intro h
    rcases c with key | token <;> rcases c' with key' | token'
    · have hkeys : key ++ ":" = key' ++ ":" :=
        Base64.encode_inj.mp ((String.append_right_inj "Basic ").mp h)
      rw [(String.append_left_inj ":").mp hkeys]
    · exact absurd h (authorization_apiKey_ne_bearer key token')
    · exact absurd h.symm (authorization_apiKey_ne_bearer key' token)
    · rw [(String.append_right_inj "Bearer ").mp h]
  · rintro rfl
    rfl

/-- The header of an API key: the standard encoding of the key as a user name without password. -/
theorem authorization_apiKey (key : String) :
    ∃ text, Base64.Encodes (Text.bytes (key ++ ":")) text ∧
    (apiKey key).authorization = "Basic " ++ String.ofList text := by
  refine ⟨_, Base64.encodes_encodeBytes (Text.bytes (key ++ ":")), ?_⟩
  rw [authorization, Base64.encode_eq]

end Credentials

/-! ## Clients -/

namespace Client

variable {client : Client} {c : Credentials}

/-- The headers of a client follow from these credentials. -/
def Presents (client : Client) (c : Credentials) : Prop :=
  ∃ endpoint version agent, client.headers = .new endpoint c version agent

theorem presents_of_build {settings : ClientSettings} (h : settings.build = .ok client) :
    client.Presents settings.credentials := by
  obtain ⟨hheaders, -⟩ := ClientSettings.headers_of_build h
  exact ⟨_, _, _, hheaders⟩

/-- No envelope puts another authorization in the place of the client's. -/
theorem get?_request_of_presents (h : client.Presents c) (e : Envelope) (id : String) :
    (client.request e id).headers.get? "Authorization" = some c.authorization := by
  obtain ⟨endpoint, version, agent, hheaders⟩ := h
  have hid : Text.sameName "X-Request-Id" "Authorization" = false := by decide
  simp only [request, Headers.get?_insert, hid, Bool.false_eq_true, if_false,
    StandardHeaders.get?_apply_authorization, hheaders]
  rfl

end Client

/-! ## Servers -/

namespace Server

variable {apiKey : String} {s : Server} {request : Request}

/-- A server asks for one and the same header all the time. -/
theorem Reachable.authorization_eq (h : Reachable apiKey s) :
    s.authorization = (Credentials.apiKey apiKey).authorization := by
  induction h with
  | new gzip => rfl
  | withGzip h enabled ih => exact ih
  | call h c ih => exact (call_keeps h.ordered c).2.trans ih

/-- A request with the header that the server asks for is not refused for its identity. -/
theorem status_of_authorized (hordered : s.Ordered)
    (h : request.headers.get? "Authorization" = some s.authorization) (locator : String) :
    (s.handle locator request).1.status ≠ 401 := by
  rw [status_handle]
  have heffect : Effect s request (s.route locator request).1 (s.route locator request).2 :=
    effect_route hordered h
  generalize (s.route locator request).1 = response, (s.route locator request).2 = s' at heffect
  cases heffect with
  | @changed _ change granted confirmed view_eq =>
    cases change with
    | write collection key value =>
      have hstatus : response.status = 201 := confirmed.1
      simp [hstatus]
    | delete collection key =>
      have hstatus : response.status = 204 := confirmed
      simp [hstatus]
  | kept refused status_mem =>
    intro h
    rw [h] at status_mem
    exact absurd status_mem (by decide)

theorem status_ne_iff_of_presents (hreachable : Reachable apiKey s) {client : Client}
    {c : Credentials} (hpresents : client.Presents c) (locator : String) (e : Envelope)
    (id : String) :
    (s.handle locator (client.request e id)).1.status ≠ 401 ↔ c = .apiKey apiKey := by
  have hsent : (client.request e id).headers.get? "Authorization" = some s.authorization ↔
      c = .apiKey apiKey := by
    rw [client.get?_request_of_presents hpresents, hreachable.authorization_eq, Option.some.injEq,
      Credentials.authorization_inj]
  rw [← hsent]
  constructor
  · intro hstatus
    by_cases hsame : (client.request e id).headers.get? "Authorization" = some s.authorization
    · exact hsame
    · exact absurd (unauthorized_handle hsame).1 hstatus
  · intro hsame
    exact status_of_authorized hreachable.ordered hsame locator

/-- **Credentials are told apart.** Two credentials have the same header only if they are of the
same kind and have the same secret. The header of an API key is in standard Base64. So a server that
was made for an API key, in whatever state it is, refuses the requests of a client as unauthorized
unless the client was made for this very key. -/
theorem admits_own_key :
    (∀ c c' : Credentials, c.authorization = c'.authorization ↔ c = c') ∧
      (∀ key, ∃ text, Base64.Encodes (Text.bytes (key ++ ":")) text ∧
        (Credentials.apiKey key).authorization = "Basic " ++ String.ofList text) ∧
      ∀ {apiKey : String} {s : Server} {client : Client} {c : Credentials}, Reachable apiKey s →
      client.Presents c →
        ∀ locator e id, (s.handle locator (client.request e id)).1.status ≠ 401 ↔
          c = .apiKey apiKey :=
  ⟨fun _ _ => Credentials.authorization_inj, Credentials.authorization_apiKey,
    fun hreachable hpresents => status_ne_iff_of_presents hreachable hpresents⟩

/-- The encoded key as a token does not do, nor does an envelope with the right header. -/
theorem admits_own_key_not_token :
    let endpoint : Endpoint :=
      ⟨⟨"https", some ⟨"", .domain "items.test", none⟩, .segments [""], none, none⟩, "/v0"⟩
    let client (c : Credentials) : Client := ⟨endpoint, .new endpoint c "v0" userAgent, {}⟩
    let s := (((Server.new "k" true).call (.insert "c" "a" .null)).2).withGzip false
    let e := (Envelope.new .get "c/a").withHeader "authorization" "Basic azo="
    (Credentials.apiKey "k").authorization = "Basic azo=" ∧
      (s.handle "" ((client (.apiKey "k")).request e "id")).1.status ≠ 401 ∧
      (s.handle "" ((client (.bearer "azo=")).request e "id")).1.status = 401 := by
  intro endpoint client s e
  have hreachable : Reachable "k" s := .withGzip (.call (.new true) _) false
  have hpresents (c : Credentials) : (client c).Presents c := ⟨_, _, _, rfl⟩
  obtain ⟨-, -, hadmits⟩ := admits_own_key
  have hother : Credentials.bearer "azo=" ≠ .apiKey "k" := by decide
  refine ⟨by decide +kernel, (hadmits hreachable (hpresents (.apiKey "k")) "" e "id").mpr rfl, ?_⟩
  exact Decidable.not_not.mp
    (mt (hadmits hreachable (hpresents (.bearer "azo=")) "" e "id").mp hother)

end Server

end ItemStore
