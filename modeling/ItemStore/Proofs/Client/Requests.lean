import ItemStore.Client.Settings
import ItemStore.Proofs.Except
import ItemStore.Proofs.Message.Headers

/-!
# The requests of a client

What a client that was built from settings puts on its requests: it proves its identity by the
credentials, gives the request an id, and leaves the headers of the envelope that are not its own.
-/

namespace ItemStore

namespace StandardHeaders

theorem get?_apply_authorization (s : StandardHeaders) (h : Headers) :
    (s.apply h).get? "Authorization" = some s.authorization := by
  simp [apply]

/-- A header that is not among the standard ones is left as it is. -/
theorem get?_apply_of_other {s : StandardHeaders} {name : String}
    (hentries : ∀ entry ∈ s.entries, Text.sameName entry.1 name = false)
    (hauthorization : Text.sameName "Authorization" name = false) (h : Headers) :
    (s.apply h).get? name = h.get? name := by
  obtain ⟨entries, authorization⟩ := s
  simp only [apply, Headers.get?_insert, hauthorization, Bool.false_eq_true, if_false]
  induction entries generalizing h with
  | nil => rfl
  | cons entry rest ih =>
    obtain ⟨hentry, hrest⟩ := List.forall_mem_cons.mp hentries
    rw [List.foldl_cons, ih _ hrest, Headers.get?_insert, hentry, if_neg Bool.false_ne_true]

end StandardHeaders

namespace ClientSettings

/-- What a client takes from the settings. -/
theorem headers_of_build {settings : ClientSettings} {client : Client}
    (h : settings.build = .ok client) :
    client.headers = .new client.endpoint settings.credentials (Text.trim settings.apiVersion)
      (userAgentFor settings.application) ∧ client.config = settings.pool ∧
      settings.pool.validate = .ok () := by
  unfold build at h
  obtain ⟨endpoint, -, h⟩ := exists_of_bind_eq_ok h
  dsimp only at h
  -- each check either stops the construction or lets it go on
  split at h
  next => cases h
  next =>
    obtain ⟨_, -, h⟩ := exists_of_bind_eq_ok h
    split at h
    next => cases h
    next =>
      obtain ⟨_, hpool, h⟩ := exists_of_bind_eq_ok h
      cases h
      exact ⟨rfl, rfl, hpool⟩

/-- Settings whose construction can be followed up to the endpoint give a client. -/
theorem exists_of_endpoint {settings : ClientSettings} {endpoint : Endpoint}
    (h : settings.build.toOption.map Client.endpoint = some endpoint) :
    ∃ client, settings.build = .ok client ∧ client.endpoint = endpoint := by
  cases hbuild : settings.build with
  | error e =>
    rw [hbuild] at h
    cases h
  | ok client =>
    rw [hbuild] at h
    exact ⟨client, rfl, Option.some.inj h⟩

end ClientSettings

namespace Client

variable {settings : ClientSettings} {client : Client}

theorem get?_request_authorization (h : settings.build = .ok client) (e : Envelope) (id : String) :
    (client.request e id).headers.get? "Authorization" =
      some settings.credentials.authorization := by
  have hother : Text.sameName "X-Request-Id" "Authorization" = false := by decide
  obtain ⟨hheaders, -⟩ := ClientSettings.headers_of_build h
  simp only [request, Headers.get?_insert, hother,
    StandardHeaders.get?_apply_authorization, hheaders]
  rfl

theorem get?_request_id (client : Client) (e : Envelope) (id : String) :
    (client.request e id).headers.get? "X-Request-Id" = some id := by
  simp [request]

/-- The names of the headers that a client sets. -/
def ownNames : List String :=
  ["X-Api-Version", "Host", "User-Agent", "Accept-Encoding", "Authorization", "X-Request-Id"]

/-- The headers of an envelope are sent as they are, except those that the client sets. -/
theorem get?_request_of_other (h : settings.build = .ok client) {name : String}
    (hother : ∀ own ∈ ownNames, Text.sameName own name = false) (e : Envelope) (id : String) :
    (client.request e id).headers.get? name = e.header? name := by
  obtain ⟨hheaders, -⟩ := ClientSettings.headers_of_build h
  simp only [ownNames, List.forall_mem_cons] at hother
  obtain ⟨hversion, hhost, hagent, hencoding, hauthorization, hid, -⟩ := hother
  have hstandard : ∀ entry ∈ client.headers.entries, Text.sameName entry.1 name = false := by
    simp [StandardHeaders.new, *]
  simp only [request, Headers.get?_insert, hid, Bool.false_eq_true, if_false]
  exact StandardHeaders.get?_apply_of_other hstandard hauthorization e.headers

end Client

end ItemStore
