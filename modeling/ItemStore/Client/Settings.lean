import ItemStore.Client.Basic

/-!
# Settings of clients

The settings from which a client is built, directly or from the environment, and the order in which
they are checked.
-/

namespace ItemStore

/-- What a client is built from. -/
structure ClientSettings where
  /-- The address of the service. -/
  endpoint : String
  credentials : Credentials
  pool : PoolConfig := {}
  apiVersion : String := StandardHeaders.defaultApiVersion
  /-- The path under which every request goes, if it is not that of the address. -/
  basePath : Option String := none
  /-- The name of the application. -/
  application : Option String := none
  /-- Whether a connection may be unsecured. -/
  insecure : Bool := false

namespace ClientSettings

/-- An error in the settings. -/
def invalid (message : String) : StoreError :=
  { kind := .configuration, message }

/-- The endpoint that the settings name. -/
def endpoint? (s : ClientSettings) : Except StoreError Endpoint :=
  match Endpoint.parse s.endpoint with
  | .error e => .error (invalid ("invalid endpoint: " ++ e.message))
  | .ok e => .ok (match s.basePath with
    | some path => e.withBasePath path
    | none => e)

/-- Builds a client. The first fault is reported: of the endpoint, its security, the credentials,
the version, or the limits of the pool. -/
def build (s : ClientSettings) : Except StoreError Client := do
  let endpoint ← s.endpoint?
  if !endpoint.isSecure && !s.insecure then
    throw (invalid "HTTPS is required. Use .insecure() for development with HTTP.")
  s.credentials.validate
  if Text.isAllBlank s.apiVersion then
    throw (invalid "API version cannot be empty")
  let headers := StandardHeaders.new endpoint s.credentials (Text.trim s.apiVersion)
    (userAgentFor s.application)
  s.pool.validate
  return ⟨endpoint, headers, s.pool⟩

/-! ## Environment -/

/-- The name of the variable that holds the endpoint. -/
def endpointVariable : String := "DOCSTORE_ENDPOINT"

/-- The name of the variable that holds the API key. -/
def apiKeyVariable : String := "DOCSTORE_API_KEY"

/-- The value of a variable; a blank one counts as unset. -/
def given? (name : String) (value : Option String) : Except StoreError String :=
  match value with
  | some text => if Text.isAllBlank text then .error (invalid (name ++ " is not set")) else .ok text
  | none => .error (invalid (name ++ " is not set"))

/-- The settings that two variables of the environment give. -/
def ofEnvironment (endpoint apiKey : Option String) : Except StoreError ClientSettings := do
  let endpoint ← given? endpointVariable endpoint
  let apiKey ← given? apiKeyVariable apiKey
  return { endpoint, credentials := .apiKey apiKey }

end ClientSettings

end ItemStore
