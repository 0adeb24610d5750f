import ItemStore.Message.Headers
import ItemStore.Request.Credentials
import ItemStore.Request.Endpoint

/-!
# Standard headers

The headers that a client puts on every request. They replace what an envelope says under the same
names.
-/

namespace ItemStore

/-- The text by which a client introduces itself. -/
def userAgent : String := "docstore-rust/0.1.0 (rust/1.92; linux/x86_64)"

/-- The same with the name of an application behind it, unless that is blank. -/
def userAgentFor (application : Option String) : String :=
  match application with
  | some name => if Text.isAllBlank name then userAgent else userAgent ++ " " ++ Text.trim name
  | none => userAgent

/-- The headers of every request of a client. -/
structure StandardHeaders where
  entries : List (String × String)
  authorization : String
deriving DecidableEq

namespace StandardHeaders

/-- The version of the interface that clients ask for by default. -/
def defaultApiVersion : String := "v0"

/-- The headers that follow from a client's settings. -/
def new (endpoint : Endpoint) (credentials : Credentials) (apiVersion userAgent : String) :
    StandardHeaders :=
  { entries :=
      [("X-Api-Version", apiVersion), ("Host", endpoint.hostHeader), ("User-Agent", userAgent),
        ("Accept-Encoding", "gzip")]
    authorization := credentials.authorization }

/-- Sets all of them in a list of headers. -/
def apply (s : StandardHeaders) (h : Headers) : Headers :=
  (s.entries.foldl (fun h (n, v) => h.insert n v) h).insert "Authorization" s.authorization

/-- The value of one of them. -/
def get? (s : StandardHeaders) (name : String) : Option String :=
  if Text.sameName name "authorization" then some s.authorization
  else (s.entries.find? fun (n, _) => Text.sameName n name).map Prod.snd

/-- Inspection text, without the secret. -/
def inspect (s : StandardHeaders) : String :=
  Text.mapText (s.entries.map (fun (n, v) => (n, Text.quoted v)) ++
    [("Authorization", Text.quoted Text.redacted)])

end StandardHeaders

end ItemStore
