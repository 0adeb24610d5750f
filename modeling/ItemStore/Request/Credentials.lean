import ItemStore.Error.Basic
import ItemStore.Text.Base64

/-!
# Credentials

What a client proves its identity with, and the value of the `Authorization` header that follows
from it.
-/

namespace ItemStore

/-- What a client proves its identity with. -/
inductive Credentials where
  | apiKey (key : String)
  | bearer (token : String)
deriving DecidableEq

namespace Credentials

/-- The secret. -/
def secret : Credentials → String
  | .apiKey key => key
  | .bearer token => token

/-- The secret's name. -/
def secretName : Credentials → String
  | .apiKey _ => "API key"
  | .bearer _ => "bearer token"

/-- Whether this is an API key. -/
def isApiKey : Credentials → Bool
  | .apiKey _ => true
  | .bearer _ => false

/-- The value of the `Authorization` header. An API key is sent as a user name without password. -/
def authorization : Credentials → String
  | .apiKey key => "Basic " ++ Base64.encode (key ++ ":")
  | .bearer token => "Bearer " ++ token

/-- Refuses a secret that is blank or holds control characters. -/
def validate (c : Credentials) : Except StoreError Unit :=
  if Text.isAllBlank c.secret then
    .error { kind := .configuration, message := c.secretName ++ " cannot be empty" }
  else if c.secret.toList.any Text.isControl then
    .error { kind := .configuration, message := c.secretName ++ " contains control characters" }
  else .ok ()

/-- Inspection text, without the secret. -/
def inspect : Credentials → String
  | .apiKey _ =>
    "ApiKey(" ++ Text.record "ApiKeyConfig" [("key", Text.quoted Text.redacted)] true ++ ")"
  | .bearer _ =>
    "Bearer(" ++ Text.record "BearerCredentialsConfig"
      [("token", Text.quoted Text.redacted)] true ++ ")"

end Credentials

end ItemStore
