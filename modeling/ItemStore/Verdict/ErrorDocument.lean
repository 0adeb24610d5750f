import ItemStore.Json.Parser

/-!
# Error documents

The JSON object in which a server explains why it refused a request. Every field is optional, and
null counts as absent; a field of the wrong type makes the whole body unreadable.
-/

namespace ItemStore

/-- A server's explanation of an error. -/
structure ErrorDocument where
  code : Option String
  message : Option String
  details : Option Members
  /-- The server's reference to the incident. -/
  locator : Option String
deriving DecidableEq

namespace ErrorDocument

/-- Reads an optional field; none if its value has the wrong type. -/
def field? {α : Type} (read : Json → Option α) (name : String) (ms : Members) : Option (Option α) :=
  match ms.get? name with
  | none | some .null => some none
  | some v => (read v).map some

/-- Reads the members of an object. -/
def ofMembers? (ms : Members) : Option ErrorDocument := do
  return {
    code := ← field? Json.asString? "code" ms
    message := ← field? Json.asString? "message" ms
    details := ← field? Json.asObject? "details" ms
    locator := ← field? Json.asString? "locator" ms }

/-- Reads a body. -/
def ofBytes? (body : ByteArray) : Option ErrorDocument :=
  match Json.ofBytes? body with
  | some (.obj ms) => ofMembers? ms
  | _ => none

/-- The name of the patch operation that the details report. -/
def failedOpName? (d : ErrorDocument) : Option String :=
  ((d.details.bind fun details => details.get? "op").bind (Json.get? "op")).bind Json.asString?

end ErrorDocument

end ItemStore
