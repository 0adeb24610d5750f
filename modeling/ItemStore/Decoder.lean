import ItemStore.Message.Response
import ItemStore.Page

/-!
# Decoders

A decoder turns a successful response into a value. The decoders here read the body as JSON, check
the type that the caller expects, and report a body that does not fit as an invalid response.
-/

namespace ItemStore

/-- Turns a successful response into a value. -/
abbrev Decoder (α : Type) := Response → Except StoreError α

namespace Decoder

/-- What is said of a body that does not have the expected form. -/
def unexpectedBody : String := "unexpected body"

/-- The error for a body that does not have the expected form. -/
def bodyError (r : Response) : StoreError :=
  { kind := .invalidResponse
    message := "failed to decode response body: " ++ unexpectedBody
    status := some r.status
    cause := some unexpectedBody }

/-- Reads the body with a reader that may refuse it. -/
def ofBody {α : Type} (read : ByteArray → Option α) : Decoder α := fun r =>
  match read r.body with
  | some v => .ok v
  | none => .error (bodyError r)

/-- Reads the body as JSON of a type. -/
def typed {α : Type} (read : Json → Option α) : Decoder α :=
  ofBody fun body => (Json.ofBytes? body).bind read

/-- The body as JSON. -/
def json : Decoder Json := typed some

/-- What a decoder gives, or nothing for status 404. -/
def orNone {α : Type} (decode : Decoder α) : Decoder (Option α) := fun r =>
  if r.status = 404 then .ok none else (decode r).map some

/-- An unsigned integer. -/
def nat : Decoder Nat := typed Json.asNat?

/-- A list of signed integers. -/
def intList : Decoder (List Int) :=
  typed fun v => v.asArray?.bind fun items => items.mapM Json.asInt64?

/-- A string. -/
def string : Decoder String := typed Json.asString?

/-- A patch document. One that is JSON but no patch document is an unexpected body too. -/
def patch : Decoder PatchDocument :=
  typed fun v => (PatchDocument.ofJson v).toOption

/-- A page of a listing. -/
def page : Decoder Page := ofBody Page.ofBytes?

/-- Nothing. -/
def empty : Decoder Unit := fun _ => .ok ()

/-- The response itself. -/
def raw : Decoder Response := fun r => .ok r

end Decoder

end ItemStore
