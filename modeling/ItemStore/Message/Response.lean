import ItemStore.Error.Basic
import ItemStore.Gzip.Member
import ItemStore.Message.Date
import ItemStore.Message.Headers

/-!
# Responses

A response is a status, headers and a body. This module reads what headers say about an item (its
version, its date and its address) and undoes the compression of bodies.
-/

namespace ItemStore

/-- The answer to a request. -/
structure Response where
  status : Nat
  headers : Headers
  body : ByteArray

/-- The address of an item: its collection, its key, and one of its versions. -/
structure ItemPath where
  collection : String
  key : String
  itemRef : Option String
deriving DecidableEq, Repr

namespace ItemPath

/-- Whether a segment names a version of the interface: `v` and digits. -/
def isVersion (segment : List Char) : Bool :=
  match segment with
  | 'v' :: rest => !rest.isEmpty && rest.all Char.isDigit
  | _ => false

/-- The segments of a location that say something: without query and fragment, without empty ones,
and without the version of the interface. -/
def segments (location : String) : List String :=
  let path := location.toList.takeWhile fun c => !(c = '?' || c = '#')
  let parts := (Text.pieces '/' path).filter fun part => !part.isEmpty
  let parts := match parts with
    | first :: rest => if isVersion first then rest else first :: rest
    | [] => []
  parts.map String.ofList

/-- Reads the address in a location, `/v0/collection/key` or `/v0/collection/key/refs/version`. -/
def ofLocation? (location : String) : Option ItemPath :=
  match segments location with
  | [collection, key] => do
    return ⟨← Percent.decode? collection, ← Percent.decode? key, none⟩
  | [collection, key, "refs", itemRef] => do
    return ⟨← Percent.decode? collection, ← Percent.decode? key, some (← Percent.decode? itemRef)⟩
  | _ => none

end ItemPath

namespace Response

/-- A response with a JSON body. -/
def ofJson (status : Nat) (v : Json) : Response :=
  ⟨status, Headers.empty.insert "Content-Type" "application/json", v.compact.toUTF8⟩

/-- Sets a header. -/
def withHeader (r : Response) (name value : String) : Response :=
  { r with headers := r.headers.insert name value }

/-- The value of a header. -/
def header? (r : Response) (name : String) : Option String :=
  r.headers.get? name

/-- The id of the request that this answers, if the server says so. -/
def requestId? (r : Response) : Option String :=
  r.header? "X-Request-Id"

/-! ## Items -/

/-- A text without the quotes around it, if it has both. -/
def unquote (s : String) : String :=
  match s.toList with
  | '"' :: rest => if rest.getLast? = some '"' then String.ofList rest.dropLast else s
  | _ => s

/-- The version in an entity tag, weak or strong. -/
def tagRef (tag : String) : String :=
  let tag := Text.trim tag
  unquote ((Text.dropLiteral? "W/" tag).getD tag)

/-- The version that the response is about. -/
def etagRef? (r : Response) : Option String :=
  (r.header? "ETag").bind fun tag => if tagRef tag = "" then none else some (tagRef tag)

/-- The date of the last change. -/
def lastModified? (r : Response) : Option Instant :=
  (r.header? "Last-Modified").bind fun value => Instant.ofMail? (Text.trim value)

/-- The location that the response points to. -/
def location? (r : Response) : Option String :=
  r.header? "Location"

/-- The item at that location. -/
def itemPath? (r : Response) : Option ItemPath :=
  r.location?.bind ItemPath.ofLocation?

/-! ## Compression -/

/-- Whether the body is compressed. -/
def isCompressed (r : Response) : Bool :=
  match r.header? "Content-Encoding" with
  | some encoding => Text.sameName (Text.trim encoding) "gzip" && !r.body.isEmpty
  | none => false

/-- What is said of a body that cannot be decompressed. -/
def corruptBody : String := "corrupt data"

/-- The response with its body decompressed, and without the headers that describe the compressed
body. -/
def decompressed (r : Response) : Except StoreError Response :=
  if !r.isCompressed then .ok r
  else match Gzip.unpack? r.body.data.toList with
    | some content =>
      .ok ⟨r.status, (r.headers.remove "Content-Encoding").remove "Content-Length",
        content.toByteArray⟩
    | none => .error
      { kind := .invalidResponse
        message := "failed to decompress body: " ++ corruptBody
        status := some r.status
        cause := some corruptBody }

end Response

end ItemStore
