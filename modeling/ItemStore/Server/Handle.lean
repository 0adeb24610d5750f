import ItemStore.Message.Request
import ItemStore.Message.Response
import ItemStore.Patch.Apply
import ItemStore.Server.State

/-!
# Answering requests

`Server.handle` answers one request: items can be read, written under conditions, patched and
deleted under `/v0/collection/key`, and the items of a collection listed in pages under
`/v0/collection`. An error is explained by a document whose `locator`, a reference to the incident,
is a parameter here.
-/

namespace ItemStore.Server

/-! ## Answers -/

/-- An answer that explains an error. -/
def errorResponse (locator : String) (status : Nat) (code message : String) : Response :=
  .ofJson status
    (.ofPairs [("code", .str code), ("message", .str message), ("locator", .str locator)])

/-- The prefix of all addresses. -/
def root : String := "/v0"

/-- The address of a version of an item. -/
def locationOf (collection key ref : String) : String :=
  root ++ "/" ++ Percent.encode collection ++ "/" ++ Percent.encode key ++ "/refs/" ++ ref

/-- A version as an entity tag. -/
def entityTag (ref : String) : String :=
  "\"" ++ ref ++ "\""

/-- The answer to a write. -/
def written (collection key ref : String) : Response :=
  ((⟨201, .empty, .empty⟩ : Response).withHeader "ETag" (entityTag ref)).withHeader "Location"
    (locationOf collection key ref)

/-- The answer about an item that is not there. -/
def notFound (locator collection key : String) : Response :=
  errorResponse locator 404 "items_not_found"
    ("the item at " ++ collection ++ "/" ++ key ++ " does not exist")

/-- The answer to a request without a body where one is needed. -/
def missingBody (locator : String) : Response :=
  errorResponse locator 400 "api_bad_request" "missing request body"

/-! ## Conditions -/

/-- The version that a condition names. -/
def conditionRef (value : String) : String :=
  Text.trimWhere (· = '"') (Text.trim value)

/-- Checks the conditions of a write against the current item: `If-Match` names the version that it
must have, and `If-None-Match: *` asks that there is none. The answer is given if a condition
fails. -/
def precondition (locator : String) (headers : Headers) (current : Option StoredItem) :
    Option Response :=
  let stale : Bool := match headers.get? "If-Match" with
    | some value => current.map StoredItem.ref != some (conditionRef value)
    | none => false
  if stale then
    some (errorResponse locator 409 "item_version_mismatch"
      "the version of the item does not match")
  else if (headers.get? "If-None-Match").map Text.trim = some "*" ∧ current.isSome then
    some (errorResponse locator 409 "item_already_present" "the item is already present")
  else none

/-! ## Operations -/

/-- Reads an item. -/
def read (s : Server) (locator collection key : String) : Response :=
  match s.item? collection key with
  | some item =>
    ((Response.ofJson 200 item.value).withHeader "ETag" (entityTag item.ref)).withHeader
      "Content-Location" (locationOf collection key item.ref)
  | none => notFound locator collection key

/-- Writes an item and answers. -/
def store (s : Server) (collection key : String) (value : Json) : Response × Server :=
  let (s', ref) := s.write collection key value
  (written collection key ref, s')

/-- Writes the body as an item. -/
def put (s : Server) (locator : String) (request : Request) (collection key : String) :
    Response × Server :=
  match request.body with
  | none => (missingBody locator, s)
  | some body =>
    match Json.ofBytes? body with
    | none =>
      (errorResponse locator 400 "api_bad_request" ("invalid JSON: " ++ StoreError.malformedJson),
        s)
    | some value =>
      match precondition locator request.headers (s.item? collection key) with
      | some refusal => (refusal, s)
      | none => s.store collection key value

/-- The answer to a patch that cannot be applied. -/
def conflict (f : PatchFailure) : Response :=
  .ofJson 409
    (.ofPairs [("code", .str "patch_conflict"), ("message", .str f.summary),
      ("details", .obj f.toDetails)])

/-- Applies the body, a patch document, to an item. -/
def patch (s : Server) (locator : String) (request : Request) (collection key : String) :
    Response × Server :=
  match request.body with
  | none => (missingBody locator, s)
  | some body =>
    match PatchDocument.ofBytes body with
    | .error e => (errorResponse locator 400 "api_bad_request" e.message, s)
    | .ok doc =>
      match s.item? collection key with
      | none => (notFound locator collection key, s)
      | some item =>
        match precondition locator request.headers (some item) with
        | some refusal => (refusal, s)
        | none =>
          match PatchDocument.apply doc item.value with
          | .error f => (conflict f, s)
          | .ok value => s.store collection key value

/-! ## Listings -/

/-- How many items a page has by default. -/
def defaultLimit : Nat := 10

/-- Reads a page size, from 1 to 100; a plus sign may precede it. -/
def limit? (text : String) : Option Nat :=
  let digits := match text.toList with
    | '+' :: rest => rest
    | cs => cs
  if digits.isEmpty || !digits.all Char.isDigit then none
  else
    let n := Pointer.natOfDigits digits
    if 1 ≤ n ∧ n ≤ 100 then some n else none

/-- What a listing asks for: the page size, and the key behind which the page starts. -/
structure Window where
  limit : Nat
  after : Option String
deriving DecidableEq, Repr

/-- Reads the parameters of a listing; none if a page size is invalid. Of several the last
counts. -/
def window? (query : List (String × String)) : Option Window :=
  query.foldlM (fun w (name, value) =>
    if name = "limit" then (limit? value).map fun n => { w with limit := n }
    else if name = "afterKey" then some { w with after := some value }
    else some w) ⟨defaultLimit, none⟩

/-- The items of a collection behind a key, in the order of their keys. -/
def itemsAfter (s : Server) (collection : String) (after : Option String) : Assoc StoredItem :=
  (s.itemsOf collection).filter fun (key, _) => match after with
    | some a => a < key
    | none => true

/-- An item in a listing. -/
def listed (collection key : String) (item : StoredItem) : Json :=
  .ofPairs [
    ("path", .ofPairs [("collection", .str collection), ("key", .str key), ("ref", .str item.ref)]),
    ("value", item.value)]

/-- The link to the page behind a key. -/
def nextLink (collection : String) (limit : Nat) (last : String) : String :=
  root ++ "/" ++ Percent.encode collection ++ "?limit=" ++ toString limit ++ "&afterKey=" ++
    Percent.encode last

/-- A page of a collection. -/
def listing (s : Server) (collection : String) (w : Window) : Json :=
  let items := s.itemsAfter collection w.after
  let shown := items.take w.limit
  let results := shown.map fun (key, item) => listed collection key item
  let next := match shown.getLast? with
    | some (last, _) =>
      -- a link only if the page does not reach the end
      if w.limit < items.length then [("next", Json.str (nextLink collection w.limit last))] else []
    | none => []
  .ofPairs ([("count", .ofNat shown.length), ("results", .arr results)] ++ next)

/-- Lists the page of a collection that a request asks for. -/
def list (s : Server) (locator : String) (request : Request) (collection : String) : Response :=
  match window? request.url.queryPairs with
  | none => errorResponse locator 400 "api_bad_request" "limit must be between 1 and 100"
  | some w => .ofJson 200 (s.listing collection w)

/-! ## Routing -/

/-- The segments of a path below the root; none if the path does not start with it. A segment that
cannot be decoded counts as it is. -/
def segments? (path : String) : Option (List String) :=
  (Text.dropLiteral? root path).map fun rest =>
    (((Text.split '/' rest).filter fun segment => segment ≠ "").map fun segment =>
      (Percent.decode? segment).getD segment)

/-- Answers a request before the headers that all answers share. -/
def route (s : Server) (locator : String) (request : Request) : Response × Server :=
  if request.headers.get? "Authorization" ≠ some s.authorization then (.ofJson 401 (.obj []), s)
  else match segments? request.url.path with
    | none => (errorResponse locator 404 "api_not_found" "unknown path", s)
    | some segments =>
      match request.method, segments with
      | .get, [collection] => (s.list locator request collection, s)
      | .get, [collection, key] => (s.read locator collection key, s)
      | .put, [collection, key] => s.put locator request collection key
      | .patch, [collection, key] => s.patch locator request collection key
      | .delete, [collection, key] => (⟨204, .empty, .empty⟩, s.delete collection key)
      | _, [_] | _, [_, _] =>
        (errorResponse locator 405 "api_method_not_allowed" "method not allowed", s)
      | _, _ => (errorResponse locator 404 "api_not_found" "unknown path", s)

/-- Whether a request accepts compressed answers. -/
def acceptsGzip (request : Request) : Bool :=
  match request.headers.get? "Accept-Encoding" with
  | some value => Text.hasLiteral "gzip".toList value.toList
  | none => false

/-- An answer with its body compressed, unless it has none. -/
def compressed (r : Response) : Response :=
  if r.body.isEmpty then r
  else ⟨r.status, (r.headers.insert "Content-Encoding" "gzip").remove "Content-Length",
    (Gzip.pack r.body.data.toList).toByteArray⟩

/-- Answers a request. The id of the request is given back, and the body is compressed if both sides
do that. -/
def handle (s : Server) (locator : String) (request : Request) : Response × Server :=
  let (r, s') := s.route locator request
  let r := match request.headers.get? "X-Request-Id" with
    | some id => r.withHeader "X-Request-Id" id
    | none => r
  (if acceptsGzip request && s.gzip then compressed r else r, s')

end ItemStore.Server
