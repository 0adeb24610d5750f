import ItemStore.Error.Basic
import ItemStore.Message.Headers
import ItemStore.Message.StatusSet
import ItemStore.Url.Parser
import ItemStore.Url.Query

/-!
# Envelopes

An envelope describes one operation of a client, before it is addressed to an endpoint: method,
path, query, headers, body, and the statuses that count as a success. `Envelope.follow` makes the
envelope for a link to a further page.
-/

namespace ItemStore

/-- The method of a request. -/
inductive Method where
  | get
  | head
  | put
  | post
  | patch
  | delete
deriving DecidableEq, Repr

/-- The method as it is sent. -/
def Method.text : Method → String
  | .get => "GET"
  | .head => "HEAD"
  | .put => "PUT"
  | .post => "POST"
  | .patch => "PATCH"
  | .delete => "DELETE"

/-- One operation of a client. -/
structure Envelope where
  method : Method
  path : String
  query : List (String × String)
  headers : Headers
  body : Option ByteArray
  success : StatusSet

namespace Envelope

/-! ## Building -/

/-- An envelope with nothing but a method and a path. -/
def new (method : Method) (path : String) : Envelope :=
  ⟨method, path, [], .empty, none, .standard⟩

/-- Adds a query parameter. -/
def withQuery (e : Envelope) (name value : String) : Envelope :=
  { e with query := e.query ++ [(name, value)] }

/-- Sets a header. -/
def withHeader (e : Envelope) (name value : String) : Envelope :=
  { e with headers := e.headers.insert name value }

/-- Sets the body. -/
def withBody (e : Envelope) (body : ByteArray) : Envelope :=
  { e with body := some body }

/-- Sets a JSON body. -/
def withJson (e : Envelope) (v : Json) : Envelope :=
  (e.withBody v.compact.toUTF8).withHeader "Content-Type" "application/json"

/-- Sets a patch document as the body. -/
def withPatch (e : Envelope) (doc : PatchDocument) : Envelope :=
  (e.withBody doc.text.toUTF8).withHeader "Content-Type" "application/json-patch+json"

/-- Counts one more status as a success. -/
def acceptStatus (e : Envelope) (status : Nat) : Envelope :=
  { e with success := e.success.add status }

/-- Sets the statuses that count as a success. -/
def withSuccess (e : Envelope) (success : StatusSet) : Envelope :=
  { e with success }

/-! ## Views -/

/-- The text of the query. -/
def queryString (e : Envelope) : String :=
  Query.encode e.query

/-- The value of a header. -/
def header? (e : Envelope) (name : String) : Option String :=
  e.headers.get? name

/-- Whether a status counts as a success. -/
def accepts (e : Envelope) (status : Nat) : Bool :=
  e.success.contains status

/-! ## Links -/

/-- The place that links are relative to: the root of a host without meaning. -/
def linkBase : Url :=
  ⟨"http", some ⟨"", .domain "link.invalid", none⟩, .segments [""], none, none⟩

/-- The envelope for a link. It reads the place that the link names and keeps headers and success
statuses. -/
def follow (e : Envelope) (link : String) : Except StoreError Envelope :=
  match linkBase.join link with
  | .error cause => .error
    { kind := .invalidArgument
      message := "invalid continuation link " ++ Text.quoted link ++ ": " ++ cause.message }
  | .ok u => .ok { e with method := .get, path := u.path, query := u.queryPairs, body := none }

end Envelope

end ItemStore
