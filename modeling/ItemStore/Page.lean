import ItemStore.Json.Parser
import ItemStore.Json.Printer

/-!
# Pages of listings

A listing comes in pages, each with links to its neighbours. A page is written as an object, fields
without a value left out, and can also be read from an array of its fields.
-/

namespace ItemStore

/-- Values that may link to a further page. -/
class Paginated (α : Type) where
  /-- The link to the next page. -/
  nextLink : α → Option String

/-- One page of a listing. -/
structure Page where
  /-- How many results the page has. -/
  count : Nat := 0
  /-- How many results there are on all pages. -/
  totalCount : Option Nat := none
  results : List Json := []
  /-- The link to the next page. -/
  next : Option String := none
  /-- The link to the previous page. -/
  prev : Option String := none
deriving DecidableEq

namespace Page

/-- Whether no page follows. -/
def isLast (p : Page) : Bool :=
  p.next.isNone

instance : Paginated Page := ⟨Page.next⟩

/-- The names of the fields. -/
def fields : List String := ["count", "totalCount", "results", "next", "prev"]

/-! ## Reading -/

/-- Reads a field that may be null: none if the value has the wrong type. -/
def nullable? {α : Type} (read : Json → Option α) : Json → Option (Option α)
  | .null => some none
  | v => (read v).map some

/-- Sets a field by name. Unknown names are ignored. -/
def setField? (p : Page) (name : String) (v : Json) : Option Page :=
  match name with
  | "count" => v.asNat?.map fun n => { p with count := n }
  | "totalCount" => (nullable? Json.asNat? v).map fun n => { p with totalCount := n }
  | "results" => v.asArray?.map fun items => { p with results := items }
  | "next" => (nullable? Json.asString? v).map fun s => { p with next := s }
  | "prev" => (nullable? Json.asString? v).map fun s => { p with prev := s }
  | _ => some p

/-- Sets fields in order. -/
def setFields? (p : Page) (pairs : List (String × Json)) : Option Page :=
  pairs.foldlM (fun p (name, v) => p.setField? name v) p

/-- Whether no field is listed twice. -/
def distinctFields (pairs : List (String × Json)) : Bool :=
  fields.all fun name => (pairs.filter fun (n, _) => n = name).length ≤ 1

/-- Reads a page from the members of an object or the elements of an array. -/
def ofJson? : Json → Option Page
  | .obj members => setFields? {} members
  | .arr items => if items.length ≤ fields.length then setFields? {} (fields.zip items) else none
  | _ => none

/-- Reads a page from a text, in which no field may be listed twice. -/
def ofText? (text : String) : Option Page :=
  match Json.membersOf? text with
  | some pairs => if distinctFields pairs then setFields? {} pairs else none
  | none => (Json.parse? text).bind ofJson?

/-- Reads a page from the bytes of a body. -/
def ofBytes? (bytes : ByteArray) : Option Page :=
  (String.fromUTF8? bytes).bind ofText?

/-! ## Writing -/

/-- A field that is left out without a value. -/
def optional (name : String) (v : Option Json) : List String :=
  match v with
  | some v => [Json.quote name ++ ":" ++ v.compact]
  | none => []

/-- The text of a page. -/
def encoded (p : Page) : String :=
  let parts := optional "count" (some (.ofNat p.count)) ++
    optional "totalCount" (p.totalCount.map Json.ofNat)
    ++ optional "results" (some (.arr p.results)) ++ optional "next" (p.next.map Json.str)
    ++ optional "prev" (p.prev.map Json.str)
  "\x7b" ++ ",".intercalate parts ++ "\x7d"

end Page

end ItemStore
