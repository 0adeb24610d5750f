import ItemStore.Assoc
import ItemStore.Json.Basic
import ItemStore.Request.Credentials
import ItemStore.Text.Inspect

/-!
# The store of a server

A server keeps items in collections. Every write of an item gives it a fresh version, taken from a
64-bit counter and written with sixteen hexadecimal digits. A collection that has lost its items is
still known.

- `Server.item?` is the view of the store as a map from addresses to versioned values;
- `Server.write`, which is `Server.takeRef` and then `Server.place`, and `Server.delete` change one
  entry of it.
-/

namespace ItemStore

/-- An item: its value and its version. -/
structure StoredItem where
  value : Json
  ref : String
deriving DecidableEq

/-- The state of a server. -/
structure Server where
  /-- The value of the `Authorization` header that it accepts. -/
  authorization : String
  /-- Whether it compresses the bodies of its answers. -/
  gzip : Bool
  collections : Assoc (Assoc StoredItem)
  /-- The number of the next version. It starts again at zero behind the greatest one. -/
  nextRef : UInt64
deriving DecidableEq

namespace Server

/-- A server without items that accepts an API key. -/
def new (apiKey : String) (gzip : Bool) : Server :=
  ⟨(Credentials.apiKey apiKey).authorization, gzip, [], 1⟩

/-- The items of a collection. -/
def itemsOf (s : Server) (collection : String) : Assoc StoredItem :=
  (Assoc.get? collection s.collections).getD []

/-- The item at an address. -/
def item? (s : Server) (collection key : String) : Option StoredItem :=
  Assoc.get? key (s.itemsOf collection)

/-- The text of a version's number. -/
def refText (n : UInt64) : String :=
  let digits := Text.hexDigits n.toNat
  String.ofList (List.replicate (16 - digits.length) '0') ++ digits

/-- Takes the next version from the counter. -/
def takeRef (s : Server) : Server × String :=
  ({ s with nextRef := s.nextRef + 1 }, refText s.nextRef)

/-- Puts an item at an address. -/
def place (s : Server) (collection key : String) (item : StoredItem) : Server :=
  { s with collections :=
    Assoc.insert collection (Assoc.insert key item (s.itemsOf collection)) s.collections }

/-- Writes an item and gives it a fresh version, which is returned. -/
def write (s : Server) (collection key : String) (value : Json) : Server × String :=
  let (s', ref) := s.takeRef
  (s'.place collection key ⟨value, ref⟩, ref)

/-- Deletes the item at an address, if there is one. -/
def delete (s : Server) (collection key : String) : Server :=
  match Assoc.get? collection s.collections with
  | some items =>
    { s with collections := Assoc.set collection (Assoc.erase key items) s.collections }
  | none => s

/-- How many items a collection has. -/
def size (s : Server) (collection : String) : Nat :=
  (s.itemsOf collection).length

/-- Inspection text. -/
def inspect (s : Server) : String :=
  Text.record "InMemoryServer" [("collections", toString s.collections.length)] false

end Server

end ItemStore
