import ItemStore.Text.Inspect

/-!
# Headers

An ordered list of named values, as requests and responses carry it. Names are compared without
regard to the case of ASCII letters. A list that came over the wire may hold a name more than once;
a look-up gives the first value.
-/

namespace ItemStore

/-- An ordered list of named values. -/
structure Headers where
  entries : List (String × String)
deriving DecidableEq, Repr

namespace Headers

/-- No headers. -/
def empty : Headers := ⟨[]⟩

/-- Sets the value of the first entry of that name; the entry keeps its place and its spelling. -/
def setFirst (name value : String) : List (String × String) → List (String × String)
  | [] => [(name, value)]
  | (n, v) :: rest =>
    if Text.sameName n name then (n, value) :: rest else (n, v) :: setFirst name value rest

/-- Sets a header: the first entry of that name gets the value, and if there is none one is put at
the end. -/
def insert (h : Headers) (name value : String) : Headers :=
  ⟨setFirst name value h.entries⟩

/-- Puts an entry at the end. -/
def append (h : Headers) (name value : String) : Headers :=
  ⟨h.entries ++ [(name, value)]⟩

/-- The first value of a name. -/
def get? (h : Headers) (name : String) : Option String :=
  (h.entries.find? fun (n, _) => Text.sameName n name).map Prod.snd

/-- Whether there is an entry of that name. -/
def contains (h : Headers) (name : String) : Bool :=
  (h.get? name).isSome

/-- Removes every entry of a name. -/
def remove (h : Headers) (name : String) : Headers :=
  ⟨h.entries.filter fun (n, _) => !Text.sameName n name⟩

/-- Collects pairs, each replacing an entry of its name. -/
def ofPairs (pairs : List (String × String)) : Headers :=
  pairs.foldl (fun h (n, v) => h.insert n v) empty

/-- How many entries there are. -/
def size (h : Headers) : Nat :=
  h.entries.length

/-- Inspection text, without the values of authorization. -/
def inspect (h : Headers) : String :=
  Text.mapText (h.entries.map fun (n, v) =>
    (n, if Text.sameName n "authorization" then Text.quoted Text.redacted else Text.quoted v))

end Headers

end ItemStore
