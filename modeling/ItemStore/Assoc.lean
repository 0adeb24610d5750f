/-!
# Association lists

Finite maps from strings, as lists of pairs in the order of their keys. The operations make sense on
every list of pairs; on a list whose keys strictly increase they keep that order. The order of
strings is that of their code points, which is also the order of their UTF-8 bytes.
-/

namespace ItemStore

/-- A finite map from strings. -/
abbrev Assoc (α : Type) := List (String × α)

namespace Assoc

variable {α : Type}

/-- The value under a key. -/
def get? (key : String) : Assoc α → Option α
  | [] => none
  | (k, v) :: rest => if k = key then some v else get? key rest

/-- Sets the value under a key, at the place where the order puts it. -/
def insert (key : String) (value : α) : Assoc α → Assoc α
  | [] => [(key, value)]
  | (k, v) :: rest =>
    if k < key then (k, v) :: insert key value rest
    else if k = key then (key, value) :: rest
    else (key, value) :: (k, v) :: rest

/-- Removes the value under a key. -/
def erase (key : String) : Assoc α → Assoc α
  | [] => []
  | (k, v) :: rest => if k = key then rest else (k, v) :: erase key rest

/-- Overwrites the value of a key that is present, in its place. -/
def set (key : String) (value : α) : Assoc α → Assoc α
  | [] => []
  | (k, v) :: rest => if k = key then (k, value) :: rest else (k, v) :: set key value rest

/-- The map that a list of pairs describes; of two pairs with one key the later counts. -/
def ofPairs (pairs : List (String × α)) : Assoc α :=
  pairs.foldl (fun m (k, v) => insert k v m) []

/-- The keys. -/
def keys (m : Assoc α) : List String :=
  m.map Prod.fst

/-- Whether the keys strictly increase. -/
def Sorted (m : Assoc α) : Prop :=
  (keys m).Pairwise (· < ·)

end Assoc

end ItemStore
