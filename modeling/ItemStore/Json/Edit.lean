import ItemStore.Json.Basic
import ItemStore.Pointer

/-!
# Places inside a document

Looking up, replacing, adding and removing the value that a list of pointer tokens addresses,
merging, and incrementing numbers. A token selects a member of an object by its key and an element
of an array by its position.

- `Json.at?` looks up and `Json.alterAt` runs a step on the value in place;
- `Json.insertAt` and `Json.removeAt` change the container around the place;
- `Json.merge` is the recursive merge in which null deletes.
-/

namespace ItemStore

namespace Json

/-! ## Lookup and replacement in place -/

/-- The value one token below. -/
def child? (token : String) : Json → Option Json
  | .obj ms => Assoc.get? token ms
  | .arr items => (Pointer.arrayIndex? token items.length).bind fun i => items[i]?
  | _ => none

/-- The value that a list of tokens addresses. -/
def at? : Json → List String → Option Json
  | v, [] => some v
  | v, token :: rest => (v.child? token).bind fun c => c.at? rest

/-- Overwrites the value one token below, which must be there. -/
def setChild (token : String) (value : Json) : Json → Json
  | .obj ms => .obj (Assoc.set token value ms)
  | .arr items =>
    match Pointer.arrayIndex? token items.length with
    | some i => .arr (items.set i value)
    | none => .arr items
  | v => v

/-- Runs a step on the value at a place and puts the outcome there; `missing` is the error if there
is no value. -/
def alterAt {ε : Type} (missing : ε) (step : Json → Except ε Json) :
    List String → Json → Except ε Json
  | [], v => step v
  | token :: rest, v =>
    match v.child? token with
    | none => .error missing
    | some c => (alterAt missing step rest c).map fun c' => setChild token c' v

/-! ## Adding and removing -/

/-- Why a value could not be added or removed. -/
inductive EditError where
  /-- No value stands where the container should be. -/
  | parentMissing (tokens : List String)
  /-- The value there is neither an array nor an object. -/
  | parentNotContainer (tokens : List String)
  /-- The last token is no position at which an element can be inserted. -/
  | invalidIndex (token : String)
  /-- Nothing is there to remove. -/
  | missing (tokens : List String)
  /-- The whole document cannot be removed. -/
  | rootRemoval
deriving DecidableEq, Repr

/-- Adds a value under the last token to the container `v`. In an array the elements from the
position on move up by one, and a dash stands for the position after the last element. -/
def insertInto (tokens : List String) (last : String) (value : Json) : Json → Except EditError Json
  | .obj ms => .ok (.obj (Assoc.insert last value ms))
  | .arr items =>
    if last = "-" then .ok (.arr (items ++ [value]))
    else match Pointer.arrayIndex? last (items.length + 1) with
      | some i => .ok (.arr (items.insertIdx i value))
      | none => .error (.invalidIndex last)
  | _ => .error (.parentNotContainer tokens)

/-- Adds a value at a place, or replaces the document if the place is the whole. -/
def insertAt (tokens : List String) (value : Json) (v : Json) : Except EditError Json :=
  match tokens.getLast? with
  | none => .ok value
  | some last => alterAt (.parentMissing tokens) (insertInto tokens last value) tokens.dropLast v

/-- Removes the value under the last token from the container `v`. -/
def removeFrom (tokens : List String) (last : String) : Json → Except EditError Json
  | .obj ms => if (Assoc.get? last ms).isSome then .ok (.obj (Assoc.erase last ms))
      else .error (.missing tokens)
  | .arr items =>
    match Pointer.arrayIndex? last items.length with
    | some i => .ok (.arr (items.eraseIdx i))
    | none => .error (.missing tokens)
  | _ => .error (.missing tokens)

/-- Removes the value at a place: the removed value and the document without it. -/
def removeAt (tokens : List String) (v : Json) : Except EditError (Json × Json) :=
  match tokens.getLast? with
  | none => .error .rootRemoval
  | some last =>
    match v.at? tokens with
    | none => .error (.missing tokens)
    | some removed =>
      (alterAt (.missing tokens) (removeFrom tokens last) tokens.dropLast v).map fun rest =>
        (removed, rest)

/-! ## Merging -/

mutual

/-- Merges `patch` into `target`: objects merge member by member, null deletes a member, and any
other value replaces the target. -/
def merge (target : Json) : Json → Json
  | .obj entries => .obj (mergeMembers (target.asObject?.getD []) entries)
  | .null => .null
  | .bool b => .bool b
  | .num n => .num n
  | .str s => .str s
  | .arr items => .arr items

/-- Merges the entries of a patch into the members of an object, in order. -/
def mergeMembers (members : Members) : List (String × Json) → Members
  | [] => members
  | (key, value) :: rest =>
    if value.isNull then mergeMembers (members.erase key) rest
    else mergeMembers (members.insert key (merge ((members.get? key).getD .null) value)) rest

end

end Json

/-! ## Incrementing -/

/-- The value as a signed 64-bit integer. -/
def Number.asInt64? : Number → Option Int
  | .int i => if i.val < 0x8000000000000000 then some i.val else none
  | .double _ => none

/-- The sum of two numbers. Signed 64-bit integers are added exactly, and their sum must be one
again; otherwise both are taken as binary64 numbers, and the sum must be finite. -/
def Number.add? (a b : Number) : Option Number :=
  match a.asInt64?, b.asInt64? with
  | some i, some j =>
    if -0x8000000000000000 ≤ i + j ∧ i + j < 0x8000000000000000 then Number.ofInt? (i + j) else none
  | _, _ => (Double.ofFloat? (a.toFloat + b.toFloat)).map .double

end ItemStore
