import ItemStore.Json.Parser
import ItemStore.Json.Printer
import ItemStore.Patch.Basic
import ItemStore.Text.Inspect

/-!
# The JSON form of patch documents

An operation is an object whose member `op` names it. `PatchOp.toJson` and `PatchOp.ofJson`
translate between operations and objects, `PatchDocument.toJson` and `PatchDocument.ofJson` between
documents and arrays. Flags are written only when set, and a test without a value is a test for
presence.
-/

namespace ItemStore

/-- Why a value is no patch document. -/
inductive PatchFormatError where
  | operationNotObject
  | opMissing
  | valueMissing (op : String)
  | amountNotNumber
  | unknownOp (name : String)
  | stringMissing (field : String)
  | flagNotBoolean (field : String)
  | documentNotArray
deriving DecidableEq, Repr

/-- The wording of the error. -/
def PatchFormatError.message : PatchFormatError → String
  | .operationNotObject => malformed "operation is not an object"
  | .opMissing => malformed "missing \"op\""
  | .valueMissing op => malformed ("\"" ++ op ++ "\" requires \"value\"")
  | .amountNotNumber => malformed "\"inc\" value must be a number"
  | .unknownOp name => malformed ("unknown op " ++ Text.quoted name)
  | .stringMissing field => malformed ("missing string field " ++ Text.quoted field)
  | .flagNotBoolean field => malformed (Text.quoted field ++ " must be a boolean")
  | .documentNotArray => "patch document is not an array"
where
  malformed (what : String) : String := "malformed patch operation: " ++ what

/-! ## Writing -/

namespace PatchOp

mutual

/-- The object that stands for an operation. -/
def toJson : PatchOp → Json
  | .add path value => .ofPairs [("op", .str "add"), ("path", .str path), ("value", value)]
  | .remove path => .ofPairs [("op", .str "remove"), ("path", .str path)]
  | .replace path value => .ofPairs [("op", .str "replace"), ("path", .str path), ("value", value)]
  | .move source path => .ofPairs [("op", .str "move"), ("from", .str source), ("path", .str path)]
  | .copy source path => .ofPairs [("op", .str "copy"), ("from", .str source), ("path", .str path)]
  | .inc path none => .ofPairs [("op", .str "inc"), ("path", .str path)]
  | .inc path (some amount) =>
    .ofPairs [("op", .str "inc"), ("path", .str path), ("value", .num amount)]
  | .init path value => .ofPairs [("op", .str "init"), ("path", .str path), ("value", value)]
  | .merge path value => .ofPairs [("op", .str "merge"), ("path", .str path), ("value", value)]
  | .test path expected negate =>
    .ofPairs ([("op", .str "test"), ("path", .str path)]
      ++ (match expected with
        | .present => []
        | .equals value => [("value", value)])
      ++ (if negate then [("negate", .bool true)] else []))
  | .patch path ops conditional =>
    .ofPairs ([("op", .str "patch"), ("path", .str path), ("value", .arr (toJsonAll ops))]
      ++ (if conditional then [("conditional", .bool true)] else []))

/-- The objects that stand for a list of operations. -/
def toJsonAll : List PatchOp → List Json
  | [] => []
  | op :: rest => op.toJson :: toJsonAll rest

end

/-! ## Reading -/

/-- A member that must be a string. -/
def stringField (field : String) (ms : Members) : Except PatchFormatError String :=
  match (ms.get? field).bind Json.asString? with
  | some s => .ok s
  | none => .error (.stringMissing field)

/-- A member that must be a boolean, null or absent. -/
def flagField (field : String) (ms : Members) : Except PatchFormatError Bool :=
  match ms.get? field with
  | none | some .null => .ok false
  | some (.bool b) => .ok b
  | some _ => .error (.flagNotBoolean field)

/-- The member `value`, which the operation requires. -/
def valueField (op : String) (ms : Members) : Except PatchFormatError Json :=
  match ms.get? "value" with
  | some value => .ok value
  | none => .error (.valueMissing op)

/-- The value found under a key is smaller than the object. -/
theorem sizeOf_get? {key : String} {v : Json} :
    ∀ {ms : Members}, ms.get? key = some v → sizeOf v < sizeOf ms
  | [], h => by simp [Assoc.get?] at h
  | (k, w) :: rest, h => by
    simp only [Assoc.get?] at h
    split at h
    · cases h; simp; omega
    · have := sizeOf_get? h; simp; omega

mutual

/-- Reads an operation. Unknown members are ignored. -/
def ofJson (v : Json) : Except PatchFormatError PatchOp :=
  match v with
  | .obj ms =>
    match (Assoc.get? "op" ms).bind Json.asString? with
    | none => .error .opMissing
    | some name =>
      if name = "add" then do return .add (← stringField "path" ms) (← valueField name ms)
      else if name = "remove" then do return .remove (← stringField "path" ms)
      else if name = "replace" then do
        return .replace (← stringField "path" ms) (← valueField name ms)
      else if name = "move" then do return .move (← stringField "from" ms) (← stringField "path" ms)
      else if name = "copy" then do return .copy (← stringField "from" ms) (← stringField "path" ms)
      else if name = "inc" then do
        let path ← stringField "path" ms
        match Assoc.get? "value" ms with
        | none | some .null => return .inc path none
        | some (.num amount) => return .inc path (some amount)
        | some _ => .error .amountNotNumber
      else if name = "init" then do return .init (← stringField "path" ms) (← valueField name ms)
      else if name = "merge" then do return .merge (← stringField "path" ms) (← valueField name ms)
      else if name = "test" then do
        let path ← stringField "path" ms
        let expected := match Assoc.get? "value" ms with
          | some value => Expectation.equals value
          | none => .present
        return .test path expected (← flagField "negate" ms)
      else if name = "patch" then do
        let path ← stringField "path" ms
        match h : Assoc.get? "value" ms with
        | none => .error (.valueMissing name)
        | some (.arr items) =>
          have := sizeOf_get? h
          let ops ← ofJsonAll items
          return .patch path ops (← flagField "conditional" ms)
        | some _ => .error .documentNotArray
      else .error (.unknownOp name)
  | _ => .error .operationNotObject
termination_by sizeOf v
decreasing_by simp at this ⊢; omega

/-- Reads a list of operations, up to the first that cannot be read. -/
def ofJsonAll (items : List Json) : Except PatchFormatError (List PatchOp) :=
  match items with
  | [] => .ok []
  | v :: rest => do return (← ofJson v) :: (← ofJsonAll rest)
termination_by sizeOf items

end

end PatchOp

namespace PatchDocument

/-- The array that stands for a document. -/
def toJson (doc : PatchDocument) : Json :=
  .arr (PatchOp.toJsonAll doc)

/-- Reads a document. -/
def ofJson : Json → Except PatchFormatError PatchDocument
  | .arr items => PatchOp.ofJsonAll items
  | _ => .error .documentNotArray

/-- The compact text of a document. -/
def text (doc : PatchDocument) : String :=
  (toJson doc).compact

end PatchDocument

end ItemStore
