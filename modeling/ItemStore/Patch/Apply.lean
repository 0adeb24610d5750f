import ItemStore.Json.Edit
import ItemStore.Patch.Failure

/-!
# Applying patch documents

`PatchDocument.apply` runs the operations of a document in order. Either all of them succeed, or the
outcome is the report of the one that failed and the target keeps its value. The one exception is a
test that fails inside a conditional nested patch: the innermost such patch is skipped, with all
that it has done, and the run goes on behind it.

- `Obstacle` lists the causes for which an operation can fail, and words them.
- `PatchOp.run` and `PatchOp.runAll` are the evaluator; a `Fault` carries the address of the failing
  operation.
-/

namespace ItemStore

/-! ## Causes -/

/-- Why an operation cannot be applied. -/
inductive Obstacle where
  /-- The text is no pointer. -/
  | invalidPath (path : String)
  /-- The pointer addresses nothing. -/
  | absent (path : String)
  /-- A value cannot be added or removed. -/
  | edit (e : Json.EditError)
  /-- The destination of a move lies inside the value that is moved. -/
  | intoOwnChild (source path : String)
  /-- The value to increment is not a number. -/
  | notANumber (path : String)
  /-- The sum is no number that a document can hold. -/
  | outOfRange (path : String)
  /-- A test did not hold of what its place addresses. -/
  | testFailed (path : String) (actual : Option Json)

namespace Obstacle

/-- The wording of the cause. -/
def message : Obstacle → String
  | .invalidPath path => "invalid path " ++ Text.quoted path
  | .absent path => "path " ++ path ++ " does not exist"
  | .edit (.parentMissing tokens) => "parent of " ++ Pointer.plain tokens ++ " does not exist"
  | .edit (.parentNotContainer tokens) =>
    "parent of " ++ Pointer.plain tokens ++ " is not a container"
  | .edit (.invalidIndex token) => "invalid array index " ++ Text.quoted token
  | .edit (.missing tokens) => "path " ++ Pointer.plain tokens ++ " does not exist"
  | .edit .rootRemoval => "cannot remove the document root"
  | .intoOwnChild source path => "cannot move " ++ source ++ " into its own child " ++ path
  | .notANumber path => "value at " ++ path ++ " is not a number"
  | .outOfRange path => "increment at " ++ path ++ " is out of range"
  | .testFailed path _ => "test at " ++ path ++ " did not hold"

/-- Whether the cause is a failed test. -/
def isAssertion : Obstacle → Bool
  | .testFailed .. => true
  | _ => false

/-- What a failed test found. -/
def actual : Obstacle → Option Json
  | .testFailed _ actual => actual
  | _ => none

end Obstacle

/-- A failure on its way up: the positions from the current level down to the failing operation, and
the cause. -/
structure Fault where
  address : List Nat
  cause : Obstacle

namespace PatchOp

/-! ## The evaluator -/

/-- The tokens of a path. -/
def tokensOf (path : String) : Except Obstacle (List String) :=
  match Pointer.parse? path with
  | some tokens => .ok tokens
  | none => .error (.invalidPath path)

/-- The value that tokens address, `path` being their text. -/
def valueAt (path : String) (tokens : List String) (v : Json) : Except Obstacle Json :=
  match v.at? tokens with
  | some found => .ok found
  | none => .error (.absent path)

/-- Adds a value at a path. -/
def addAt (path : String) (value : Json) (v : Json) : Except Obstacle Json := do
  (Json.insertAt (← tokensOf path) value v).mapError .edit

/-- Whether `path` continues `source` by a slash and more. -/
def isBelow (source path : String) : Bool :=
  (source.toList ++ ['/']).isPrefixOf path.toList

/-- Adds the amount to a number. -/
def increment (path : String) (amount : Number) : Json → Except Obstacle Json
  | .num n =>
    match n.add? amount with
    | some sum => .ok (.num sum)
    | none => .error (.outOfRange path)
  | _ => .error (.notANumber path)

/-- Runs an operation other than a nested patch. -/
def runLeaf (v : Json) : PatchOp → Except Obstacle Json
  | .add path value => addAt path value v
  | .remove path => do
    let (_, rest) ← (v.removeAt (← tokensOf path)).mapError .edit
    return rest
  | .replace path value => do
    Json.alterAt (.absent path) (fun _ => .ok value) (← tokensOf path) v
  | .move source path =>
    -- a move onto itself does nothing, even if there is no such place
    if source = path then .ok v
    else if isBelow source path then .error (.intoOwnChild source path)
    else do
      let (value, rest) ← (v.removeAt (← tokensOf source)).mapError .edit
      addAt path value rest
  | .copy source path => do
    let value ← valueAt source (← tokensOf source) v
    addAt path value v
  | .inc path amount => do
    Json.alterAt (.absent path) (increment path (amount.getD .one)) (← tokensOf path) v
  | .init path value => do
    let tokens ← tokensOf path
    if (v.at? tokens).isSome then return v
    (Json.insertAt tokens value v).mapError .edit
  | .merge path value => do
    let tokens ← tokensOf path
    match v.at? tokens with
    | some _ => Json.alterAt (.absent path) (fun old => .ok (old.merge value)) tokens v
    | none => (Json.insertAt tokens (Json.merge .null value) v).mapError .edit
  | .test path expected negate => do
    let actual := v.at? (← tokensOf path)
    if expected.holds actual != negate then return v
    .error (.testFailed path actual)
  -- nested patches are the business of `run`
  | .patch .. => .ok v

mutual

/-- Runs an operation on a document. -/
def run : PatchOp → Json → Except Fault Json
  | .patch path ops conditional, v =>
    match tokensOf path with
    | .error cause => .error ⟨[], cause⟩
    | .ok tokens =>
      match v.at? tokens with
      | none => .error ⟨[], .absent path⟩
      | some scope =>
        match runAll 0 ops scope with
        | .ok scope' => Json.alterAt ⟨[], .absent path⟩ (fun _ => .ok scope') tokens v
        -- the innermost conditional patch absorbs a failed test, and nothing else
        | .error fault => if conditional && fault.cause.isAssertion then .ok v else .error fault
  | op, v => (op.runLeaf v).mapError fun cause => ⟨[], cause⟩

/-- Runs operations in order, the first of them at position `index` of its level. -/
def runAll (index : Nat) : List PatchOp → Json → Except Fault Json
  | [], v => .ok v
  | op :: rest, v =>
    match op.run v with
    | .ok v' => runAll (index + 1) rest v'
    | .error fault => .error ⟨index :: fault.address, fault.cause⟩

end

end PatchOp

namespace PatchDocument

/-- The report of a fault in a document. -/
def failureOf (doc : PatchDocument) (fault : Fault) : PatchFailure :=
  let index := fault.address.head?.getD 0
  { opIndex := index
    op := (doc[index]?).getD (.remove "")
    nestedPath := fault.address.tail
    actual := fault.cause.actual
    info := fault.cause.message }

/-- Applies a document: the new value, or the report of the operation that failed. -/
def apply (doc : PatchDocument) (target : Json) : Except PatchFailure Json :=
  (PatchOp.runAll 0 doc target).mapError (failureOf doc)

/-- Applies a document to a stored value, which keeps its value if an operation fails. -/
def applyTo (doc : PatchDocument) (stored : Json) : Json × Option PatchFailure :=
  match apply doc stored with
  | .ok v => (v, none)
  | .error f => (stored, some f)

end PatchDocument

end ItemStore
