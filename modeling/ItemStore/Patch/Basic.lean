import ItemStore.Json.Basic

/-!
# Patch documents

A patch document is an ordered list of operations on one JSON document. Operations address places by
pointers; a nested patch runs its own operations on the value at its place, with pointers relative
to it.

This module holds the type `PatchOp`, the names and paths of operations, the equality of documents,
and the descent into nested patches along a list of positions.
-/

namespace ItemStore

/-- What a test asks of the value at its place. -/
inductive Expectation where
  /-- That there is a value. -/
  | present
  /-- That the value is this one. -/
  | equals (value : Json)
deriving DecidableEq

namespace Expectation

/-- Whether the expectation holds of what a place addresses, if anything. -/
def holds : Expectation → Option Json → Bool
  | .present, actual => actual.isSome
  | .equals _, none => false
  | .equals expected, some actual => actual.same expected

/-- The expected value, if one was given. -/
def value? : Expectation → Option Json
  | .present => none
  | .equals value => some value

/-- Equality up to the equality of documents. -/
def same : Expectation → Expectation → Bool
  | .present, .present => true
  | .equals a, .equals b => a.same b
  | _, _ => false

end Expectation

/-- An operation of a patch document. -/
inductive PatchOp where
  /-- Adds a value, or replaces the member that is there; in an array it inserts an element. -/
  | add (path : String) (value : Json)
  /-- Removes a value that is there. -/
  | remove (path : String)
  /-- Overwrites a value that is there. -/
  | replace (path : String) (value : Json)
  /-- Removes the value at `source` and adds it at `path`. -/
  | move (source path : String)
  /-- Adds the value at `source` at `path` too. -/
  | copy (source path : String)
  /-- Adds an amount, one by default, to a number. -/
  | inc (path : String) (amount : Option Number)
  /-- Adds a value where there is none. -/
  | init (path : String) (value : Json)
  /-- Merges a value into what is there. -/
  | merge (path : String) (value : Json)
  /-- Asserts something about a place, or with `negate` that it does not hold. -/
  | test (path : String) (expected : Expectation) (negate : Bool)
  /-- Runs a patch document on the value at a place. A `conditional` one is skipped when one of its
  tests fails. -/
  | patch (path : String) (ops : List PatchOp) (conditional : Bool)

/-- An ordered list of operations. -/
abbrev PatchDocument := List PatchOp

namespace PatchOp

/-- The name of the operation. -/
def name : PatchOp → String
  | .add .. => "add"
  | .remove .. => "remove"
  | .replace .. => "replace"
  | .move .. => "move"
  | .copy .. => "copy"
  | .inc .. => "inc"
  | .init .. => "init"
  | .merge .. => "merge"
  | .test .. => "test"
  | .patch .. => "patch"

/-- The place that the operation writes or looks at. -/
def path : PatchOp → String
  | .add path _ | .remove path | .replace path _ | .move _ path | .copy _ path | .inc path _
  | .init path _ | .merge path _ | .test path _ _ | .patch path _ _ => path

/-- Whether the operation is a test. -/
def isTest : PatchOp → Bool
  | .test .. => true
  | _ => false

mutual

/-- Equality up to the equality of documents. -/
def same : PatchOp → PatchOp → Bool
  | .add p v, .add q w => p == q && v.same w
  | .remove p, .remove q => p == q
  | .replace p v, .replace q w => p == q && v.same w
  | .move s p, .move t q => s == t && p == q
  | .copy s p, .copy t q => s == t && p == q
  | .inc p a, .inc q b =>
    p == q && match a, b with
      | none, none => true
      | some a, some b => a.same b
      | _, _ => false
  | .init p v, .init q w => p == q && v.same w
  | .merge p v, .merge q w => p == q && v.same w
  | .test p e m, .test q f n => p == q && e.same f && m == n
  | .patch p ops c, .patch q ops' d => p == q && sameAll ops ops' && c == d
  | _, _ => false

/-- Equality of patch documents, operation by operation. -/
def sameAll : List PatchOp → List PatchOp → Bool
  | [], [] => true
  | a :: as, b :: bs => a.same b && sameAll as bs
  | _, _ => false

end

/-- The operation that a list of positions reaches inside this one, each position taken in the
nested patch reached so far. The descent stops where a position addresses nothing. -/
def descend : PatchOp → List Nat → PatchOp
  | op, [] => op
  | .patch path ops conditional, i :: rest =>
    match ops[i]? with
    | some inner => inner.descend rest
    | none => .patch path ops conditional
  | op, _ :: _ => op

/-- The operation at exactly this list of positions, if there is one. -/
def at? : PatchOp → List Nat → Option PatchOp
  | op, [] => some op
  | .patch _ ops _, i :: rest => (ops[i]?).bind fun inner => inner.at? rest
  | _, _ :: _ => none

end PatchOp

namespace PatchDocument

/-- The operation at a list of positions, the first one in the document itself. -/
def at? (doc : PatchDocument) : List Nat → Option PatchOp
  | [] => none
  | i :: rest => (doc[i]?).bind fun op => op.at? rest

end PatchDocument

end ItemStore
