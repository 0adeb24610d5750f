import ItemStore.Patch.Codec

/-!
# Failure reports

A `PatchFailure` says which operation of a patch document could not be applied: the position of a
top-level operation, the positions that lead on into nested patches, what a failing test found, and
a remark. Servers send it as the details of an error; `PatchFailure.toDetails` and
`PatchFailure.ofDetails` translate.
-/

namespace ItemStore

/-- The report of an operation that could not be applied. -/
structure PatchFailure where
  /-- The position of the top-level operation. -/
  opIndex : Nat
  /-- The top-level operation. -/
  op : PatchOp
  /-- The positions that lead from there to the failing operation. -/
  nestedPath : List Nat
  /-- What the place of a failing test held. -/
  actual : Option Json
  /-- A remark on the cause. -/
  info : String

namespace PatchFailure

/-- The innermost operation that failed. -/
def failingOp (f : PatchFailure) : PatchOp :=
  f.op.descend f.nestedPath

/-- Whether the innermost failing operation is a test. -/
def isAssertion (f : PatchFailure) : Bool :=
  f.failingOp.isTest

/-- The value that a failing test expected. -/
def expected (f : PatchFailure) : Option Json :=
  match f.failingOp with
  | .test _ expected _ => expected.value?
  | _ => none

/-- The positions from the top of the document to the failing operation. -/
def address (f : PatchFailure) : List Nat :=
  f.opIndex :: f.nestedPath

/-- Equality up to the equality of documents. -/
def same (f g : PatchFailure) : Bool :=
  f.opIndex == g.opIndex && f.op.same g.op && f.nestedPath == g.nestedPath && f.info == g.info
    && match f.actual, g.actual with
      | none, none => true
      | some a, some b => a.same b
      | _, _ => false

/-- One line: the address, the failing operation with its path, and the remark if there is one. -/
def summary (f : PatchFailure) : String :=
  let op := f.failingOp
  "operation " ++ toString f.opIndex ++ String.join (f.nestedPath.map fun i => "." ++ toString i)
    ++ " (" ++ op.name ++ " " ++ op.path ++ ")" ++ (if f.info = "" then "" else ": " ++ f.info)

/-! ## Details -/

/-- Why details hold no report. -/
inductive DetailsError where
  | opIndexInvalid
  | opMissing
  | op (e : PatchFormatError)
  | nestedPathEntry
  | nestedPathNotArray
deriving DecidableEq, Repr

/-- The wording of the error. -/
def DetailsError.message : DetailsError → String
  | .opIndexInvalid => "patch failure without a valid opIndex"
  | .opMissing => "patch failure without an op"
  | .op e => e.message
  | .nestedPathEntry => "invalid nestedPath entry"
  | .nestedPathNotArray => "nestedPath must be an array"

/-- The details that stand for a report. Positions below the top level and the value found are left
out where there are none. -/
def toDetails (f : PatchFailure) : Members :=
  Assoc.ofPairs ([("opIndex", .ofNat f.opIndex), ("op", f.op.toJson), ("info", .str f.info)]
    ++ (if f.nestedPath.isEmpty then [] else [("nestedPath", .arr (f.nestedPath.map Json.ofNat))])
    ++ (match f.actual with
      | none => []
      | some v => [("actual", v)]))

/-- Reads the positions below the top level. -/
def nestedPathOf : Option Json → Except DetailsError (List Nat)
  | none | some .null => .ok []
  | some (.arr items) => items.mapM fun item =>
    match item.asNat? with
    | some n => .ok n
    | none => .error .nestedPathEntry
  | some _ => .error .nestedPathNotArray

/-- Reads the operation. -/
def opOf : Option Json → Except DetailsError PatchOp
  | none => .error .opMissing
  | some v => (PatchOp.ofJson v).mapError .op

/-- Reads a report. A remark that is no string counts as empty. -/
def ofDetails (details : Members) : Except DetailsError PatchFailure := do
  let opIndex ← match (details.get? "opIndex").bind Json.asNat? with
    | some n => Except.ok n
    | none => .error .opIndexInvalid
  let op ← opOf (details.get? "op")
  let nestedPath ← nestedPathOf (details.get? "nestedPath")
  return {
    opIndex, op, nestedPath
    actual := details.get? "actual"
    info := ((details.get? "info").bind Json.asString?).getD "" }

end PatchFailure

end ItemStore
