import ItemStore.Error.Kind
import ItemStore.Patch.Failure
import ItemStore.Url.Host

/-!
# Errors

The record in which every failed operation ends: a kind, a message, and whatever else is known about
the failure. `StoreError.ofFailure`, `StoreError.ofUrlError` and the other constructors turn the
causes that the rest of the library distinguishes into such records.
-/

namespace ItemStore

/-- Why an operation failed. -/
structure StoreError where
  kind : ErrorKind
  message : String
  /-- The status of the response. -/
  status : Option Nat := none
  /-- The id of the request. -/
  requestId : Option String := none
  /-- The server's code for the error. -/
  code : Option String := none
  /-- The body of the response. -/
  body : Option ByteArray := none
  /-- The details that the server gave. -/
  details : Option Members := none
  /-- The server's reference to the incident. -/
  locator : Option String := none
  /-- The remark among the details. -/
  info : Option String := none
  /-- The report of the patch operation that failed. -/
  patchFailure : Option PatchFailure := none
  /-- The underlying cause in words. -/
  cause : Option String := none

namespace StoreError

/-- An error of which nothing but the kind is known. -/
def ofKind (kind : ErrorKind) : StoreError := { kind, message := kind.defaultMessage }

/-- An answer that is no success and says no more. -/
def requestFailed (status : Nat) : StoreError :=
  { kind := .requestFailed, message := "request failed with status " ++ toString status,
    status := some status }

/-- Sets the details, and with them the remark if there is one in words. -/
def withDetails (e : StoreError) (details : Members) : StoreError :=
  { e with details := some details, info := (details.get? "info").bind Json.asString? }

/-- Sets the id of the request. -/
def withRequestId (e : StoreError) (id : String) : StoreError :=
  { e with requestId := some id }

/-- Sets the status of the response. -/
def withStatus (e : StoreError) (status : Nat) : StoreError :=
  { e with status := some status }

/-- The error that stands for a patch failure. -/
def ofFailure (f : PatchFailure) : StoreError :=
  withDetails
    { kind := if f.op.isTest then .testAssertionFailed else .patchConflict
      message := f.summary
      code := some "patch_conflict"
      patchFailure := some f }
    f.toDetails

/-- A fault of input or output. -/
inductive IoFault where
  | timedOut
  /-- Any other fault, such as a connection that was reset. -/
  | other
deriving DecidableEq, Repr

/-- The error that stands for a fault of input or output. -/
def ofIo (fault : IoFault) (message : String) : StoreError :=
  { kind := match fault with
      | .timedOut => .timeout
      | .other => .transport
    message
    cause := some message }

/-- The error that stands for a text that is no URL. -/
def ofUrlError (e : UrlError) : StoreError :=
  { kind := .configuration, message := "invalid URL: " ++ e.message, cause := some e.message }

/-- What is said of a text that is no JSON. -/
def malformedJson : String := "malformed text"

/-- The error that stands for a text that is no JSON. -/
def ofMalformedJson : StoreError :=
  { kind := .invalidResponse, message := "JSON error: " ++ malformedJson,
    cause := some malformedJson }

/-- The error that stands for a value that is no patch document. -/
def ofPatchFormat (e : PatchFormatError) : StoreError :=
  { kind := .invalidResponse, message := e.message }

/-- The error that stands for details that hold no report. -/
def ofDetailsError (e : PatchFailure.DetailsError) : StoreError :=
  { kind := .invalidResponse, message := e.message }

/-- The position of the top-level patch operation that failed. -/
def opIndex? (e : StoreError) : Option Nat :=
  e.patchFailure.map PatchFailure.opIndex

/-- The innermost patch operation that failed. -/
def failedOp? (e : StoreError) : Option PatchOp :=
  e.patchFailure.map PatchFailure.failingOp

/-- One line: kind and message, then the status and the id of the request where known. -/
def summary (e : StoreError) : String :=
  e.kind.label ++ ": " ++ e.message
    ++ (match e.status with
      | some status => " (status: " ++ toString status ++ ")"
      | none => "")
    ++ (match e.requestId with
      | some id => " (request_id: " ++ id ++ ")"
      | none => "")

end StoreError

namespace PatchDocument

/-- Reads a document from the bytes of a body. -/
def ofBytes (bytes : ByteArray) : Except StoreError PatchDocument :=
  match Json.ofBytes? bytes with
  | none => .error .ofMalformedJson
  | some v => (ofJson v).mapError .ofPatchFormat

end PatchDocument

end ItemStore
