import ItemStore.Message.Response
import ItemStore.Message.StatusSet
import ItemStore.Verdict.ErrorDocument

/-!
# Success or failure

A response is a success if its status is in the set that the request accepts. Otherwise its body,
read as an error document, decides the kind of error: first by the code it gives, then by the
status.
-/

namespace ItemStore

namespace ErrorDocument

/-- The kind of error that a document stands for, given the status of the response. -/
def kind (d : ErrorDocument) (status : Nat) : ErrorKind :=
  match d.code with
  | some "item_version_mismatch" => .versionMismatch
  | some "item_already_present" => .alreadyPresent
  | some "patch_conflict" =>
    if d.failedOpName? = some "test" then .testAssertionFailed else .patchConflict
  | some "api_bad_request" => .badRequest
  | _ => if status = 401 then .invalidCredential else .requestFailed

/-- The report of a failed patch operation among the details, if the code announces one. -/
def patchFailure? (d : ErrorDocument) : Option PatchFailure :=
  if d.code = some "patch_conflict" then
    d.details.bind fun details => (PatchFailure.ofDetails details).toOption
  else none

end ErrorDocument

namespace Response

/-- What every error from a response has: its kind, the given or else a general message, status, id
and body. -/
def baseError (r : Response) (id : String) (kind : ErrorKind) (message : Option String) :
    StoreError :=
  { kind
    message := match message with
      | some message => message
      | none => if kind = .requestFailed then (StoreError.requestFailed r.status).message
          else kind.defaultMessage
    status := some r.status
    requestId := some (r.requestId?.getD id)
    body := some r.body }

/-- The error that a document in the body stands for. -/
def documentError (r : Response) (id : String) (d : ErrorDocument) : StoreError :=
  let e := { r.baseError id (d.kind r.status) d.message with
    code := d.code
    locator := d.locator
    patchFailure := d.patchFailure? }
  match d.details with
  | some details => e.withDetails details
  | none => e

/-- Decides whether a response is a success. The id of the request is the one that the server gives,
else `id`. -/
def classify (r : Response) (success : StatusSet) (id : String) : Except StoreError Unit :=
  if success.contains r.status then .ok ()
  else match ErrorDocument.ofBytes? r.body with
    | none =>
      .error (r.baseError id (if r.status = 401 then .invalidCredential else .requestFailed) none)
    | some d => .error (r.documentError id d)

end Response

end ItemStore
