import ItemStore.Proofs.Json.Text
import ItemStore.Proofs.Patch.Codec
import ItemStore.Server.Handle
import ItemStore.Verdict.Interpret

/-!
# Conflict reports

A server that cannot apply a patch document explains why in the body of its answer, and a client
makes an error of that. The error says the same as that of applying the document locally:
`Response.classify_conflict`. The client finds the kind of the error in the JSON form of the
operation, whereas the local error takes it from the operation itself.
-/

namespace ItemStore

/-- A patch document is read back from the body that it is sent in. -/
theorem PatchDocument.ofBytes_text {doc : PatchDocument} (h : doc.toJson.Legible) :
    PatchDocument.ofBytes doc.text.toUTF8 = .ok doc := by
  rw [PatchDocument.ofBytes, PatchDocument.text, h.ofBytes?]
  simp only [PatchDocument.ofJson_toJson]
  rfl

/-! ## The explanation -/

namespace Server

/-- The document that explains why a patch could not be applied. -/
def explanation (f : PatchFailure) : ErrorDocument :=
  { code := some "patch_conflict", message := some f.summary, details := some f.toDetails,
    locator := none }

/-- The body of the answer to a patch that cannot be applied. -/
def conflictBody (f : PatchFailure) : Json :=
  .ofPairs [("code", .str "patch_conflict"), ("message", .str f.summary),
    ("details", .obj f.toDetails)]

theorem conflict_eq (f : PatchFailure) : conflict f = .ofJson 409 (conflictBody f) := rfl

end Server

theorem ErrorDocument.ofBytes?_conflict {f : PatchFailure} (h : (Server.conflictBody f).Legible) :
    ErrorDocument.ofBytes? (Server.conflict f).body = some (Server.explanation f) := by
  have hbody : Json.ofBytes? (Server.conflict f).body = some (Server.conflictBody f) := by
    rw [Server.conflict_eq]
    exact h.ofBytes?
  rw [ErrorDocument.ofBytes?, hbody]
  simp only [Server.conflictBody, Json.ofPairs, ErrorDocument.ofMembers?, ErrorDocument.field?,
    Assoc.get?_ofPairs]
  simp [Json.asString?, Json.asObject?, Server.explanation]

/-- The kind that a client finds in the explanation is that of the failure. -/
theorem ErrorDocument.kind_explanation (f : PatchFailure) (status : Nat) :
    (Server.explanation f).kind status = (StoreError.ofFailure f).kind := by
  -- an assertion is known by the name in the JSON form of the operation, which is that of the
  -- operation
  obtain ⟨-, hop, -⟩ := f.get?_toDetails
  have hname : (Server.explanation f).failedOpName? = some f.op.name := by
    simp [ErrorDocument.failedOpName?, Server.explanation, hop, PatchOp.get?_toJson_op,
      Json.asString?]
  simp only [ErrorDocument.kind, Server.explanation] at hname ⊢
  simp [hname, PatchOp.name_eq_test_iff, StoreError.ofFailure, StoreError.withDetails]

/-- The report that a client finds in the explanation is that of the failure. -/
theorem ErrorDocument.patchFailure?_explanation {f : PatchFailure} (h : f.Indexable) :
    (Server.explanation f).patchFailure? = some f := by
  simp [ErrorDocument.patchFailure?, Server.explanation, PatchFailure.ofDetails_toDetails h,
    Except.toOption]

/-! ## Verdicts -/

namespace Response

/-- **The error of a client and the local error agree**: what a client makes of the answer to a
patch that cannot be applied is the error of the failure itself, with the status, the id and the
body of the answer. -/
theorem classify_conflict {r : Response} {f : PatchFailure} {success : StatusSet}
    (hstatus : r.status = 409) (hbody : r.body = (Server.conflict f).body)
    (hrefused : success.contains 409 = false) (hindexable : f.Indexable)
    (hlegible : (Server.conflictBody f).Legible) (id : String) :
    r.classify success id = .error { StoreError.ofFailure f with
      status := some 409, requestId := some (r.requestId?.getD id), body := some r.body } := by
  have hdocument : ErrorDocument.ofBytes? r.body = some (Server.explanation f) := by
    rw [hbody, ErrorDocument.ofBytes?_conflict hlegible]
  have hkind := ErrorDocument.kind_explanation f 409
  have hreport := ErrorDocument.patchFailure?_explanation hindexable
  rw [classify, hstatus, hrefused, if_neg Bool.false_ne_true, hdocument]
  simp only [documentError, baseError, hkind, hreport, hstatus]
  rfl

end Response

end ItemStore
