import ItemStore.Proofs.Patch.Report
import ItemStore.Proofs.Verdict.Interpretation

/-!
# Coherent verdicts

The error that a refused response is classified as says the same in several places: its kind, the
code of the server, the details and the report of a patch operation. They are found by different
ways. The kind comes from the code, from the status and, for a patch, from the name in the JSON form
of the operation; the report is decoded from the same details. `StoreError.Explains` says how they
agree.

## Main results

- `ErrorDocument.serverCode?_kind`: the kind that a document stands for has the code of the
  document, if any kind has it;
- `ErrorDocument.kind_of_patchFailure?`: the kind fits the report among the details;
- `Response.classify_coherent`: every refused response becomes an error that explains it.
-/

namespace ItemStore

/-! ## Codes -/

namespace ErrorKind

/-- The codes by which a server names what went wrong. -/
def serverCodes : List String :=
  ["item_version_mismatch", "item_already_present", "patch_conflict", "api_bad_request"]

/-- They are the codes of the kinds. -/
theorem mem_serverCodes_iff {code : String} :
    code ∈ serverCodes ↔ ∃ kind : ErrorKind, kind.serverCode? = some code := by
  constructor
  · intro hcode
    simp only [serverCodes, List.mem_cons, List.not_mem_nil, or_false] at hcode
    rcases hcode with rfl | rfl | rfl | rfl
    · exact ⟨.versionMismatch, rfl⟩
    · exact ⟨.alreadyPresent, rfl⟩
    · exact ⟨.patchConflict, rfl⟩
    · exact ⟨.badRequest, rfl⟩
  · rintro ⟨kind, hkind⟩
    cases kind <;> cases hkind <;> decide

end ErrorKind

/-! ## Documents -/

namespace ErrorDocument

variable {d : ErrorDocument}

/-- A conflict is of one of two kinds. -/
theorem kind_of_conflict (h : d.code = some "patch_conflict") (status : Nat) :
    d.kind status = if d.failedOpName? = some "test" then .testAssertionFailed
      else .patchConflict := by
  simp only [kind, h]

/-- The kind of a document has the code of the document, if any kind has it. The status has no say
in that. -/
theorem serverCode?_kind {code : String} (hcode : d.code = some code)
    (hknown : code ∈ ErrorKind.serverCodes) (status : Nat) :
    (d.kind status).serverCode? = some code := by
  simp only [ErrorKind.serverCodes, List.mem_cons, List.not_mem_nil, or_false] at hknown
  rcases hknown with rfl | rfl | rfl | rfl
  · simp only [kind, hcode, ErrorKind.serverCode?]
  · simp only [kind, hcode, ErrorKind.serverCode?]
  · rw [kind_of_conflict hcode]
    split <;> rfl
  · simp only [kind, hcode, ErrorKind.serverCode?]

/-- Without such a code it is the status that decides. -/
theorem kind_of_unknown (h : ∀ code ∈ ErrorKind.serverCodes, d.code ≠ some code) (status : Nat) :
    d.kind status = if status = 401 then .invalidCredential else .requestFailed := by
  unfold kind
  -- one case for each code of the server, and one for what is left
  split
  next hcode => exact absurd hcode (h _ (by decide))
  next hcode => exact absurd hcode (h _ (by decide))
  next hcode => exact absurd hcode (h _ (by decide))
  next hcode => exact absurd hcode (h _ (by decide))
  next => rfl

variable {f : PatchFailure}

/-- A document reports the failure that its details hold, if its code is that of a conflict. -/
theorem patchFailure?_eq_some_iff :
    d.patchFailure? = some f ↔
      d.code = some "patch_conflict" ∧ ∃ details, d.details = some details ∧
      PatchFailure.ofDetails details = .ok f := by
  have hread (details : Members) :
      (PatchFailure.ofDetails details).toOption = some f ↔
        PatchFailure.ofDetails details = .ok f := by
    cases PatchFailure.ofDetails details <;> simp [Except.toOption]
  unfold patchFailure?
  split
  next hcode => simp [hcode, Option.bind_eq_some_iff, hread]
  next hcode => simp [hcode]

/-- The operation has the same name in the report as in the details that the report was read
from. -/
theorem failedOpName?_of_ofDetails {details : Members} (hdetails : d.details = some details)
    (h : PatchFailure.ofDetails details = .ok f) : d.failedOpName? = some f.op.name := by
  obtain ⟨-, ⟨v, hmember, hread⟩, -⟩ := PatchFailure.ofDetails_eq_ok_iff.mp h
  -- only an object is read as an operation, and it is read by its name
  cases v with
  | obj ms =>
    obtain ⟨hname, -⟩ := PatchOp.details_of_ofJson hread
    simp [failedOpName?, hdetails, hmember, Json.get?, hname, Json.asString?]
  | _ => simp [PatchOp.ofJson] at hread

/-- A document that reports a failure is of the kind that fits the operation. -/
theorem kind_of_patchFailure? (h : d.patchFailure? = some f) (status : Nat) :
    d.kind status = if f.op.isTest then .testAssertionFailed else .patchConflict := by
  obtain ⟨hcode, details, hdetails, hread⟩ := patchFailure?_eq_some_iff.mp h
  rw [kind_of_conflict hcode, failedOpName?_of_ofDetails hdetails hread]
  simp [PatchOp.name_eq_test_iff]

end ErrorDocument

/-! ## Errors -/

/-- How the error of a refused response explains it. -/
structure StoreError.Explains (e : StoreError) (r : Response) : Prop where
  status : e.status = some r.status
  body : e.body = some r.body
  remote : e.kind.isLocal = false
  /-- A code that the server has for a kind is that of the kind, whatever the status. -/
  known : ∀ d code, ErrorDocument.ofBytes? r.body = some d → d.code = some code →
    code ∈ ErrorKind.serverCodes → e.kind.serverCode? = some code
  /-- Without a document, and for other codes, the status decides. -/
  unknown : (∀ d code, ErrorDocument.ofBytes? r.body = some d → code ∈ ErrorKind.serverCodes →
    d.code ≠ some code) → e.kind = if r.status = 401 then .invalidCredential else .requestFailed
  code : e.code = (ErrorDocument.ofBytes? r.body).bind ErrorDocument.code
  details : e.details = (ErrorDocument.ofBytes? r.body).bind ErrorDocument.details
  info : e.info = (e.details.bind (Assoc.get? "info")).bind Json.asString?
  /-- A conflict comes with the report that its details hold, and no other error comes with a
  report. -/
  patchFailure : ∀ f, e.patchFailure = some f ↔
    e.code = some "patch_conflict" ∧ ∃ details, e.details = some details ∧
    PatchFailure.ofDetails details = .ok f
  /-- The kind fits the operation in the report. -/
  kind : ∀ f, e.patchFailure = some f → e.kind = if f.op.isTest then .testAssertionFailed
    else .patchConflict

namespace Response

variable {r : Response}

/-- The fields of the error that a document in the body stands for. -/
theorem documentError_fields (r : Response) (id : String) (d : ErrorDocument) :
    (r.documentError id d).status = some r.status ∧ (r.documentError id d).body = some r.body ∧
      (r.documentError id d).code = d.code ∧ (r.documentError id d).details = d.details ∧
      (r.documentError id d).info = (d.details.bind (Assoc.get? "info")).bind Json.asString? ∧
      (r.documentError id d).patchFailure = d.patchFailure? := by
  unfold documentError
  cases d.details <;> exact ⟨rfl, rfl, rfl, rfl, rfl, rfl⟩

/-- An error that only the status accounts for explains a response whose body explains nothing. -/
theorem explains_of_no_document (hbody : ErrorDocument.ofBytes? r.body = none) (id : String) :
    (r.baseError id (if r.status = 401 then .invalidCredential else .requestFailed) none).Explains
      r where
  status := rfl
  body := rfl
  remote := by
    unfold baseError
    split <;> rfl
  known d code hd := by simp [hbody] at hd
  unknown _ := rfl
  code := by rw [hbody]; rfl
  details := by rw [hbody]; rfl
  info := rfl
  patchFailure f := ⟨nofun, fun ⟨hcode, _⟩ => nomatch hcode⟩
  kind f := nofun

/-- The error that a document stands for explains the response that the document was found in. -/
theorem explains_of_document {d : ErrorDocument} (hbody : ErrorDocument.ofBytes? r.body = some d)
    (id : String) :
    (r.documentError id d).Explains r := by
  obtain ⟨hstatus, hcontent, hcode, hdetails, hinfo, hfailure⟩ := r.documentError_fields id d
  have hkind := r.kind_documentError id d
  exact
    { status := hstatus
      body := hcontent
      remote := by rw [hkind, d.isLocal_kind]
      known := fun d' code hd' hcode' hknown => by
        cases hbody.symm.trans hd'
        rw [hkind, ErrorDocument.serverCode?_kind hcode' hknown]
      unknown := fun hunknown => by
        rw [hkind, ErrorDocument.kind_of_unknown fun code hknown => hunknown d code hbody hknown]
      code := by rw [hcode, hbody]; rfl
      details := by rw [hdetails, hbody]; rfl
      info := by rw [hinfo, hdetails]
      patchFailure := fun f => by
        rw [hfailure, hcode, hdetails, ErrorDocument.patchFailure?_eq_some_iff]
      kind := fun f hf => by rw [hkind, ErrorDocument.kind_of_patchFailure? (hfailure ▸ hf)] }

/-- **Verdicts are coherent**: a response whose status is no success becomes an error that explains
it. -/
theorem classify_coherent {success : StatusSet} (h : success.contains r.status = false)
    (id : String) :
    ∃ e, r.classify success id = .error e ∧ e.Explains r := by
  unfold classify
  rw [h, if_neg Bool.false_ne_true]
  cases hbody : ErrorDocument.ofBytes? r.body with
  | none => exact ⟨_, rfl, explains_of_no_document hbody id⟩
  | some d => exact ⟨_, rfl, explains_of_document hbody id⟩

/-- Credentials are refused, but the body explains that a test of a patch failed: the error is one
of the test. -/
theorem classify_coherent_of_unauthorized_conflict :
    let op : Json := .obj [("op", .str "test"), ("path", .str "/a")]
    let details : Members := [("info", .str "no"), ("op", op), ("opIndex", .num .one)]
    let body := "\x7b\"code\":\"patch_conflict\",\"details\":\x7b\"info\":\"no\"," ++
      "\"op\":\x7b\"op\":\"test\",\"path\":\"/a\"\x7d,\"opIndex\":1\x7d\x7d"
    let r : Response := ⟨401, .empty, body.toUTF8⟩
    StatusSet.standard.contains r.status = false ∧
      ∃ e, r.classify .standard "id" = .error e ∧ e.status = some 401 ∧ e.details = some details ∧
      e.info = some "no" ∧
        e.kind.serverCode? = some "patch_conflict" ∧ e.kind = .testAssertionFailed := by
  intro op details body r
  have hrefused : StatusSet.standard.contains r.status = false := rfl
  have hdocument : ErrorDocument.ofBytes? r.body =
      some ⟨some "patch_conflict", none, some details, none⟩ := by
    decide +kernel
  have hop : PatchOp.ofJson op = .ok (.test "/a" .present false) := by cbv
  have hread : PatchFailure.ofDetails details =
      .ok ⟨1, .test "/a" .present false, [], none, "no"⟩ :=
    PatchFailure.ofDetails_eq_ok_iff.mpr ⟨⟨_, rfl, rfl⟩, ⟨op, rfl, hop⟩, rfl, rfl, rfl⟩
  obtain ⟨e, herror, hexplains⟩ := classify_coherent hrefused "id"
  have hdetails : e.details = some details := by rw [hexplains.details, hdocument]; rfl
  have hcode : e.code = some "patch_conflict" := by rw [hexplains.code, hdocument]; rfl
  have hreport := (hexplains.patchFailure _).mpr ⟨hcode, details, hdetails, hread⟩
  refine ⟨hrefused, e, herror, hexplains.status, hdetails, ?_, ?_, hexplains.kind _ hreport⟩
  · rw [hexplains.info, hdetails]
    rfl
  · exact hexplains.known _ "patch_conflict" hdocument rfl (by decide)

end Response

end ItemStore
