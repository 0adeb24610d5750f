import ItemStore.Proofs.Except
import ItemStore.Proofs.Message.Headers
import ItemStore.Session.Requests

/-!
# Errors from responses

A response becomes a value or an error in three stages: its body is unpacked, its status judges it,
and a decoder reads it. This module says of each stage what its errors are like, and from that what
kind of error a response ends in and whose id the error carries.

- `Response.interpret_by_status`: the status tells errors of the server from errors of this side,
  with one exception;
- `Session.requestId_of_answered`: an error carries the id that the response gives, with the same
  exception.

The exception is a body that claims to be compressed and cannot be unpacked. Such a response is
given up before its status and its headers are looked at.
-/

namespace ItemStore

/-- No document names a kind of error that arises on this side. -/
theorem ErrorDocument.isLocal_kind (d : ErrorDocument) (status : Nat) :
    (d.kind status).isLocal = false := by
  unfold kind
  repeat' split
  all_goals rfl

namespace Response

variable {α : Type}

/-! ## Unpacking -/

/-- Whether the body claims to be compressed and cannot be unpacked. -/
def isCorrupt (r : Response) : Bool :=
  r.isCompressed && (Gzip.unpack? r.body.data.toList).isNone

/-- The error of a body that cannot be unpacked knows the status, and no id. -/
theorem decompressed_of_isCorrupt {r : Response} (h : r.isCorrupt = true) :
    ∃ e, r.decompressed = .error e ∧ e.kind = .invalidResponse ∧ e.status = some r.status ∧
    e.requestId = none := by
  obtain ⟨hcompressed, hunpack⟩ := Bool.and_eq_true_iff.mp h
  rw [decompressed, hcompressed, Option.isNone_iff_eq_none.mp hunpack]
  exact ⟨_, rfl, rfl, rfl, rfl⟩

/-- Unpacking a body changes neither the status nor the id that the response gives. -/
theorem exists_decompressed {r : Response} (h : r.isCorrupt = false) :
    ∃ r', r.decompressed = .ok r' ∧ r'.status = r.status ∧ r'.requestId? = r.requestId? := by
  unfold decompressed
  cases hcompressed : r.isCompressed with
  | false => exact ⟨r, rfl, rfl, rfl⟩
  | true =>
    rw [isCorrupt, hcompressed, Bool.true_and, Option.isNone_eq_false_iff] at h
    obtain ⟨content, hunpack⟩ := Option.isSome_iff_exists.mp h
    rw [hunpack]
    refine ⟨_, rfl, rfl, ?_⟩
    have hencoding : Text.sameName "Content-Encoding" "X-Request-Id" = false := by decide
    have hlength : Text.sameName "Content-Length" "X-Request-Id" = false := by decide
    simp [requestId?, header?, hencoding, hlength]

/-! ## Judging and decoding -/

theorem requestId_documentError (r : Response) (id : String) (d : ErrorDocument) :
    (r.documentError id d).requestId = some (r.requestId?.getD id) := by
  unfold documentError
  cases d.details <;> rfl

theorem kind_documentError (r : Response) (id : String) (d : ErrorDocument) :
    (r.documentError id d).kind = d.kind r.status := by
  unfold documentError
  cases d.details <;> rfl

/-- The error of a response whose status is no success is one of the server, and carries the id that
the response gives. If the body explains nothing, the status tells whether credentials were
refused. -/
theorem classify_of_refused {r : Response} {success : StatusSet}
    (h : success.contains r.status = false) (id : String) :
    ∃ e, r.classify success id = .error e ∧ e.kind.isLocal = false ∧
    e.requestId = some (r.requestId?.getD id) ∧
      (ErrorDocument.ofBytes? r.body = none →
        e.kind = if r.status = 401 then .invalidCredential else .requestFailed) := by
  unfold classify
  rw [h, if_neg Bool.false_ne_true]
  cases hbody : ErrorDocument.ofBytes? r.body with
  | none =>
    refine ⟨_, rfl, ?_, rfl, fun _ => rfl⟩
    unfold baseError
    split <;> rfl
  | some d =>
    have hkind : (r.documentError id d).kind.isLocal = false := by
      rw [kind_documentError, d.isLocal_kind]
    exact ⟨_, rfl, hkind, r.requestId_documentError id d, nofun⟩

/-- Whatever the error of a decoder is, it is reported as an invalid response with a status. -/
theorem decodingError_spec (r : Response) (id : String) (e : StoreError) :
    (r.decodingError id e).kind = .invalidResponse ∧
    (r.decodingError id e).status.isSome = true := by
  have htag (e : StoreError) : (e.tagged (r.requestId?.getD id)).kind = e.kind ∧
      (e.tagged (r.requestId?.getD id)).status = e.status := by
    unfold StoreError.tagged
    split <;> exact ⟨rfl, rfl⟩
  unfold decodingError
  rw [(htag _).1, (htag _).2]
  constructor
  · by_cases hkind : e.kind = .invalidResponse
    · simp only [hkind, if_true]
      cases e.status <;> simp [StoreError.withStatus, hkind]
    · simp [hkind, StoreError.withStatus]
  · by_cases hkind : e.kind = .invalidResponse
    · cases hstatus : e.status <;> simp [StoreError.withStatus, hkind, hstatus]
    · simp [hkind, StoreError.withStatus]

theorem requestId_decodingError {r : Response} {id : String} {e : StoreError}
    (h : e.requestId = none) :
    (r.decodingError id e).requestId = some (r.requestId?.getD id) := by
  have hid (e : StoreError) (h : e.requestId = none) :
      (e.tagged (r.requestId?.getD id)).requestId = some (r.requestId?.getD id) := by
    rw [StoreError.tagged, h]
    rfl
  refine hid _ ?_
  by_cases hkind : e.kind = .invalidResponse
  · cases hstatus : e.status <;> simp [StoreError.withStatus, hkind, h, hstatus]
  · simp [hkind, StoreError.withStatus]

/-! ## All stages -/

/-- A body that cannot be unpacked ends the interpretation. -/
theorem interpret_of_isCorrupt {r : Response} (h : r.isCorrupt = true) (success : StatusSet)
    (decode : Decoder α) (id : String) :
    ∃ e, r.interpret success decode id = .error e ∧ e.kind = .invalidResponse ∧
    e.status = some r.status ∧
      e.requestId = some id := by
  obtain ⟨e, hunpack, hkind, hstatus, hid⟩ := decompressed_of_isCorrupt h
  refine ⟨e.withRequestId id, ?_, hkind, hstatus, rfl⟩
  have htag : e.tagged id = e.withRequestId id := by rw [StoreError.tagged, hid]
  rw [interpret, hunpack, mapError_error, htag]
  rfl

/-- Once the body is unpacked, the response is judged and then decoded. -/
theorem interpret_of_decompressed {r r' : Response} (h : r.decompressed = .ok r')
    (success : StatusSet) (decode : Decoder α) (id : String) :
    r.interpret success decode id =
      r'.classify success id >>= fun _ => (decode r').mapError (r'.decodingError id) := by
  rw [interpret, h]
  rfl

/-- A response that is no success is an error of the server, unless its body cannot be unpacked. -/
theorem interpret_of_refused {r : Response} {success : StatusSet}
    (h : success.contains r.status = false) (decode : Decoder α) (id : String) :
    ∃ e, r.interpret success decode id = .error e ∧
      (r.isCorrupt = true → e.kind = .invalidResponse) ∧
      (r.isCorrupt = false → e.kind.isLocal = false) ∧
      ∀ r', r.decompressed = .ok r' → ErrorDocument.ofBytes? r'.body = none → r.status = 401 →
        e.kind = .invalidCredential := by
  cases hcorrupt : r.isCorrupt with
  | true =>
    obtain ⟨e, herror, hkind, -⟩ := interpret_of_isCorrupt hcorrupt success decode id
    obtain ⟨e', hunpack, -⟩ := decompressed_of_isCorrupt hcorrupt
    refine ⟨e, herror, fun _ => hkind, nofun, fun r' hunpack' => ?_⟩
    rw [hunpack] at hunpack'
    cases hunpack'
  | false =>
    obtain ⟨r', hunpack, hstatus, -⟩ := exists_decompressed hcorrupt
    obtain ⟨e, hclassify, hlocal, -, hkind⟩ := classify_of_refused (hstatus ▸ h) id
    rw [interpret_of_decompressed hunpack, hclassify]
    refine ⟨e, rfl, nofun, fun _ => hlocal, fun r'' hunpack' hbody h401 => ?_⟩
    rw [hunpack] at hunpack'
    cases hunpack'
    rw [hkind hbody, if_pos (hstatus.trans h401)]

/-- A response that is a success is a value if it can be unpacked and decoded, and otherwise an
invalid response. -/
theorem interpret_of_accepted {r : Response} {success : StatusSet}
    (h : success.contains r.status = true) (decode : Decoder α) (id : String) :
    (∃ r' a, r.decompressed = .ok r' ∧ decode r' = .ok a ∧ r.interpret success decode id = .ok a) ∨
      ∃ e, r.interpret success decode id = .error e ∧ e.kind = .invalidResponse ∧
      e.status.isSome = true := by
  cases hcorrupt : r.isCorrupt with
  | true =>
    obtain ⟨e, herror, hkind, hstatus, -⟩ := interpret_of_isCorrupt hcorrupt success decode id
    exact .inr ⟨e, herror, hkind, by rw [hstatus]; rfl⟩
  | false =>
    obtain ⟨r', hunpack, hstatus, -⟩ := exists_decompressed hcorrupt
    have hclassify : r'.classify success id = .ok () := if_pos (hstatus ▸ h)
    rw [interpret_of_decompressed hunpack, hclassify]
    cases hdecode : decode r' with
    | ok a => exact .inl ⟨r', a, hunpack, hdecode, rfl⟩
    | error e =>
      obtain ⟨hkind, hknown⟩ := r'.decodingError_spec id e
      exact .inr ⟨_, rfl, hkind, hknown⟩

/-- **The status decides**: if it is a success, a response becomes what the decoder makes of it, or
an invalid response with a status. If it is none, the response becomes an error of the server, and
one of refused credentials for status 401 and a body that explains nothing. A body that cannot be
unpacked is the exception: its response is an invalid one, whatever the status. -/
theorem interpret_by_status (r : Response) (success : StatusSet) (decode : Decoder α)
    (id : String) :
    if success.contains r.status then
      (∃ r' a, r.decompressed = .ok r' ∧ decode r' = .ok a ∧
        r.interpret success decode id = .ok a) ∨
        ∃ e, r.interpret success decode id = .error e ∧ e.kind = .invalidResponse ∧
        e.status.isSome = true
    else
      ∃ e, r.interpret success decode id = .error e ∧
        (r.isCorrupt = true → e.kind = .invalidResponse) ∧
        (r.isCorrupt = false → e.kind.isLocal = false) ∧
        ∀ r', r.decompressed = .ok r' → ErrorDocument.ofBytes? r'.body = none → r.status = 401 →
          e.kind = .invalidCredential := by
  split
  next haccepted => exact interpret_of_accepted haccepted decode id
  next hrefused => exact interpret_of_refused (Bool.eq_false_iff.mpr hrefused) decode id

/-- The exception: credentials are refused with a body that cannot be unpacked, and the error is not
one of the server. -/
theorem interpret_of_corrupt_refusal :
    let r : Response := ⟨401, ⟨[("Content-Encoding", "gzip")]⟩, "x".toUTF8⟩
    ∃ e, r.interpret .standard Decoder.empty "id" = .error e ∧ e.kind = .invalidResponse ∧
    e.kind.isLocal = true := by
  intro r
  have hcorrupt : r.isCorrupt = true := by decide +kernel
  obtain ⟨e, herror, hkind, -⟩ := interpret_of_isCorrupt hcorrupt .standard Decoder.empty "id"
  exact ⟨e, herror, hkind, by rw [hkind]; rfl⟩

/-- An error carries the id that the response gives, or else that of the request, if no decoder
gives it one of its own. If the body cannot be unpacked, it is that of the request in any case. -/
theorem requestId_of_interpret {r : Response} {success : StatusSet} {decode : Decoder α}
    {id : String} {e : StoreError} (hdecode : ∀ r e, decode r = .error e → e.requestId = none)
    (h : r.interpret success decode id = .error e) :
    e.requestId = some (if r.isCorrupt then id else r.requestId?.getD id) := by
  cases hcorrupt : r.isCorrupt with
  | true =>
    obtain ⟨e', herror, -, -, hid⟩ := interpret_of_isCorrupt hcorrupt success decode id
    rw [h] at herror
    cases herror
    exact hid
  | false =>
    obtain ⟨r', hunpack, -, hid⟩ := exists_decompressed hcorrupt
    rw [interpret_of_decompressed hunpack] at h
    rw [if_neg Bool.false_ne_true, ← hid]
    cases hsuccess : success.contains r'.status with
    | false =>
      obtain ⟨e', hclassify, -, hid', -⟩ := classify_of_refused hsuccess id
      rw [hclassify] at h
      cases h
      exact hid'
    | true =>
      have hclassify : r'.classify success id = .ok () := if_pos hsuccess
      rw [hclassify] at h
      cases hresult : decode r' with
      | ok a =>
        rw [hresult] at h
        cases h
      | error e' =>
        rw [hresult] at h
        cases h
        exact requestId_decodingError (hdecode r' e' hresult)

end Response

/-! ## Outcomes -/

namespace Session

variable {α : Type}

/-- A send whose outcome is open looks, and finds that its channel has returned a response. -/
structure Answered (s : Session α) (i outcome : Nat) (request : Request) (success : StatusSet)
    (decode : Decoder α) (r : Response) : Prop where
  step_eq : ∃ stage, s.jobs[i]? = some (.send outcome request success decode stage) ∧
    ∃ stage' channel site, stage.step i request s.site = (stage', some ⟨channel, .ok r⟩, site)
  isOpen : ∃ o, s.outcomes[outcome]? = some o ∧ o.slot = none

variable {s : Session α} {i outcome : Nat} {request : Request} {success : StatusSet}
  {decode : Decoder α} {r : Response}

/-- The outcome gets what the response is interpreted as. -/
theorem result?_run_of_answered (h : s.Answered i outcome request success decode r) :
    (s.run i).result? outcome = some (r.interpret success decode request.id) := by
  obtain ⟨⟨stage, hjob, stage', channel, site, hstep⟩, o, houtcome, hslot⟩ := h
  obtain ⟨hlength, rfl⟩ := List.getElem?_eq_some_iff.mp houtcome
  -- whether a channel is given back is of no concern to the outcome
  cases channel <;>
    simp [run, hjob, hstep, setJob, resolve, hslot, Slot.complete, giveBack, resultOf,
      result?, hlength]

/-- **Whose id an error carries**: if an outcome resolves to an error because of a response, the
error carries the id that the response gives, or else that of the request; only if the body cannot
be unpacked it is that of the request in any case. -/
theorem requestId_of_answered (h : s.Answered i outcome request success decode r)
    (hdecode : ∀ r e, decode r = .error e → e.requestId = none) {e : StoreError}
    (herror : (s.run i).result? outcome = some (.error e)) :
    e.requestId = some (if r.isCorrupt then request.id else r.requestId?.getD request.id) :=
  Response.requestId_of_interpret hdecode
    (Option.some.inj ((result?_run_of_answered h).symm.trans herror))

/-- A session in which one request has been sent and waits for its turn, over a service that answers
with a response. -/
def awaiting (endpoint : Endpoint) (request : Request) (success : StatusSet) (decode : Decoder α)
    (r : Response) :
    Session α :=
  { start { endpoint, config := {}, free := 16 }
      { behaviour := .script (.respond r) [], server := Server.new "" false, locator := "" } with
    jobs := [.send 0 request success decode (.acquiring .fresh)]
    outcomes := [.pending request.id none] }

/-- Any response can be what a send finds. -/
theorem answered_awaiting (endpoint : Endpoint) (request : Request) (success : StatusSet)
    (decode : Decoder α) (r : Response) :
    (awaiting endpoint request success decode r).Answered 0 0 request success decode r :=
  ⟨⟨_, rfl, _, _, _, rfl⟩, _, rfl, rfl⟩

/-- A service that is down gives its own id for the request, and the error carries that. -/
theorem echoed_id_of_refusal :
    let url : Url :=
      ⟨"https", some ⟨"", .domain "items.test", none⟩, .segments ["v0", "c", "k"], none, none⟩
    let request : Request :=
      { id := "generated", method := .get, url, headers := .empty, body := none }
    let r : Response := ⟨503, ⟨[("X-Request-Id", "server-side")]⟩, "down".toUTF8⟩
    let s : Session Unit := awaiting ⟨url, "/v0"⟩ request .standard Decoder.empty r
    s.Answered 0 0 request .standard Decoder.empty r ∧
      ∃ e, (s.run 0).result? 0 = some (.error e) ∧ e.requestId = some "server-side" := by
  intro url request r s
  have hanswered : s.Answered 0 0 request .standard Decoder.empty r := answered_awaiting ..
  have hrefused : StatusSet.standard.contains r.status = false := rfl
  obtain ⟨e, herror, -⟩ := Response.interpret_of_refused hrefused Decoder.empty "generated"
  have hresult : (s.run 0).result? 0 = some (.error e) := by
    rw [result?_run_of_answered hanswered, herror]
  have hintact : r.isCorrupt = false := by decide +kernel
  have hecho : r.requestId? = some "server-side" := by decide
  have hempty (r : Response) (e : StoreError) (h : Decoder.empty r = .error e) : e.requestId =
      none := by cases h
  have hid := requestId_of_answered hanswered hempty hresult
  rw [hintact, hecho] at hid
  exact ⟨hanswered, e, hresult, hid⟩

/-- A service answers with a body that cannot be unpacked: the error does not carry the id that it
gives. -/
theorem generated_id_of_corrupt_body :
    let url : Url :=
      ⟨"https", some ⟨"", .domain "items.test", none⟩, .segments ["v0", "c", "k"], none, none⟩
    let request : Request :=
      { id := "generated", method := .get, url, headers := .empty, body := none }
    let r : Response :=
      ⟨200, ⟨[("X-Request-Id", "server-side"), ("Content-Encoding", "gzip")]⟩, "x".toUTF8⟩
    let s : Session Unit := awaiting ⟨url, "/v0"⟩ request .standard Decoder.empty r
    s.Answered 0 0 request .standard Decoder.empty r ∧ r.requestId? = some "server-side" ∧
      ∃ e, (s.run 0).result? 0 = some (.error e) ∧ e.requestId = some "generated" := by
  intro url request r s
  have hanswered : s.Answered 0 0 request .standard Decoder.empty r := answered_awaiting ..
  have hcorrupt : r.isCorrupt = true := by decide +kernel
  obtain ⟨e, herror, -, -, hid⟩ :=
    Response.interpret_of_isCorrupt hcorrupt .standard Decoder.empty "generated"
  have hresult : (s.run 0).result? 0 = some (.error e) := by
    rw [result?_run_of_answered hanswered, herror]
  exact ⟨hanswered, by decide, e, hresult, hid⟩

end Session

end ItemStore
