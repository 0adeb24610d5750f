import ItemStore.Decoder
import ItemStore.Verdict.Classify

/-!
# Interpreting responses

A response becomes a value in three stages: its body is unpacked, the response is judged by its
status, and a decoder reads the value. An error from any of them carries the id of the request.
-/

namespace ItemStore

/-- The error with an id of the request, unless it has one. -/
def StoreError.tagged (e : StoreError) (id : String) : StoreError :=
  match e.requestId with
  | some _ => e
  | none => e.withRequestId id

namespace Response

/-- The error of a decoder as an invalid response. -/
def decodingError (r : Response) (id : String) (e : StoreError) : StoreError :=
  -- an invalid response is reported as it is, and any other error becomes the cause of one
  let e : StoreError :=
    if e.kind = .invalidResponse then e
    else
      { kind := .invalidResponse
        message := "failed to decode response: " ++ e.message
        cause := some e.summary }
  let e := match e.status with
    | some _ => e
    | none => e.withStatus r.status
  e.tagged (r.requestId?.getD id)

/-- The value that a response stands for, or the error. -/
def interpret {α : Type} (r : Response) (success : StatusSet) (decode : Decoder α) (id : String) :
    Except StoreError α := do
  let r ← r.decompressed.mapError fun e => e.tagged id
  r.classify success id
  (decode r).mapError fun e => r.decodingError id e

end Response

end ItemStore
