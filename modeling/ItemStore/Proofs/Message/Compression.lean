import ItemStore.Proofs.Gzip.Stored
import ItemStore.Proofs.Message.Headers
import ItemStore.Server.Handle

/-!
# Compressed answers

A server may compress the bodies of its answers, and a client decompresses what it gets. Neither of
this can be seen in the end, as long as the answer itself says nothing about the form of its body.

- `Response.Plain.decompressed_compressedBy`: a client has the answer as it was before it was
  compressed, with all of its headers, whichever encoder wrote the body;
- `Server.decompressed_handle`: so it has the answer of the server's route, with the id of the
  request.
-/

namespace ItemStore

/-! ## Encoders -/

namespace Gzip

/-- A writer of compressed data is an encoder if what it writes is read back. -/
def IsEncoder (pack : List UInt8 → List UInt8) : Prop :=
  ∀ bytes, unpack? (pack bytes) = some bytes

theorem isEncoder_pack : IsEncoder pack :=
  unpack?_pack

/-- An encoder writes something, since nothing can be read from nothing. -/
theorem IsEncoder.ne_nil {pack : List UInt8 → List UInt8} (h : IsEncoder pack)
    (bytes : List UInt8) :
    pack bytes ≠ [] := by
  intro hnil
  have hread := h bytes
  rw [hnil] at hread
  cases hread

end Gzip

/-- An answer with its body compressed by some encoder, unless it has none. -/
def Server.compressedBy (pack : List UInt8 → List UInt8) (r : Response) : Response :=
  if r.body.isEmpty then r
  else ⟨r.status, (r.headers.insert "Content-Encoding" "gzip").remove "Content-Length",
    (pack r.body.data.toList).toByteArray⟩

/-! ## Answers -/

namespace Response

/-- The headers of a response leave the form of its body open. -/
def Plain (r : Response) : Prop :=
  r.header? "Content-Encoding" = none ∧ r.header? "Content-Length" = none

theorem Plain.withHeader {r : Response} (h : r.Plain) {name : String}
    (hencoding : Text.sameName name "Content-Encoding" = false)
    (hlength : Text.sameName name "Content-Length" = false) (value : String) :
    (r.withHeader name value).Plain := by
  obtain ⟨h₁, h₂⟩ := h
  constructor
  · simpa [header?, Response.withHeader, hencoding] using h₁
  · simpa [header?, Response.withHeader, hlength] using h₂

theorem Plain.decompressed {r : Response} (h : r.Plain) : r.decompressed = .ok r := by
  have hcompressed : r.isCompressed = false := by simp only [isCompressed, h.1]
  simp [Response.decompressed, hcompressed]

/-- What a client makes of a compressed answer is the answer, whichever encoder wrote the body. -/
theorem Plain.decompressed_compressedBy {r : Response} (h : r.Plain)
    {pack : List UInt8 → List UInt8} (hpack : Gzip.IsEncoder pack) :
    (Server.compressedBy pack r).decompressed = .ok r := by
  unfold Server.compressedBy
  split
  next => exact h.decompressed
  next hbody =>
    obtain ⟨hencoding, hlength⟩ := h
    have hnames : Text.sameName "Content-Length" "Content-Encoding" = false := by decide
    have hunpack : Gzip.unpack? (pack r.body.data.toList).toByteArray.data.toList =
        some r.body.data.toList := by
      rw [List.data_toByteArray, List.toList_toArray, hpack]
    have hcompressed : isCompressed
        ⟨r.status, (r.headers.insert "Content-Encoding" "gzip").remove "Content-Length",
        (pack r.body.data.toList).toByteArray⟩ = true := by
      have hname : Text.sameName (Text.trim "gzip") "gzip" = true := by decide
      have hnonempty : (pack r.body.data.toList).toByteArray.isEmpty = false := by
        simpa [ByteArray.isEmpty] using hpack.ne_nil r.body.data.toList
      simp [isCompressed, header?, hnames, hname, hnonempty]
    -- the one header that was set is removed again, and there were no others of these names
    have hheaders : ((((r.headers.insert "Content-Encoding" "gzip").remove "Content-Length").remove
        "Content-Encoding").remove "Content-Length") = r.headers := by
      rw [Headers.remove_comm _ "Content-Length", Headers.remove_insert hencoding,
        Headers.remove_eq_self hlength, Headers.remove_eq_self hlength]
    have hbytes : r.body.data.toList.toByteArray = r.body :=
      ByteArray.ext (by rw [List.data_toByteArray, Array.toArray_toList])
    simp only [Response.decompressed, hcompressed, hunpack, hheaders, hbytes]
    rfl

theorem plain_of_empty (status : Nat) (body : ByteArray) :
    (⟨status, .empty, body⟩ : Response).Plain :=
  ⟨rfl, rfl⟩

theorem plain_ofJson (status : Nat) (v : Json) : (ofJson status v).Plain :=
  (plain_of_empty status v.compact.toUTF8).withHeader (by decide) (by decide) _

end Response

namespace Server

theorem plain_conflict (f : PatchFailure) : (conflict f).Plain :=
  Response.plain_ofJson ..

theorem plain_written (collection key ref : String) : (written collection key ref).Plain :=
  ((Response.plain_of_empty 201 .empty).withHeader (by decide) (by decide) _).withHeader (by decide)
    (by decide) _

/-- The answer of a server before it is compressed: that of the route, with the id of the
request. -/
def answer (s : Server) (locator : String) (request : Request) : Response :=
  match request.headers.get? "X-Request-Id" with
  | some id => (s.route locator request).1.withHeader "X-Request-Id" id
  | none => (s.route locator request).1

theorem handle_snd (s : Server) (locator : String) (request : Request) :
    (s.handle locator request).2 = (s.route locator request).2 := rfl

/-- What is put around the answer of a route leaves the form of its body open. -/
theorem plain_answer {s : Server} {locator : String} {request : Request}
    (h : (s.route locator request).1.Plain) :
    (s.answer locator request).Plain := by
  unfold answer
  split
  next => exact h.withHeader (by decide) (by decide) _
  next => exact h

/-- **Compression is not seen**: a client that decompresses what it gets has the answer of the
server. -/
theorem decompressed_handle {s : Server} {locator : String} {request : Request}
    (h : (s.route locator request).1.Plain) :
    (s.handle locator request).1.decompressed = .ok (s.answer locator request) := by
  have hplain : (s.answer locator request).Plain := plain_answer h
  have hhandle : (s.handle locator request).1 =
      if acceptsGzip request && s.gzip then compressedBy Gzip.pack (s.answer locator request)
      else s.answer locator request := rfl
  rw [hhandle]
  split
  · exact hplain.decompressed_compressedBy Gzip.isEncoder_pack
  · exact hplain.decompressed

end Server

end ItemStore
