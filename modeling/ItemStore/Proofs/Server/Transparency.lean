import ItemStore.Proofs.Server.Refinement
import ItemStore.Verdict.Interpret

/-!
# A server with and without compression

Whether a server compresses its answers is a setting that no client finds out. The two headers that
compression sets and drops are the two that decompression drops, and no route of a server sets
either of them.

## Main results

- `Server.compression_transparent`: from the same store, a server that compresses and one that does
  not give the same answers in the end, with the same status, the same headers in the same order,
  and the same body; they go on with the same store, and so over any number of calls;
- `Server.plain_route`: no route says anything about the form of a body;
- `Response.decompressed_of_decompressed`: decompressing twice is decompressing once.

## Architecture

1. `Server.handleWith` leaves the encoder open; `Server.handle` is its case for the encoder of this
   library.
2. `Server.route_withGzip`: a route neither reads the setting nor changes it.
3. `Server.seen_callWith` is about a single call, and `Server.seen_runWith` carries that over to any
   number of them.
-/

namespace ItemStore

/-! ## Decompressing -/

namespace Response

/-- What has been decompressed does not say that it is compressed. -/
theorem decompressed_of_decompressed {r r' : Response} (h : r.decompressed = .ok r') :
    r'.decompressed = .ok r' := by
  unfold decompressed at h
  split at h
  next hplain =>
    obtain rfl := Except.ok.inj h
    rw [decompressed, if_pos hplain]
  next =>
    split at h
    next content _ =>
      obtain rfl := Except.ok.inj h
      have hnames : Text.sameName "Content-Length" "Content-Encoding" = false := by decide
      have hencoding : ((r.headers.remove "Content-Encoding").remove "Content-Length").get?
          "Content-Encoding" = none := by
        simp [hnames]
      have hcompressed : isCompressed
          ⟨r.status, (r.headers.remove "Content-Encoding").remove "Content-Length",
          content.toByteArray⟩ = false := by
        simp only [isCompressed, header?, hencoding]
      rw [decompressed, hcompressed]
      rfl
    next => cases h

/-- A response is judged and read only after it has been decompressed. -/
theorem interpret_congr {α : Type} {r r' : Response} (h : r.decompressed = r'.decompressed)
    (success : StatusSet) (decode : Decoder α) (id : String) :
    r.interpret success decode id = r'.interpret success decode id := by
  rw [interpret, interpret, h]

end Response

namespace Server

variable {s : Server} {locator : String} {request : Request}

/-! ## Routes -/

theorem plain_errorResponse (locator : String) (status : Nat) (code message : String) :
    (errorResponse locator status code message).Plain :=
  Response.plain_ofJson ..

theorem plain_refusal {headers : Headers} {current : Option StoredItem} {refusal : Response}
    (h : precondition locator headers current = some refusal) : refusal.Plain := by
  obtain ⟨code, message, rfl⟩ := refusal_of_precondition h
  exact plain_errorResponse ..

theorem plain_store (s : Server) (collection key : String) (value : Json) :
    (s.store collection key value).1.Plain :=
  plain_written ..

theorem plain_put (s : Server) (locator : String) (request : Request) (collection key : String) :
    (s.put locator request collection key).1.Plain := by
  unfold put
  split
  next => exact plain_errorResponse ..
  next =>
    split
    next => exact plain_errorResponse ..
    next =>
      split
      next hrefusal => exact plain_refusal hrefusal
      next => exact plain_store ..

theorem plain_patch (s : Server) (locator : String) (request : Request) (collection key : String) :
    (s.patch locator request collection key).1.Plain := by
  unfold patch
  split
  next => exact plain_errorResponse ..
  next =>
    split
    next => exact plain_errorResponse ..
    next =>
      split
      next => exact plain_errorResponse ..
      next =>
        split
        next hrefusal => exact plain_refusal hrefusal
        next =>
          split
          next => exact plain_conflict _
          next => exact plain_store ..

theorem plain_list (s : Server) (locator : String) (request : Request) (collection : String) :
    (s.list locator request collection).Plain := by
  unfold list
  split
  next => exact plain_errorResponse ..
  next => exact Response.plain_ofJson ..

/-- No route says anything about the form of a body. -/
theorem plain_route (s : Server) (locator : String) (request : Request) :
    (s.route locator request).1.Plain := by
  unfold route
  split
  next => exact Response.plain_ofJson ..
  next =>
    split
    next => exact plain_errorResponse ..
    next =>
      split
      next => exact plain_list ..
      next => exact plain_read ..
      next => exact plain_put ..
      next => exact plain_patch ..
      next => exact Response.plain_of_empty ..
      next => exact plain_errorResponse ..
      next => exact plain_errorResponse ..
      next => exact plain_errorResponse ..

/-! ## The setting -/

/-- The server with another setting for compression. -/
def withGzip (s : Server) (enabled : Bool) : Server :=
  { s with gzip := enabled }

theorem withGzip_withGzip (s : Server) (first second : Bool) :
    (s.withGzip first).withGzip second = s.withGzip second := rfl

theorem delete_withGzip (s : Server) (enabled : Bool) (collection key : String) :
    (s.withGzip enabled).delete collection key = (s.delete collection key).withGzip enabled := by
  cases hitems : Assoc.get? collection s.collections <;> simp only [delete, withGzip, hitems]

theorem put_withGzip (s : Server) (enabled : Bool) (locator : String) (request : Request)
    (collection key : String) :
    (s.withGzip enabled).put locator request collection key =
      (s.put locator request collection key).map id (withGzip · enabled) := by
  have hitem : (s.withGzip enabled).item? collection key = s.item? collection key := rfl
  unfold put
  rw [hitem]
  split
  next => rfl
  next =>
    split
    next => rfl
    next => split <;> rfl

theorem patch_withGzip (s : Server) (enabled : Bool) (locator : String) (request : Request)
    (collection key : String) :
    (s.withGzip enabled).patch locator request collection key =
      (s.patch locator request collection key).map id (withGzip · enabled) := by
  have hitem : (s.withGzip enabled).item? collection key = s.item? collection key := rfl
  unfold patch
  rw [hitem]
  split
  next => rfl
  next =>
    split
    next => rfl
    next =>
      split
      next => rfl
      next =>
        split
        next => rfl
        next => split <;> rfl

/-- A route neither reads the setting nor changes it. -/
theorem route_withGzip (s : Server) (enabled : Bool) (locator : String) (request : Request) :
    (s.withGzip enabled).route locator request =
      (s.route locator request).map id (withGzip · enabled) := by
  have hauthorization : (s.withGzip enabled).authorization = s.authorization := rfl
  unfold route
  rw [hauthorization]
  split
  next => rfl
  next =>
    split
    next => rfl
    next =>
      split
      next => rfl
      next => rfl
      next => exact put_withGzip ..
      next => exact patch_withGzip ..
      next => exact congrArg (Prod.mk _) (delete_withGzip ..)
      next => rfl
      next => rfl
      next => rfl

theorem answer_withGzip (s : Server) (enabled : Bool) (locator : String) (request : Request) :
    (s.withGzip enabled).answer locator request = s.answer locator request := by
  have hroute : ((s.withGzip enabled).route locator request).1 = (s.route locator request).1 := by
    rw [route_withGzip]; rfl
  rw [answer, hroute, answer]

/-! ## Calls -/

variable {pack : List UInt8 → List UInt8}

/-- Answers a request with bodies that some encoder compresses. -/
def handleWith (pack : List UInt8 → List UInt8) (s : Server) (locator : String)
    (request : Request) : Response × Server :=
  (if acceptsGzip request && s.gzip then compressedBy pack (s.answer locator request)
    else s.answer locator request, (s.route locator request).2)

theorem handleWith_pack : handleWith Gzip.pack = handle := rfl

/-- A client that decompresses what it gets has the answer of the server, whichever encoder
compressed it. -/
theorem decompressed_handleWith (hpack : Gzip.IsEncoder pack) (s : Server) (locator : String)
    (request : Request) :
    (s.handleWith pack locator request).1.decompressed = .ok (s.answer locator request) := by
  have hplain : (s.answer locator request).Plain := plain_answer (s.plain_route locator request)
  unfold handleWith
  split
  · exact hplain.decompressed_compressedBy hpack
  · exact hplain.decompressed

/-- A server that does not compress gives its answers as they are. -/
theorem handleWith_withGzip_false (pack : List UInt8 → List UInt8) (s : Server) (locator : String)
    (request : Request) :
    ((s.withGzip false).handleWith pack locator request).1 = s.answer locator request := by
  have hoff : (acceptsGzip request && (s.withGzip false).gzip) = false := Bool.and_false _
  rw [handleWith, hoff, answer_withGzip]
  rfl

/-- The setting is not seen in an answer once it is decompressed. -/
theorem decompressed_handleWith_withGzip (hpack : Gzip.IsEncoder pack) (s : Server) (enabled : Bool)
    (locator : String) (request : Request) :
    ((s.withGzip enabled).handleWith pack locator request).1.decompressed =
      .ok ((s.withGzip false).handleWith pack locator request).1 := by
  rw [decompressed_handleWith hpack, answer_withGzip, handleWith_withGzip_false]

theorem handleWith_withGzip_snd (pack : List UInt8 → List UInt8) (s : Server) (enabled : Bool)
    (locator : String) (request : Request) :
    ((s.withGzip enabled).handleWith pack locator request).2 =
      (s.handleWith pack locator request).2.withGzip enabled := by
  change ((s.withGzip enabled).route locator request).2 = _
  rw [route_withGzip]
  rfl

/-- Carries out a call, with some encoder. -/
def callWith (pack : List UInt8 → List UInt8) (s : Server) : Call → Seen × Server
  | .insert collection key value => s.call (.insert collection key value)
  | .request locator request =>
    ((.answered (s.handleWith pack locator request).1), (s.handleWith pack locator request).2)

/-- Carries out some calls, one after the other. -/
def runWith (pack : List UInt8 → List UInt8) (s : Server) : List Call → List Seen × Server
  | [] => ([], s)
  | c :: calls =>
    let (seen, s') := s.callWith pack c
    let (rest, t) := runWith pack s' calls
    (seen :: rest, t)

/-- What a client makes of what it sees. -/
def Seen.unpacked : Seen → Except StoreError Seen
  | .inserted ref => .ok (.inserted ref)
  | .answered response => response.decompressed.map .answered

/-- The setting is not seen in a call once its answer is decompressed, and the store that it leads
to is the same. -/
theorem seen_callWith (hpack : Gzip.IsEncoder pack) (s : Server) (enabled : Bool) (c : Call) :
    ((s.withGzip enabled).callWith pack c).1.unpacked = .ok ((s.withGzip false).callWith pack c).1 ∧
      ((s.withGzip enabled).callWith pack c).2 = (s.callWith pack c).2.withGzip enabled := by
  cases c with
  | insert => exact ⟨rfl, rfl⟩
  | request locator request =>
    have hanswer := decompressed_handleWith_withGzip hpack s enabled locator request
    exact ⟨congrArg (Except.map Seen.answered) hanswer,
      handleWith_withGzip_snd pack s enabled locator request⟩

/-- The setting is not seen in any number of calls. -/
theorem seen_runWith (hpack : Gzip.IsEncoder pack) (s : Server) (enabled : Bool)
    (calls : List Call) :
    ((s.withGzip enabled).runWith pack calls).1.mapM Seen.unpacked =
      .ok ((s.withGzip false).runWith pack calls).1 ∧
      ((s.withGzip enabled).runWith pack calls).2 = (s.runWith pack calls).2.withGzip enabled := by
  induction calls generalizing s with
  | nil => exact ⟨rfl, rfl⟩
  | cons c calls ih =>
    obtain ⟨hseen, hstore⟩ := seen_callWith hpack s enabled c
    obtain ⟨-, hplain⟩ := seen_callWith hpack s false c
    -- both servers go on from the same store, each with its setting
    obtain ⟨hrest, hend⟩ := ih (s.callWith pack c).2
    simp only [runWith, hstore, hplain]
    refine ⟨?_, hend⟩
    rw [List.mapM_cons, hseen, hrest]
    rfl

/-! ## Transparency -/

/-- What it means that the setting for compression cannot be seen in the answer to a request. -/
structure Unseen (pack : List UInt8 → List UInt8) (s : Server) (locator : String)
    (request : Request) : Prop where
  /-- The answer with either setting is, once it is decompressed, the answer without compression:
  its status, its headers in their order, and its body. -/
  decompressed_eq : ∀ enabled,
    ((s.withGzip enabled).handleWith pack locator request).1.decompressed =
    .ok ((s.withGzip false).handleWith pack locator request).1
  /-- So a client makes the same value or the same error of it. -/
  interpret_eq : ∀ {α : Type} (enabled : Bool) (success : StatusSet) (decode : Decoder α)
    (id : String),
    ((s.withGzip enabled).handleWith pack locator request).1.interpret success decode id =
      ((s.withGzip false).handleWith pack locator request).1.interpret success decode id
  /-- The server goes on with the same store. -/
  store_eq : ∀ enabled, ((s.withGzip enabled).handleWith pack locator request).2 =
    ((s.withGzip false).handleWith pack locator request).2.withGzip enabled

/-- **Compression is transparent**, whichever encoder compresses the bodies, as long as it can be
undone: for every request in every state, and so for what is seen of any number of calls.
Decompressing a second time changes nothing. -/
theorem compression_transparent (hpack : Gzip.IsEncoder pack) :
    handleWith Gzip.pack = handle ∧ (∀ s locator request, Unseen pack s locator request) ∧
      (∀ (s : Server) (enabled : Bool) (calls : List Call),
        ((s.withGzip enabled).runWith pack calls).1.mapM Seen.unpacked =
          .ok ((s.withGzip false).runWith pack calls).1) ∧
      ∀ r r' : Response, r.decompressed = .ok r' → r'.decompressed = .ok r' := by
  refine ⟨handleWith_pack, fun s locator request => ?_,
    fun s enabled calls => (seen_runWith hpack s enabled calls).1,
    fun _ _ => Response.decompressed_of_decompressed⟩
  have hanswer (enabled : Bool) := decompressed_handleWith_withGzip hpack s enabled locator request
  constructor
  case decompressed_eq => exact hanswer
  case interpret_eq =>
    intro α enabled success decode id
    exact Response.interpret_congr ((hanswer enabled).trans (hanswer false).symm) success decode id
  case store_eq =>
    intro enabled
    rw [handleWith_withGzip_snd, handleWith_withGzip_snd, withGzip_withGzip]

/-- A listing that is compressed for a client which spells the header in another way and accepts
other forms, too. -/
theorem compression_transparent_of_listing :
    let s := (((new "k" true).call (.insert "c" "k" .null)).2)
    let request : Request :=
      { id := "r", method := .get
        url := ⟨"https", some ⟨"", .domain "items.test", none⟩, .segments ["v0", "c"], none, none⟩
        headers :=
          ⟨[("Authorization", s.authorization), ("accept-encoding", "br, gzip"),
            ("X-Request-Id", "r")]⟩
        body := none }
    (s.handle "" request).1.header? "Content-Encoding" = some "gzip" ∧
      (s.handle "" request).1.decompressed = .ok ((s.withGzip false).handle "" request).1 := by
  intro s request
  obtain ⟨hhandle, hunseen, -⟩ := compression_transparent Gzip.isEncoder_pack
  rw [← hhandle]
  exact ⟨by decide +kernel, (hunseen s "" request).decompressed_eq true⟩

end Server

end ItemStore
