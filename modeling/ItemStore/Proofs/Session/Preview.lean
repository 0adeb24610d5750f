import ItemStore.Proofs.Client.Exchange
import ItemStore.Proofs.Patch.Address
import ItemStore.Proofs.Server.Store
import ItemStore.Proofs.Session.Quiet
import ItemStore.Proofs.Verdict.Conflict

/-!
# Local previews

Applying a patch document locally tells what comes of sending it: the server stores the value that
is the local result, or it changes nothing and the client has the error of the local failure. Main
statement: `Session.ask_agrees_with_apply`.
-/

namespace ItemStore

namespace Session

variable {α : Type}

/-- A client that may do so sends a patch document without conditions to an item of the server
behind a session. -/
structure Patching (s : Session α) (client : Client) (e : Envelope) (doc : PatchDocument)
    (item : StoredItem) : Prop where
  quiet : s.Quiet
  authorized : ∃ settings : ClientSettings, settings.build = .ok client ∧
    settings.credentials.authorization = s.site.backend.server.authorization
  method_eq : e.method = .patch
  body_eq : e.body = some doc.text.toUTF8
  match_eq : e.header? "If-Match" = none
  noneMatch_eq : e.header? "If-None-Match" = none
  itemAt_eq : s.site.backend.server.itemAt?
    (client.endpoint.resolve e.path e.queryString).path = some item

variable {s : Session α} {client : Client} {e : Envelope} {doc : PatchDocument} {item : StoredItem}

/-- The server applies the document to the item. -/
theorem Patching.exists_route (h : s.Patching client e doc item) (hlegible : doc.toJson.Legible)
    (id : String) :
    ∃ collection key,
      Server.segments? (client.endpoint.resolve e.path e.queryString).path =
        some [collection, key] ∧
      s.site.backend.server.route s.site.backend.locator (client.request e id) =
        match PatchDocument.apply doc item.value with
        | .error f => (Server.conflict f, s.site.backend.server)
        | .ok value => s.site.backend.server.store collection key value := by
  obtain ⟨settings, hbuild, hauthorization⟩ := h.authorized
  obtain ⟨collection, key, hsegments, hitem⟩ := Server.itemAt?_eq_some_iff.mp h.itemAt_eq
  refine ⟨collection, key, hsegments, ?_⟩
  have hsent : (client.request e id).headers.get? "Authorization" =
      some s.site.backend.server.authorization := by
    rw [Client.get?_request_authorization hbuild, hauthorization]
  have hmatch : (client.request e id).headers.get? "If-Match" = none :=
    (Client.get?_request_of_other hbuild (by decide) e id).trans h.match_eq
  have hnoneMatch : (client.request e id).headers.get? "If-None-Match" = none :=
    (Client.get?_request_of_other hbuild (by decide) e id).trans h.noneMatch_eq
  exact Server.route_of_patch hsent h.method_eq hsegments hitem hmatch hnoneMatch h.body_eq
    (PatchDocument.ofBytes_text hlegible)

/-- **A preview tells what comes of sending the document.** If the document can be applied to the
item's value, the request succeeds and the server has the resulting value under a new version. If it
cannot, the server is as it was, and the error of the request is that of the local failure: it has
the same kind, message, code, details, remark and report, and besides these the status, the id and
the body of the answer. -/
theorem ask_agrees_with_apply (h : s.Patching client e doc item) (hcreated : e.accepts 201 = true)
    (hrefused : e.accepts 409 = false) (hbreadth : doc.breadth ≤ 0x10000000000000000)
    (hlegible : doc.toJson.Legible)
    (hreports : ∀ f, PatchDocument.apply doc item.value = .error f →
      (Server.conflictBody f).Legible)
    {decode : Decoder α} {id : String}
    (hdecode : ∀ collection key ref,
      ∃ a, decode ((Server.written collection key ref).withHeader "X-Request-Id" id) = .ok a) :
    let before := s.site.backend.server
    let after := (s.ask client e decode id).2.site.backend.server
    match PatchDocument.apply doc item.value with
    | .ok value =>
      (∃ a, (s.ask client e decode id).1 = some (.ok a)) ∧
        after.itemAt? (client.endpoint.resolve e.path e.queryString).path =
          some ⟨value, Server.refText before.nextRef⟩
    | .error f =>
      (s.ask client e decode id).1 = some (.error { StoreError.ofFailure f with
        status := some 409, requestId := some id, body := some (Server.conflict f).body }) ∧
          after = before := by
  intro before after
  obtain ⟨collection, key, hsegments, hroute⟩ := h.exists_route hlegible id
  obtain ⟨hresult, -, hafter, -⟩ := ask_of_quiet h.quiet client e decode id
  rw [Server.handle_snd] at hafter
  cases happly : PatchDocument.apply doc item.value with
  | ok value =>
    -- the server stores the value, and its answer has a status that counts as a success
    rw [happly] at hroute
    have hinterpret := Client.interpret_handle hroute (Server.plain_written collection key _) decode
    have hclassify : ((Server.written collection key (Server.refText before.nextRef)).withHeader
        "X-Request-Id" id).classify e.success id = .ok () := if_pos hcreated
    obtain ⟨a, ha⟩ := hdecode collection key (Server.refText before.nextRef)
    refine ⟨⟨a, ?_⟩, Server.itemAt?_eq_some_iff.mpr ⟨collection, key, hsegments, ?_⟩⟩
    · rw [hresult, hinterpret, hclassify, ha]
      rfl
    · have hwritten : after = (before.write collection key value).1 :=
        hafter.trans (congrArg Prod.snd hroute)
      rw [hwritten, Server.item?_write, if_pos ⟨rfl, rfl⟩]
  | error f =>
    -- the server explains the failure, whose positions are numbers that the explanation can hold
    rw [happly] at hroute
    have hinterpret := Client.interpret_handle hroute (Server.plain_conflict f) decode
    have hindexable : f.Indexable := fun i hi =>
      Nat.lt_of_lt_of_le (PatchDocument.lt_breadth_of_at? (PatchDocument.at?_address happly) i hi)
        hbreadth
    have hclassify := Response.classify_conflict
      (r := (Server.conflict f).withHeader "X-Request-Id" id) rfl rfl hrefused
      hindexable (hreports f happly) id
    have hid : ((Server.conflict f).withHeader "X-Request-Id" id).requestId? = some id := by
      simp [Response.requestId?, Response.header?, Response.withHeader]
    rw [hid] at hclassify
    constructor
    · rw [hresult, hinterpret, hclassify]
      rfl
    · exact hafter.trans (congrArg Prod.snd hroute)

/-- A test in a nested patch that fails behind a change, over a server that compresses its
answers. -/
theorem ask_of_failing_nested_test :
    let settings : ClientSettings :=
      { endpoint := "https://items.test", credentials := .apiKey "k" }
    let doc : PatchDocument :=
      [.inc "/n" none, .patch "" [.test "/n" (.equals (.ofNat 7)) false] false]
    let f := doc.failureOf ⟨[1, 0], .testFailed "/n" (some (.ofNat 2))⟩
    let server := ((Server.new "k" true).write "c" "k" (.ofPairs [("n", .ofNat 1)])).1
    let e := (Envelope.new .patch "c/k").withPatch doc
    ∃ client, settings.build = .ok client ∧
      let s : Session Unit := start { endpoint := client.endpoint, config := {}, free := 16 }
        { behaviour := .serve, server, locator := "" }
      (s.ask client e Decoder.empty "id").1 = some (.error { StoreError.ofFailure f with
        status := some 409, requestId := some "id", body := some (Server.conflict f).body }) ∧
      (s.ask client e Decoder.empty "id").2.site.backend.server = server := by
  intro settings doc f server e
  have hview : settings.build.toOption.map Client.endpoint =
      some ⟨⟨"https", some ⟨"", .domain "items.test", none⟩, .segments [""], none, none⟩,
      "/v0"⟩ := by decide +kernel
  obtain ⟨client, hbuild, hendpoint⟩ := ClientSettings.exists_of_endpoint hview
  have hpath : (client.endpoint.resolve e.path e.queryString).path = "/v0/c/k" := by
    rw [hendpoint]
    decide +kernel
  have hitem : server.itemAt? "/v0/c/k" = some ⟨.ofPairs [("n", .ofNat 1)], Server.refText 1⟩ := by
    decide +kernel
  refine ⟨client, hbuild, ?_⟩
  intro s
  have hpool : Pool.new client.endpoint {} =
      .ok { endpoint := client.endpoint, config := {}, free := 16 } := rfl
  have hpatching : s.Patching client e doc ⟨.ofPairs [("n", .ofNat 1)], Server.refText 1⟩ :=
    { quiet := quiet_start hpool server ""
      authorized := ⟨settings, hbuild, rfl⟩
      method_eq := rfl
      body_eq := rfl
      match_eq := by decide
      noneMatch_eq := by decide
      itemAt_eq := hpath ▸ hitem }
  have happly : PatchDocument.apply doc (.ofPairs [("n", .ofNat 1)]) = .error f := rfl
  have hlegible : doc.toJson.Legible :=
    Json.legible_of_isIntegral (by decide +kernel) (by decide +kernel) (by decide +kernel)
  have hreport : (Server.conflictBody f).Legible :=
    Json.legible_of_isIntegral (by decide +kernel) (by decide +kernel) (by decide +kernel)
  -- there is but one report to be read
  have hreports (f' : PatchFailure)
      (h : PatchDocument.apply doc (.ofPairs [("n", .ofNat 1)]) = .error f') :
      (Server.conflictBody f').Legible := by
    cases happly.symm.trans h
    exact hreport
  have hdecode (collection key ref : String) :
      ∃ a, Decoder.empty ((Server.written collection key ref).withHeader "X-Request-Id" "id") =
        .ok a := ⟨(), rfl⟩
  have hagrees := ask_agrees_with_apply hpatching (by decide) (by decide) (by decide) hlegible
    hreports hdecode
  rw [happly] at hagrees
  exact hagrees

end Session

end ItemStore
