import ItemStore.Proofs.Client.Exchange
import ItemStore.Proofs.Server.History
import ItemStore.Proofs.Server.Listing

/-!
# Walks over the pages of a collection

A client reads a collection page by page. Each page but the last links to the next one, and between
two of its requests other parties write and delete items. This module says what such a walk finds.

## Main results

- `Client.walk_misses_nothing`: whatever happens between the requests, the keys increase over the
  whole walk, and a walk that has reached the last page has found every key that was there all the
  time.

## Architecture

1. `Shared.run` is what others do, `Client.walk` the walk itself, with the requests of the client in
   between.
2. `Client.fetch_of_lists`: a request for a page finds the first keys behind the start of its
   window, and its link leads to an envelope that asks for the window behind them. The way there and
   back is in `ItemStore.Proofs.Server.Listing` and `ItemStore.Proofs.Request.Link`.
3. `Walked.last` and `Walked.cons` put one page before the pages of the rest of a walk; they do not
   mention requests.
-/

namespace ItemStore

/-! ## Servers in use -/

namespace Shared

/-- What comes of several steps. -/
def run (s : Shared) (actions : List Action) : Shared :=
  actions.foldl (fun s action => (s.act action).2) s

/-- A server whose collections are in order, and which accepts this authorization. -/
structure Ready (s : Shared) (authorization : String) : Prop where
  ordered : s.server.Ordered
  authorization_eq : s.server.authorization = authorization

variable {s : Shared} {authorization : String}

theorem Ready.act (h : s.Ready authorization) (action : Action) :
    (s.act action).2.Ready authorization := by
  cases action with
  | beginInsert collection key value => exact ⟨h.ordered, h.authorization_eq⟩
  | finishInsert i =>
    unfold Shared.act
    cases hp : s.pending[i]? with
    | none => simpa only [hp] using h
    | some p => simpa only [hp] using ⟨h.ordered.place _ _ _, h.authorization_eq⟩
  | request locator request =>
    have hhandled := s.server.handled_handle locator request
    exact ⟨hhandled.ordered h.ordered, hhandled.authorization_eq.trans h.authorization_eq⟩

theorem Ready.run (h : s.Ready authorization) (actions : List Action) :
    (s.run actions).Ready authorization := by
  induction actions generalizing s with
  | nil => exact h
  | cons action rest ih => exact ih (h.act action)

theorem History.ready {apiKey : String} {gzip : Bool} {log : List Entry}
    (h : History apiKey gzip log s) :
    s.Ready (Credentials.apiKey apiKey).authorization := by
  induction h with
  | start => exact ⟨Server.ordered_new apiKey gzip, rfl⟩
  | act h action ih => exact ih.act action

end Shared

/-! ## Walks -/

/-- One stop of a walk: what other parties do before it, and the marks of its request and of the
answer. -/
structure Stop where
  others : List Shared.Action
  locator : String
  id : String

/-- The states in which a walk finds a server, one at each stop. -/
def Shared.stages : Shared → List Stop → List Shared
  | _, [] => []
  | s, stop :: rest => s.run stop.others :: stages (s.run stop.others) rest

namespace Client

/-- Asks for a page. -/
def fetch (client : Client) (s : Shared) (e : Envelope) (stop : Stop) :
    Except StoreError Page × Shared :=
  let (response, server) := s.server.handle stop.locator (client.request e stop.id)
  (response.interpret e.success Decoder.page stop.id, ⟨server, s.pending⟩)

/-- Reads the page that an envelope asks for and all behind it, until there is no link or no further
stop. Links are followed from the first envelope. -/
def walk (client : Client) (first : Envelope) :
    Envelope → Shared → List Stop → Except StoreError (List Page)
  | _, _, [] => .ok []
  | e, s, stop :: rest => do
    let (result, s) := client.fetch (s.run stop.others) e stop
    let page ← result
    match page.next with
    | none => return [page]
    | some link =>
      let e ← first.follow link
      let pages ← walk client first e s rest
      return page :: pages

end Client

/-! ## One page -/

/-- An envelope asks for a window of a collection. -/
structure Envelope.Lists (e : Envelope) (collection : String) (w : Server.Window) : Prop where
  method_eq : e.method = .get
  /-- The name of the collection, or a path that is under the base path already. -/
  path_eq : e.path = Percent.encode collection ∨
    e.path = Url.segmentsText ["v0", Percent.encode collection]
  query_eq : e.query = w.pairs
  accepts : e.accepts 200 = true

namespace Client

/-- A client that may list a collection of a server, in pages of a valid size. -/
structure Reads (client : Client) (authorization collection : String) (limit : Nat) : Prop where
  authorized : ∃ settings : ClientSettings, settings.build = .ok client ∧
    settings.credentials.authorization = authorization
  basePath_eq : client.endpoint.basePath = "/v0"
  named : collection ≠ ""
  not_dot : collection ≠ "."
  not_dots : collection ≠ ".."
  valid : 1 ≤ limit ∧ limit ≤ 100

variable {client : Client} {authorization collection : String} {limit : Nat} {after : Option String}
  {e : Envelope} {s : Shared}

theorem Reads.plain (h : client.Reads authorization collection limit) :
    ∀ part ∈ ["v0", Percent.encode collection], Url.IsPlainSegment part := by
  simp [Url.isPlainSegment_root, Url.isPlainSegment_encode h.not_dot h.not_dots]

theorem Reads.encoded_ne (h : client.Reads authorization collection limit) :
    Percent.encode collection ≠ "" :=
  mt Percent.encode_eq_empty_iff.mp h.named

theorem Reads.path_resolve (h : client.Reads authorization collection limit) {w : Server.Window}
    (he : e.Lists collection w) (query : String) :
    (client.endpoint.resolve e.path query).path =
      Url.segmentsText ["v0", Percent.encode collection] := by
  have hbase : client.endpoint.basePath = Url.segmentsText ["v0"] := h.basePath_eq
  have hfull : client.endpoint.fullPath e.path =
      Url.segmentsText ["v0", Percent.encode collection] := by
    rcases he.path_eq with hpath | hpath
    · have hchars : e.path = String.ofList (Url.segmentsChars [Percent.encode collection]) := by
        simp [hpath, Url.segmentsChars]
      rw [hchars, Endpoint.fullPath_of_relative hbase h.encoded_ne (h.plain _ (by simp)),
        List.singleton_append]
    · rw [hpath]
      exact Endpoint.fullPath_of_based hbase (List.cons_ne_nil _ _)
  exact Endpoint.path_resolve hfull (List.cons_ne_nil _ _) h.plain query

/-- What a client finds on a page. -/
theorem fetch_of_lists (h : client.Reads authorization collection limit)
    (hready : s.Ready authorization) (he : e.Lists collection ⟨limit, after⟩)
    (hread : s.server.Readable collection ⟨limit, after⟩) (stop : Stop) :
    ∃ page, client.fetch s e stop = (.ok page, s) ∧
      page.Shows collection limit (Assoc.keys (s.server.itemsAfter collection after)) := by
  obtain ⟨settings, hbuild, hauthorization⟩ := h.authorized
  have hsent : (client.request e stop.id).headers.get? "Authorization" =
      some s.server.authorization := by
    rw [get?_request_authorization hbuild, hauthorization, hready.authorization_eq]
  have hsegments : Server.segments? (client.request e stop.id).url.path = some [collection] := by
    have hnamed : ∀ name ∈ [collection], name ≠ "" := by simpa using h.named
    have hnames := Server.segments?_segmentsText hnamed
    rw [List.map_singleton, ← h.path_resolve he e.queryString] at hnames
    exact hnames
  have hwindow : Server.window? (client.request e stop.id).url.queryPairs =
      some ⟨limit, after⟩ := by
    rw [request, Envelope.queryString, Endpoint.queryPairs_resolve, he.query_eq,
      Server.window?_pairs h.valid]
  have hroute : s.server.route stop.locator (client.request e stop.id) =
      (.ofJson 200 (s.server.listing collection ⟨limit, after⟩), s.server) :=
    Server.route_of_listing hsent he.method_eq hsegments hwindow
  obtain ⟨page, hpage, hshows⟩ :=
    Page.exists_ofJson?_listing s.server collection (w := ⟨limit, after⟩) h.valid.2
  have hdecode : Decoder.page
      ((Response.ofJson 200 (s.server.listing collection ⟨limit, after⟩)).withHeader
      "X-Request-Id" stop.id) = .ok page := by
    have hbody : Page.ofBytes? (s.server.listing collection ⟨limit, after⟩).compact.toUTF8 =
        some page := by
      rw [Page.ofBytes?_toUTF8, hread, hpage]
    simp only [Decoder.page, Decoder.ofBody, Response.withHeader, Response.ofJson, hbody]
  have hclassify : ((Response.ofJson 200 (s.server.listing collection ⟨limit, after⟩)).withHeader
      "X-Request-Id" stop.id).classify e.success stop.id = .ok () := if_pos he.accepts
  have hresult := interpret_handle hroute (Response.plain_ofJson 200 _) Decoder.page
  rw [hclassify, hdecode] at hresult
  refine ⟨page, ?_, hshows⟩
  have hafter : (s.server.handle stop.locator (client.request e stop.id)).2 = s.server := by
    rw [Server.handle_snd, hroute]
  rw [fetch]
  simp only [hresult, hafter]
  rfl

/-- The link on a page leads to an envelope that asks for what is behind the page. -/
theorem follow_of_shows (h : client.Reads authorization collection limit) {page : Page}
    {among : List String} (hshows : page.Shows collection limit among) {link : String}
    (hlink : page.next = some link) {first : Envelope} (haccepts : first.accepts 200 = true) :
    ∃ last next, page.keys.getLast? = some last ∧ limit < among.length ∧
    first.follow link = .ok next ∧
      next.Lists collection ⟨limit, some last⟩ := by
  rw [hshows.next_eq] at hlink
  split at hlink
  next hmore =>
    obtain ⟨last, hlast, rfl⟩ := Option.map_eq_some_iff.mp hlink
    have hfollow := Envelope.follow_link (by decide) h.plain
      (Server.Window.pairs ⟨limit, some last⟩) first
    rw [← Server.nextLink_eq] at hfollow
    exact ⟨last, _, hlast, hmore, hfollow, rfl, .inr rfl, rfl, haccepts⟩
  next => cases hlink

end Client

/-! ## Many pages -/

/-- The last page of a walk has no link. -/
def Complete (pages : List Page) : Prop :=
  ∃ page, pages.getLast? = some page ∧ page.isLast = true

/-- How many pages some keys fill. Without any there is an empty page. -/
def pagesFor (count limit : Nat) : Nat :=
  max 1 ((count + limit - 1) / limit)

/-- What a walk through a collection finds, in pages of a size and from the start of a window on. -/
structure Walked (collection : String) (limit : Nat) (after : Option String) (s : Shared)
    (stops : List Stop) (pages : List Page) : Prop where
  /-- No page has more results than were asked for, and each result has a key. -/
  limited : ∀ page ∈ pages, page.results.length ≤ limit ∧ page.keys.length = page.results.length
  /-- The keys increase over the whole walk, in the order of their bytes. -/
  increasing : (pages.flatMap Page.keys).Pairwise fun k k' => Text.bytes k < Text.bytes k'
  /-- All keys lie behind the start. -/
  beyond : ∀ key ∈ pages.flatMap Page.keys, Server.Beyond after key
  /-- The items of a page were there when it was read. -/
  present : ∀ stage ∈ pages.zip (s.stages stops),
    ∀ key ∈ stage.1.keys, (stage.2.server.item? collection key).isSome
  /-- The walk goes on until it is complete or there is no further stop. -/
  ends : Complete pages ∨ pages.length = stops.length
  /-- A complete walk has found every key behind the start that was there at all its stops, and has
  found it once. -/
  exhaustive : Complete pages → ∀ key, Server.Beyond after key →
    (∀ stage ∈ (s.stages stops).take pages.length, (stage.server.item? collection key).isSome) →
    (pages.flatMap Page.keys).count key = 1
  /-- If the collection stays as it is, the walk is complete when it has read the pages that the
  keys behind the start fill. -/
  quiet : ∀ items, (∀ stage ∈ s.stages stops, stage.server.itemsOf collection = items) →
    pagesFor ((Assoc.keys items).countP fun key => Server.Beyond after key) limit ≤ stops.length →
    Complete pages ∧ pages.length = pagesFor
    ((Assoc.keys items).countP fun key => Server.Beyond after key) limit

namespace Walked

variable {collection : String} {limit : Nat} {after : Option String} {s : Shared} {stop : Stop}
  {stops : List Stop} {page : Page} {pages : List Page}

/-- A walk without a stop finds nothing. -/
theorem nil (collection : String) (limit : Nat) (after : Option String) (s : Shared) :
    Walked collection limit after s [] [] where
  limited := by simp
  increasing := by simp
  beyond := by simp
  present := by simp
  ends := .inr rfl
  exhaustive := by rintro ⟨page, hpage, -⟩; cases hpage
  quiet := by
    intro items _ hstops
    exact absurd (Nat.le_trans (Nat.le_max_left ..) hstops) (by decide)

section Stage

variable {t : Shared} (hordered : t.server.Ordered)
  (hshows : page.Shows collection limit (Assoc.keys (t.server.itemsAfter collection after)))

include hordered hshows

theorem increasing_of_shows : page.keys.Pairwise (· < ·) := by
  rw [hshows.keys_eq]
  exact List.Pairwise.sublist (List.take_sublist ..)
    (Server.sorted_itemsAfter hordered collection after)

omit hordered in
theorem limited_of_shows :
    page.results.length ≤ limit ∧ page.keys.length = page.results.length := by
  refine ⟨?_, hshows.length_eq.symm⟩
  rw [hshows.length_eq, hshows.keys_eq]
  exact List.length_take_le ..

omit hordered in
theorem mem_of_shows {key : String} (hkey : key ∈ page.keys) :
    Server.Beyond after key ∧ (t.server.item? collection key).isSome := by
  rw [hshows.keys_eq] at hkey
  exact Server.mem_keys_itemsAfter.mp (List.mem_of_mem_take hkey)

end Stage

/-- A page without a link ends the walk. -/
theorem last (hordered : (s.run stop.others).server.Ordered)
    (hshows : page.Shows collection limit
      (Assoc.keys ((s.run stop.others).server.itemsAfter collection after)))
    (hpositive : 1 ≤ limit) (hnext : page.next = none) (stops : List Stop) :
    Walked collection limit after s (stop :: stops) [page] := by
  have hlength : ((s.run stop.others).server.itemsAfter collection after).length ≤ limit := by
    -- if there were more keys, the page would have a last one, and a link behind it
    refine Nat.le_of_not_lt fun hmore => ?_
    have hnone := hshows.next_eq
    rw [hnext, Assoc.keys, List.length_map, if_pos hmore, eq_comm, Option.map_eq_none_iff,
      List.getLast?_eq_none_iff, hshows.keys_eq, List.take_eq_nil_iff] at hnone
    rcases hnone with hzero | hnil
    · omega
    · simp only [Assoc.keys, List.map_eq_nil_iff] at hnil
      rw [hnil] at hmore
      exact Nat.not_lt_zero _ hmore
  have hcomplete : Complete [page] := ⟨page, rfl, by simp [Page.isLast, hnext]⟩
  have hincreasing := increasing_of_shows hordered hshows
  have hkeys : [page].flatMap Page.keys = page.keys := by simp
  constructor
  case limited => simpa using limited_of_shows hshows
  case increasing => exact Text.pairwise_bytes_lt_iff.mpr (hkeys ▸ hincreasing)
  case beyond =>
    intro key hkey
    exact (mem_of_shows hshows (hkeys ▸ hkey)).1
  case present =>
    intro stage hstage key hkey
    simp only [Shared.stages, List.zip_cons_cons, List.zip_nil_left, List.mem_singleton] at hstage
    subst hstage
    exact (mem_of_shows hshows hkey).2
  case ends => exact .inl hcomplete
  case exhaustive =>
    intro _ key hbeyond hpresent
    have hkey : key ∈ page.keys := by
      rw [hshows.keys_eq, List.take_of_length_le (by rwa [Assoc.keys, List.length_map])]
      exact Server.mem_keys_itemsAfter.mpr ⟨hbeyond, hpresent _ (by simp [Shared.stages])⟩
    rw [hkeys, (Assoc.nodup_of_increasing hincreasing).count, if_pos hkey]
  case quiet =>
    intro items hsame _
    obtain rfl : (s.run stop.others).server.itemsOf collection = items := hsame _ List.mem_cons_self
    rw [← Server.length_itemsAfter]
    refine ⟨hcomplete, ?_⟩
    have hquotient : (((s.run stop.others).server.itemsAfter collection after).length + limit - 1) /
        limit < 2 := by
      rw [Nat.div_lt_iff_lt_mul hpositive]
      omega
    rw [pagesFor, List.length_singleton]
    omega

/-- A page with a link does not end a walk. -/
theorem complete_cons (hnext : page.isLast = false) :
    Complete (page :: pages) ↔ Complete pages := by
  unfold Complete
  cases pages with
  | nil => simp [hnext]
  | cons next rest => rw [List.getLast?_cons_cons]

/-- Of more keys than a page shows the others fill one page less. -/
theorem pagesFor_of_lt {count : Nat} (hpositive : 1 ≤ limit) (hmore : limit < count) :
    pagesFor count limit = pagesFor (count - limit) limit + 1 := by
  have hsplit : count + limit - 1 = count - limit + limit - 1 + limit := by omega
  have hsome : 1 ≤ (count - limit + limit - 1) / limit :=
    (Nat.le_div_iff_mul_le hpositive).mpr (by omega)
  rw [pagesFor, pagesFor, hsplit, Nat.add_div_right _ hpositive]
  omega

/-- A page with a link is followed by a walk behind its last key. -/
theorem cons (hordered : (s.run stop.others).server.Ordered)
    (hshows : page.Shows collection limit
      (Assoc.keys ((s.run stop.others).server.itemsAfter collection after)))
    (hpositive : 1 ≤ limit)
    (hmore : limit < ((s.run stop.others).server.itemsAfter collection after).length)
    {last : String} (hlast : page.keys.getLast? = some last)
    (hrest : Walked collection limit (some last) (s.run stop.others) stops pages) :
    Walked collection limit after s (stop :: stops) (page :: pages) := by
  have hkeys : page.keys = Assoc.keys
      (((s.run stop.others).server.itemsAfter collection after).take limit) :=
    hshows.keys_eq.trans List.map_take.symm
  have hcut := Server.itemsAfter_of_last hordered (hkeys ▸ hlast)
  obtain ⟨hfront, hback⟩ :=
    (Server.sorted_itemsAfter hordered collection after).of_last (hkeys ▸ hlast)
  rw [← hkeys] at hfront
  have hisLast : page.isLast = false := by
    have hnext := hshows.next_eq
    rw [Assoc.keys, List.length_map, if_pos hmore, hlast] at hnext
    simp [Page.isLast, hnext]
  have hbehind {key : String} (hkey : key ∈ pages.flatMap Page.keys) : last < key :=
    Server.beyond_iff.mp (hrest.beyond key hkey) last rfl
  -- what lies behind the page lies behind its start too
  have hbeyond {key : String} (hkey : last < key) : Server.Beyond after key := by
    have hstart := Server.beyond_iff.mp (mem_of_shows hshows (List.mem_of_getLast? hlast)).1
    exact Server.beyond_iff.mpr fun a ha => String.lt_trans (hstart a ha) hkey
  have hincreasing : ((page :: pages).flatMap Page.keys).Pairwise (· < ·) := by
    rw [List.flatMap_cons, List.pairwise_append]
    refine ⟨increasing_of_shows hordered hshows, ?_, ?_⟩
    · exact Text.pairwise_bytes_lt_iff.mp hrest.increasing
    · exact fun key hkey key' hkey' =>
        Std.lt_of_le_of_lt (String.not_lt.mp (hfront key hkey)) (hbehind hkey')
  constructor
  case limited => exact List.forall_mem_cons.mpr ⟨limited_of_shows hshows, hrest.limited⟩
  case increasing => exact Text.pairwise_bytes_lt_iff.mpr hincreasing
  case beyond =>
    intro key hkey
    rw [List.flatMap_cons, List.mem_append] at hkey
    rcases hkey with hkey | hkey
    · exact (mem_of_shows hshows hkey).1
    · exact hbeyond (hbehind hkey)
  case present =>
    rw [Shared.stages, List.zip_cons_cons]
    exact List.forall_mem_cons.mpr ⟨fun key hkey => (mem_of_shows hshows hkey).2, hrest.present⟩
  case ends =>
    refine hrest.ends.imp (complete_cons hisLast).mpr fun hlength => ?_
    rw [List.length_cons, List.length_cons, hlength]
  case exhaustive =>
    intro hcomplete key hkey hpresent
    rw [Shared.stages, List.length_cons, List.take_succ_cons] at hpresent
    obtain ⟨hstage, hstages⟩ := List.forall_mem_cons.mp hpresent
    -- a key that was there at this stop is on this page, or behind it and there at all the other
    -- stops
    have hmem : key ∈ (page :: pages).flatMap Page.keys := by
      have hitem := Server.mem_keys_itemsAfter.mpr ⟨hkey, hstage⟩
      rw [← List.take_append_drop limit ((s.run stop.others).server.itemsAfter collection after),
        Assoc.keys, List.map_append, List.mem_append, ← Assoc.keys, ← Assoc.keys, ← hkeys] at hitem
      rw [List.flatMap_cons, List.mem_append]
      refine hitem.imp_right fun hitem => List.count_pos_iff.mp ?_
      have hlater : Server.Beyond (some last) key :=
        Server.beyond_iff.mpr (by simpa using hback key hitem)
      rw [hrest.exhaustive ((complete_cons hisLast).mp hcomplete) key hlater hstages]
      exact Nat.one_pos
    rw [(Assoc.nodup_of_increasing hincreasing).count, if_pos hmem]
  case quiet =>
    intro items hsame hstops
    rw [Shared.stages] at hsame
    obtain ⟨hstage, hstages⟩ := List.forall_mem_cons.mp hsame
    -- what is left behind the page is what the page has left
    have hleft := hrest.quiet items hstages
    rw [← hstage, ← Server.length_itemsAfter, hcut, List.length_drop] at hleft
    rw [← hstage, ← Server.length_itemsAfter, pagesFor_of_lt hpositive hmore,
      List.length_cons] at hstops ⊢
    obtain ⟨hcomplete, hlength⟩ := hleft (Nat.le_of_succ_le_succ hstops)
    exact ⟨(complete_cons hisLast).mpr hcomplete, by rw [hlength]⟩

end Walked

namespace Client

variable {client : Client} {collection : String} {limit : Nat} {after : Option String}
  {first : Envelope} {s : Shared}

theorem walk_of_last {e : Envelope} {s s' : Shared} {stop : Stop} {page : Page}
    (hfetch : client.fetch (s.run stop.others) e stop = (.ok page, s')) (hnext : page.next = none)
    (rest : List Stop) :
    client.walk first e s (stop :: rest) = .ok [page] := by
  simp only [walk, hfetch, bind, Except.bind, hnext, pure, Except.pure]

theorem walk_of_link {e next : Envelope} {s s' : Shared} {stop : Stop} {page : Page} {link : String}
    {rest : List Stop} {pages : List Page}
    (hfetch : client.fetch (s.run stop.others) e stop = (.ok page, s'))
    (hnext : page.next = some link) (hfollow : first.follow link = .ok next)
    (hwalk : client.walk first next s' rest = .ok pages) :
    client.walk first e s (stop :: rest) = .ok (page :: pages) := by
  simp only [walk, hfetch, bind, Except.bind, hnext, hfollow, hwalk, pure, Except.pure]

/-- A walk finds page after page. -/
theorem walked_of_ready {authorization : String} (h : client.Reads authorization collection limit)
    (haccepts : first.accepts 200 = true) {stops : List Stop} {e : Envelope}
    (hready : s.Ready authorization) (he : e.Lists collection ⟨limit, after⟩)
    (hread : ∀ stage ∈ s.stages stops, ∀ after, stage.server.Readable collection ⟨limit, after⟩) :
    ∃ pages, client.walk first e s stops = .ok pages ∧
    Walked collection limit after s stops pages := by
  -- after a page the walk goes on from the state that it was read in, behind the last key of the
  -- page
  induction stops generalizing s e after with
  | nil => exact ⟨[], rfl, .nil ..⟩
  | cons stop rest ih =>
    obtain ⟨hstage, hstages⟩ := List.forall_mem_cons.mp hread
    have hready' := hready.run stop.others
    obtain ⟨page, hfetch, hshows⟩ := fetch_of_lists h hready' he (hstage after) stop
    cases hnext : page.next with
    | none =>
      exact ⟨[page], walk_of_last hfetch hnext rest,
        .last hready'.ordered hshows h.valid.1 hnext rest⟩
    | some link =>
      obtain ⟨last, next, hlast, hmore, hfollow, hnext'⟩ := follow_of_shows h hshows hnext haccepts
      rw [Assoc.keys, List.length_map] at hmore
      obtain ⟨pages, hwalk, hwalked⟩ := ih hready' hnext' hstages
      exact ⟨page :: pages, walk_of_link hfetch hnext hfollow hwalk,
        .cons hready'.ordered hshows h.valid.1 hmore hlast hwalked⟩

/-- **A walk misses nothing and repeats nothing**, whatever other parties do between its
requests. -/
theorem walk_misses_nothing {apiKey : String} {gzip : Bool} {log : List Shared.Entry}
    (hlog : Shared.History apiKey gzip log s)
    (h : client.Reads (Credentials.apiKey apiKey).authorization collection limit)
    (hfirst : first.Lists collection ⟨limit, after⟩) (stops : List Stop)
    (hread : ∀ stage ∈ s.stages stops, ∀ after, stage.server.Readable collection ⟨limit, after⟩) :
    ∃ pages, client.walk first first s stops = .ok pages ∧
    Walked collection limit after s stops pages :=
  walked_of_ready h hfirst.accepts hlog.ready hfirst hread

/-- A walk over a collection whose name needs encoding, during which an item is deleted and another
one written. -/
theorem walk_misses_nothing_beside_writers :
    let settings : ClientSettings :=
      { endpoint := "https://items.test", credentials := .apiKey "k" }
    let s : Shared := ⟨Server.new "k" true, []⟩
    let first := (Envelope.new .get (Percent.encode "a/b")).withQuery "limit" "2"
    let insert (key : String) : List Shared.Action :=
      [.beginInsert "a/b" key .null, .finishInsert 0]
    let deletion : Request :=
      { id := "", method := .delete
        url :=
          ⟨"https", some ⟨"", .domain "items.test", none⟩,
            .segments ["v0", "a%2Fb", "x"], none, none⟩
        headers := ⟨[("Authorization", s.server.authorization)]⟩
        body := none }
    let stops : List Stop :=
      [⟨insert "u" ++ insert "x" ++ insert "?&=ü" ++ insert "z", "", "1"⟩,
        ⟨.request "" deletion :: insert "y", "", "2"⟩]
    (s.stages stops).map (fun stage => Assoc.keys (stage.server.itemsOf "a/b")) =
        [["?&=ü", "u", "x", "z"], ["?&=ü", "u", "y", "z"]] ∧
      ∃ client, settings.build = .ok client ∧
        ∃ pages, client.walk first first s stops = .ok pages ∧
        Walked "a/b" 2 none s stops pages := by
  intro settings s first insert deletion stops
  refine ⟨by decide +kernel, ?_⟩
  have hendpoint : settings.build.toOption.map Client.endpoint =
      some ⟨⟨"https", some ⟨"", .domain "items.test", none⟩, .segments [""], none, none⟩,
      "/v0"⟩ := by decide +kernel
  obtain ⟨client, hbuild, hclient⟩ := ClientSettings.exists_of_endpoint hendpoint
  have hreads : client.Reads (Credentials.apiKey "k").authorization "a/b" 2 :=
    { authorized := ⟨settings, hbuild, rfl⟩
      basePath_eq := by rw [hclient]
      named := by decide
      not_dot := by decide
      not_dots := by decide
      valid := by decide }
  have hfirst : first.Lists "a/b" ⟨2, none⟩ := ⟨rfl, .inl rfl, rfl, by decide⟩
  have hvalues : ∀ stage ∈ s.stages stops,
      ∀ entry ∈ stage.server.itemsOf "a/b", entry.2.value = .null := by decide +kernel
  refine ⟨client, hbuild,
    walk_misses_nothing .start hreads hfirst stops fun stage hstage after => ?_⟩
  refine Server.readable_of_fits (fun entry hentry => ?_) _
  rw [hvalues stage hstage entry hentry]
  exact Json.inherited_fits.null _

end Client

end ItemStore
