import ItemStore.Proofs.Page
import ItemStore.Proofs.Patch.Codec
import ItemStore.Proofs.Request.Link
import ItemStore.Proofs.Server.Store
import ItemStore.Proofs.Text.Blank

/-!
# Listings

What a server answers to a request for a page of a collection, and what a client reads in it.

- `Server.route_of_listing`: a request that states a collection and a window gets the page of that
  window;
- `Page.ofJson?_listing`: the page has the first items behind the start of the window, and a link if
  there are more;
- `Server.nextLink_eq`: the link states the same collection, and the window behind the last key of
  the page;
- `Server.readable_of_fits`: a client reads the same in the text of the page, if the values of the
  items fit into a text.
-/

namespace ItemStore

namespace Server

/-! ## Addresses -/

/-- A path below the root names what its segments encode. -/
theorem segments?_segmentsText {names : List String} (h : ∀ name ∈ names, name ≠ "") :
    segments? (Url.segmentsText ("v0" :: names.map Percent.encode)) = some names := by
  have hroot : Text.dropLiteral? root (Url.segmentsText ("v0" :: names.map Percent.encode)) =
      some (Url.segmentsText (names.map Percent.encode)) := by
    rw [Text.dropLiteral?_eq_some_iff, ← String.toList_inj]
    simp [Url.segmentsText, root]
  have hslash : ∀ part ∈ names.map Percent.encode, '/' ∉ part.toList := by
    intro part hpart hmem
    obtain ⟨name, -, rfl⟩ := List.mem_map.mp hpart
    exact Url.ne_slash_of_isPlain (Percent.isPlain_of_mem_encode hmem) rfl
  have hfilter : (names.map Percent.encode).filter (fun segment => segment ≠ "") =
      names.map Percent.encode := by
    refine List.filter_eq_self.mpr fun part hpart => ?_
    obtain ⟨name, hname, rfl⟩ := List.mem_map.mp hpart
    exact decide_eq_true (mt Percent.encode_eq_empty_iff.mp (h name hname))
  rw [segments?, hroot, Option.map_some, Url.split_segmentsText hslash,
    List.filter_cons_of_neg (by simp), hfilter, List.map_map]
  congr 1
  refine (List.map_congr_left fun name _ => ?_).trans (List.map_id' _)
  rw [Function.comp_apply, Percent.decode?_encode, Option.getD_some]

/-! ## Windows -/

theorem limit?_toString {n : Nat} (h : 1 ≤ n ∧ n ≤ 100) : limit? (toString n) = some n := by
  have hdigits : (Nat.toDigits 10 n).all Char.isDigit = true :=
    List.all_eq_true.mpr NumberParts.isDigit_of_mem_toDigits
  have hvalue : Pointer.natOfDigits (Nat.toDigits 10 n) = n := NumberParts.natOfDigits_toDigits n
  rw [limit?, NumberParts.toList_toString]
  split
  next rest hcs =>
    -- a digit is no sign
    have hsign : '+'.isDigit = true :=
      NumberParts.isDigit_of_mem_toDigits '+' (hcs ▸ List.mem_cons_self)
    cases hsign
  next => simp [hdigits, hvalue, h]

/-- The parameters that ask for a window. -/
def Window.pairs (w : Window) : List (String × String) :=
  ("limit", toString w.limit) :: w.after.toList.map fun a => ("afterKey", a)

theorem window?_pairs {w : Window} (h : 1 ≤ w.limit ∧ w.limit ≤ 100) :
    window? w.pairs = some w := by
  obtain ⟨limit, after⟩ := w
  have hlimit : limit? limit.repr = some limit := limit?_toString h
  cases after <;> simp [window?, Window.pairs, hlimit]

/-- The link states the collection, and the window behind a key. -/
theorem nextLink_eq (collection : String) (limit : Nat) (last : String) :
    nextLink collection limit last =
      Envelope.linkTo ["v0", Percent.encode collection] (Window.pairs ⟨limit, some last⟩) := by
  -- digits are written as they are
  have hlimit : Percent.encode limit.repr = limit.repr := by
    refine Percent.encode_eq_self fun c hc => ?_
    have hdigit := NumberParts.isDigit_of_mem_toDigits c (NumberParts.toList_toString limit ▸ hc)
    simp [Percent.isUnreserved, Char.isAlphanum, hdigit]
  have hname : Percent.encode "limit" = "limit" := by decide +kernel
  have hafter : Percent.encode "afterKey" = "afterKey" := by decide +kernel
  rw [← String.toList_inj]
  simp [nextLink, root, Envelope.linkTo, Url.segmentsText, Window.pairs, Query.toList_encode,
    Query.toList_encodePair, hlimit, hname, hafter]

/-! ## Items behind a key -/

/-- A key lies behind the start of a window, in the order of the bytes. -/
def Beyond (after : Option String) (key : String) : Prop :=
  ∀ a ∈ after, Text.bytes a < Text.bytes key

instance (after : Option String) (key : String) : Decidable (Beyond after key) :=
  inferInstanceAs (Decidable (∀ a ∈ after, Text.bytes a < Text.bytes key))

theorem beyond_iff {after : Option String} {key : String} :
    Beyond after key ↔ ∀ a ∈ after, a < key := by
  simp only [Beyond, Text.lt_iff_bytes_lt]

theorem sorted_itemsAfter {s : Server} (h : s.Ordered) (collection : String)
    (after : Option String) :
    Assoc.Sorted (s.itemsAfter collection after) :=
  (h collection).sublist List.filter_sublist

/-- The items of a window are those that lie behind its start. -/
theorem mem_keys_itemsAfter {s : Server} {collection : String} {after : Option String}
    {key : String} :
    key ∈ Assoc.keys (s.itemsAfter collection after) ↔
      Beyond after key ∧ (s.item? collection key).isSome := by
  have hitem : (s.item? collection key).isSome ↔ key ∈ Assoc.keys (s.itemsOf collection) := by
    rw [Assoc.mem_keys_iff, Option.isSome_iff_exists]
    rfl
  rw [hitem, beyond_iff]
  cases after <;> simp [itemsAfter, Assoc.keys, and_comm]

/-- How many items a window has depends on the keys of the collection only. -/
theorem length_itemsAfter (s : Server) (collection : String) (after : Option String) :
    (s.itemsAfter collection after).length =
      (Assoc.keys (s.itemsOf collection)).countP fun key => Beyond after key := by
  rw [Assoc.keys, List.countP_map, itemsAfter, ← List.countP_eq_length_filter]
  refine List.countP_congr fun entry _ => ?_
  cases after <;> simp [beyond_iff]

/-- Behind the last of the first items of a window are the others. -/
theorem itemsAfter_of_last {s : Server} (h : s.Ordered) {collection : String}
    {after : Option String} {limit : Nat} {last : String}
    (hlast : (Assoc.keys ((s.itemsAfter collection after).take limit)).getLast? = some last) :
    s.itemsAfter collection (some last) = (s.itemsAfter collection after).drop limit := by
  have hmem : last ∈ Assoc.keys (s.itemsAfter collection after) :=
    List.map_subset _ (List.take_subset _ _) (List.mem_of_getLast? hlast)
  have hbeyond := beyond_iff.mp (mem_keys_itemsAfter.mp hmem).1
  -- what lies behind the last of them lies behind the start of the window too
  have hwindow : s.itemsAfter collection (some last) =
      (s.itemsAfter collection after).filter fun entry => last < entry.1 := by
    simp only [itemsAfter, List.filter_filter]
    refine List.filter_congr fun entry _ => ?_
    cases after with
    | none => simp
    | some a =>
      by_cases hentry : last < entry.1
      · simp [hentry, String.lt_trans (hbeyond a rfl) hentry]
      · simp [hentry]
  rw [hwindow, (sorted_itemsAfter h collection after).filter_of_last hlast]

/-- The link of a page: there is one if there are items behind it. -/
def link? (s : Server) (collection : String) (w : Window) : Option String :=
  if w.limit < (s.itemsAfter collection w.after).length then
    ((Assoc.keys ((s.itemsAfter collection w.after).take w.limit)).getLast?).map
      (nextLink collection w.limit)
  else none

/-- The fields of a listing. -/
theorem listing_eq (s : Server) (collection : String) (w : Window) :
    s.listing collection w = .ofPairs
      ([("count", .ofNat ((s.itemsAfter collection w.after).take w.limit).length),
        ("results", .arr (((s.itemsAfter collection w.after).take w.limit).map fun (key, item) =>
        listed collection key item))] ++ (s.link? collection w).toList.map fun l =>
          ("next", .str l)) := by
  have hlast : (Assoc.keys ((s.itemsAfter collection w.after).take w.limit)).getLast? =
      (((s.itemsAfter collection w.after).take w.limit).getLast?).map Prod.fst := List.getLast?_map
  simp only [listing, link?, hlast]
  congr 2
  cases ((s.itemsAfter collection w.after).take w.limit).getLast? with
  | none => simp
  | some entry =>
    by_cases hmore : w.limit < (s.itemsAfter collection w.after).length <;> simp [hmore]

/-- A request that states a collection and a window gets the page of that window. -/
theorem route_of_listing {s : Server} {locator : String} {request : Request} {collection : String}
    {w : Window} (hauthorized : request.headers.get? "Authorization" = some s.authorization)
    (hmethod : request.method = .get) (hsegments : segments? request.url.path = some [collection])
    (hwindow : window? request.url.queryPairs = some w) :
    s.route locator request = (.ofJson 200 (s.listing collection w), s) := by
  rw [route, if_neg (not_not_intro hauthorized), hsegments, hmethod]
  simp only [list, hwindow]

end Server

/-! ## Pages -/

namespace Page

/-- The key of a listed item. -/
def keyOf? (item : Json) : Option String :=
  ((item.get? "path").bind (Json.get? "key")).bind Json.asString?

/-- The keys of the items on a page. -/
def keys (p : Page) : List String :=
  p.results.filterMap keyOf?

theorem keyOf?_listed (collection key : String) (item : StoredItem) :
    keyOf? (Server.listed collection key item) = some key := by
  simp [keyOf?, Server.listed, Json.ofPairs, Json.get?, Assoc.get?_ofPairs, Json.asString?]

/-- A page shows the first of some keys, one with each result, and links behind the last of them if
there are more. -/
structure Shows (p : Page) (collection : String) (limit : Nat) (among : List String) : Prop where
  keys_eq : p.keys = among.take limit
  length_eq : p.results.length = p.keys.length
  next_eq : p.next =
    if limit < among.length then (p.keys.getLast?).map (Server.nextLink collection limit) else none

/-- A page is read from its fields. -/
theorem ofJson?_ofPairs {count : Nat} (h : count < 0x10000000000000000) (results : List Json)
    (next : Option String) :
    ofJson?
      (.ofPairs ([("count", .ofNat count), ("results", .arr results)] ++ next.toList.map fun l =>
        ("next", .str l))) =
      some { count, results, next } := by
  have hcount := Json.asNat?_ofNat h
  -- members are in the order of their keys
  have hresults : ("count" : String) < "results" := by decide
  have hnext : ("count" : String) < "next" ∧ ¬("results" : String) < "next" := by decide
  cases next with
  | none =>
    have hmembers : Json.ofPairs [("count", .ofNat count), ("results", .arr results)] =
        .obj [("count", .ofNat count), ("results", .arr results)] := by
      simp only [Json.ofPairs, Assoc.ofPairs, List.foldl_cons, List.foldl_nil, Assoc.insert,
        if_pos hresults]
    simp [hmembers, ofJson?, setFields?, setField?, hcount, Json.asArray?]
  | some link =>
    have hmembers : Json.ofPairs
        [("count", .ofNat count), ("results", .arr results), ("next", .str link)] =
        .obj [("count", .ofNat count), ("next", .str link), ("results", .arr results)] := by
      have hdiffers : ("results" : String) ≠ "next" := by decide
      simp only [Json.ofPairs, Assoc.ofPairs, List.foldl_cons, List.foldl_nil, Assoc.insert,
        if_pos hresults, if_pos hnext.1, if_neg hnext.2, if_neg hdiffers]
    simp [hmembers, ofJson?, setFields?, setField?, hcount, Json.asArray?, nullable?,
      Json.asString?]

/-- The page that a client reads in a listing. -/
theorem exists_ofJson?_listing (s : Server) (collection : String) {w : Server.Window}
    (h : w.limit ≤ 100) :
    ∃ p, ofJson? (s.listing collection w) = some p ∧
      p.Shows collection w.limit (Assoc.keys (s.itemsAfter collection w.after)) := by
  have hcount : ((s.itemsAfter collection w.after).take w.limit).length < 0x10000000000000000 := by
    have hlength : ((s.itemsAfter collection w.after).take w.limit).length ≤ w.limit :=
      List.length_take_le ..
    omega
  have hkeys (items : Assoc StoredItem) :
      (items.map fun (key, item) => Server.listed collection key item).filterMap keyOf? =
        Assoc.keys items := by
    have hkey : keyOf? ∘ (fun entry => Server.listed collection entry.1 entry.2) =
        some ∘ Prod.fst :=
      funext fun entry => keyOf?_listed collection entry.1 entry.2
    rw [List.filterMap_map, hkey, List.filterMap_eq_map, Assoc.keys]
  rw [Server.listing_eq]
  refine ⟨_, ofJson?_ofPairs hcount _ _, ?_⟩
  constructor
  case keys_eq => exact (hkeys _).trans List.map_take
  case length_eq => simp only [keys, hkeys, Assoc.keys, List.length_map]
  case next_eq => simp only [keys, hkeys, Server.link?, Assoc.keys, List.length_map]

end Page

/-! ## Texts -/

namespace Server

/-- The text of a listing is read as the listing itself. -/
def Readable (s : Server) (collection : String) (w : Window) : Prop :=
  Page.ofText? (s.listing collection w).compact = Page.ofJson? (s.listing collection w)

section

variable {P : Nat → Json → Prop} (hP : Json.Inherited P)
include hP

theorem inherits_listed {limit : Nat} {item : StoredItem} (h : P (limit + 1) item.value)
    (collection key : String) :
    P (limit + 2) (listed collection key item) := by
  have hpath : P (limit + 1)
      (.ofPairs [("collection", .str collection), ("key", .str key), ("ref", .str item.ref)]) :=
    hP.ofPairs (by simp [hP.str])
  exact hP.ofPairs (by simp [hpath, h])

/-- A listing has its items three levels deep. -/
theorem inherits_listing {s : Server} {collection : String} {w : Window} {limit : Nat}
    (h : ∀ entry ∈ (s.itemsAfter collection w.after).take w.limit, P (limit + 1) entry.2.value) :
    P (limit + 4) (s.listing collection w) := by
  have hresults : P (limit + 3)
      (.arr (((s.itemsAfter collection w.after).take w.limit).map fun (key, item) =>
      listed collection key item)) := by
    refine hP.arr fun v hv => ?_
    obtain ⟨entry, hentry, rfl⟩ := List.mem_map.mp hv
    exact inherits_listed hP (h entry hentry) collection entry.1
  rw [listing_eq]
  refine hP.ofPairs fun pair hpair => ?_
  rw [List.mem_append, List.mem_map] at hpair
  rcases hpair with hpair | ⟨link, -, rfl⟩
  · simp only [List.mem_cons, List.not_mem_nil, or_false] at hpair
    rcases hpair with rfl | rfl
    · exact hP.ofNat ..
    · exact hresults
  · exact hP.str ..

end

theorem mem_itemsOf_of_shown {s : Server} {collection : String} {w : Window}
    {entry : String × StoredItem} (h : entry ∈ (s.itemsAfter collection w.after).take w.limit) :
    entry ∈ s.itemsOf collection :=
  (List.mem_filter.mp (List.mem_of_mem_take h)).1

theorem readable_of_fits {s : Server} {collection : String}
    (h : ∀ entry ∈ s.itemsOf collection, entry.2.value.Fits (Json.depthLimit - 3)) (w : Window) :
    s.Readable collection w :=
  Page.ofText?_compact
    (inherits_listing Json.inherited_fits fun entry hentry => h entry (mem_itemsOf_of_shown hentry))

end Server

end ItemStore
