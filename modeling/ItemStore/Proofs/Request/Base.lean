import ItemStore.Proofs.Client.Requests
import ItemStore.Proofs.Request.Link
import ItemStore.Proofs.Text.Blank
import ItemStore.Proofs.Url.Parsed

/-!
# Requests and the base path

The base path of an endpoint and the path of an envelope are put together as texts, and the text is
read as a path only then. So dot segments of the path act on the base path too, and whether a path
is taken for one that lies under the base path already is decided by the characters of the two,
before anything is encoded.

- `Client.request_isUnder_base`: a request stays on the host of the endpoint, and under its base
  path unless its path climbs above the place where it starts. Links within the web never do;
- `Endpoint.resolve_stable_iff_isNormalPath`: the path of a URL that was resolved resolves to the
  same URL again if and only if the base path is written as it is read.
-/

namespace ItemStore

namespace Url

/-- Whether a path is another path or continues it by a slash. -/
def IsUnder (base path : String) : Prop :=
  path = base ∨ ∃ rest, path = base ++ "/" ++ rest

theorem isUnder_iff {base path : String} :
    IsUnder base path ↔ path = base ∨ (Text.dropLiteral? (base ++ "/") path).isSome = true := by
  simp [IsUnder, Option.isSome_iff_exists, Text.dropLiteral?_eq_some_iff]

instance (base path : String) : Decidable (IsUnder base path) :=
  decidable_of_iff _ isUnder_iff.symm

/-- Slashes at the end of a normal path can be dropped. -/
theorem IsNormalPath.trimEnd {path : String} (h : IsNormalPath path)
    (hne : Text.trimEndWhere Endpoint.isSlash path ≠ "") :
    IsNormalPath (Text.trimEndWhere Endpoint.isSlash path) := by
  have hsplit : path.toList = (Text.trimEndWhere Endpoint.isSlash path).toList ++
      (path.toList.reverse.takeWhile Endpoint.isSlash).reverse := by
    rw [Text.trimEndWhere, String.toList_ofList, ← List.reverse_append,
      List.takeWhile_append_dropWhile, List.reverse_reverse]
  cases hslashes : (path.toList.reverse.takeWhile Endpoint.isSlash).reverse with
  | nil =>
    rw [hslashes, List.append_nil, String.toList_inj] at hsplit
    rwa [← hsplit]
  | cons c more =>
    have hc : c ∈ path.toList.reverse.takeWhile Endpoint.isSlash := by
      rw [← List.mem_reverse, hslashes]
      exact List.mem_cons_self
    obtain rfl : c = '/' := of_decide_eq_true (List.all_eq_true.mp List.all_takeWhile c hc)
    rw [hslashes] at hsplit
    exact h.of_append hsplit hne

end Url

open Url

/-! ## Base paths -/

namespace Endpoint

/-- Endpoints that come from an address, perhaps with other base paths. -/
inductive Built : Endpoint → Prop where
  | parsed {text : String} {e : Endpoint} (h : parse text = .ok e) : Built e
  | rebased {e : Endpoint} (h : Built e) (path : String) : Built (e.withBasePath path)

/-- The path that an address names is normal. -/
theorem isNormalPath_of_parse {text : String} {e : Endpoint} (h : parse text = .ok e) :
    IsNormalPath e.basePath := by
  unfold parse at h
  dsimp only at h
  split at h
  next => cases h
  next u hu =>
    split at h
    next => cases h
    next hscheme =>
      split at h
      next => cases h
      next =>
        cases h
        have hspecial : u.isSpecial = true := by
          rcases Decidable.not_and_iff_not_or_not.mp hscheme with h | h <;>
            rw [isSpecial, Decidable.not_not.mp h] <;> rfl
        split
        next => exact ⟨["v0"], List.cons_ne_nil _ _, by simpa using isPlainSegment_root.normal, rfl⟩
        next hne => exact (hasNormalPath_of_parse hu hspecial).isNormalPath.trimEnd hne

/-- A base path starts with a slash, unless it is empty. -/
theorem Built.exists_cons {e : Endpoint} (h : e.Built) (hne : e.basePath ≠ "") :
    ∃ cs, e.basePath.toList = '/' :: cs := by
  cases h with
  | parsed h =>
    obtain ⟨cs, hcs, -⟩ := isNormalPath_iff.mp (isNormalPath_of_parse h)
    exact ⟨cs, hcs⟩
  | rebased _ path =>
    simp only [withBasePath] at hne ⊢
    split at hne
    next => exact absurd rfl hne
    next htrimmed =>
      rw [if_neg htrimmed, String.toList_append]
      exact ⟨_, rfl⟩

variable {e : Endpoint}

/-- What stands behind the base path in the full path of a request. -/
def behindBase (e : Endpoint) (path : String) : List Char :=
  if e.isBased path then path.toList.drop (e.basePath.length + 1) else path.toList.dropWhile isSlash

/-- Whether a path asks for something above the place where it starts. -/
def climbsOut (e : Endpoint) (path : String) : Bool :=
  climbs [] (rawSegments true (dropBreaks (e.behindBase path)))

theorem fullPath_basePath (hne : e.basePath ≠ "") : e.fullPath e.basePath = e.basePath := by
  rw [fullPath, isBased, decide_eq_true hne, decide_eq_true (rfl : e.basePath = e.basePath)]
  rfl

/-- The full path of a request: the base path, a slash, and the rest of the path. -/
theorem toList_fullPath {path : String} (h : path ≠ e.basePath) :
    (e.fullPath path).toList = e.basePath.toList ++ '/' :: e.behindBase path := by
  rw [fullPath, behindBase]
  cases hbased : e.isBased path with
  | true =>
    rw [isBased, decide_eq_false h, Bool.false_or, Bool.and_eq_true,
      List.isPrefixOf_iff_prefix] at hbased
    obtain ⟨rest, hrest⟩ := hbased.2
    have hlength : (e.basePath ++ "/").toList.length = e.basePath.length + 1 := by
      simp [String.length_toList]
    rw [if_pos rfl, if_pos rfl, ← hrest, ← hlength, List.drop_left]
    simp
  | false =>
    rw [if_neg Bool.false_ne_true, if_neg Bool.false_ne_true]
    simp [Text.trimStartWhere]

/-- The segments of the full path, under a normal base path. -/
theorem urlPath_withPath_fullPath {base : List String} (hne : base ≠ [])
    (hbase : ∀ part ∈ base, IsNormalSegment part) (htext : e.basePath = segmentsText base)
    {path : String} (h : path ≠ e.basePath) (u : Url) :
    (u.withPath (e.fullPath path)).urlPath =
      .segments (segmentsOf true base (dropBreaks (e.behindBase path))) := by
  have hfull := toList_fullPath h
  rw [htext, toList_segmentsText hne, List.cons_append] at hfull
  have hbreaks : dropBreaks (segmentsChars base ++ '/' :: e.behindBase path) =
      segmentsChars base ++ '/' :: dropBreaks (e.behindBase path) := by
    rw [dropBreaks, List.filter_append, ← dropBreaks, dropBreaks_segmentsChars hbase]
    rfl
  rw [urlPath_withPath_of_slash hfull, hbreaks, segmentsOf_append hne hbase]

/-- A request whose path does not climb keeps the segments of the base path, or states no more than
these. -/
theorem urlPath_resolve_of_not_climbsOut {base : List String} (hne : base ≠ [])
    (hbase : ∀ part ∈ base, IsNormalSegment part) (htext : e.basePath = segmentsText base)
    {path : String} (h : e.climbsOut path = false) (query : String) :
    ∃ more, (∀ part ∈ more, IsNormalSegment part) ∧
    (e.resolve path query).urlPath = .segments (base ++ more) := by
  by_cases hpath : path = e.basePath
  · subst hpath
    refine ⟨[], List.forall_mem_nil _, ?_⟩
    have hnot : e.basePath ≠ "" := by
      rw [htext, ne_eq, ← String.toList_inj, toList_segmentsText hne]
      exact List.cons_ne_nil _ _
    rw [List.append_nil, resolve, fullPath_basePath hnot, htext]
    exact urlPath_withPath hne hbase e.url
  · refine ⟨segmentsOf true [] (dropBreaks (e.behindBase path)),
      isNormalSegment_of_mem_segmentsOf (List.forall_mem_nil _), ?_⟩
    rw [← segmentsOf_of_not_climbs h]
    exact urlPath_withPath_fullPath hne hbase htext hpath e.url

theorem isUnder_of_not_climbsOut (hbase : IsNormalPath e.basePath) {path : String}
    (h : e.climbsOut path = false) (query : String) :
    IsUnder e.basePath (e.resolve path query).path := by
  obtain ⟨base, hne, hnormal, htext⟩ := hbase
  obtain ⟨more, -, hmore⟩ := urlPath_resolve_of_not_climbsOut hne hnormal htext h query
  rw [Url.path, hmore]
  simp only
  rw [segmentsText_append, ← htext]
  cases more with
  | nil => exact .inl String.append_empty
  | cons part rest =>
    refine .inr ⟨String.ofList (segmentsChars (part :: rest)), ?_⟩
    rw [← String.toList_inj]
    simp [toList_segmentsText]

/-! ## Paths without dots -/

/-- What stands behind the base path is nothing, the whole path, or what follows one of its
slashes. -/
theorem behindBase_cases (e : Endpoint) (path : String) :
    e.behindBase path = [] ∨ e.behindBase path = path.toList ∨
    ∃ front, path.toList = front ++ '/' :: e.behindBase path := by
  by_cases hpath : path = e.basePath
  · left
    rw [behindBase, hpath]
    split
    next => exact List.drop_eq_nil_of_le (Nat.le_succ _)
    next hbased =>
      -- only an empty base path is not under itself
      have hempty : e.basePath = "" := by simpa [isBased] using hbased
      simp [hempty]
  · right
    have hfull := toList_fullPath hpath
    rw [fullPath] at hfull
    split at hfull
    next => exact .inr ⟨_, hfull⟩
    next hbased =>
      rw [behindBase, if_neg hbased]
      have hsplit := List.takeWhile_append_dropWhile (p := isSlash) (l := path.toList)
      rcases List.eq_nil_or_concat (path.toList.takeWhile isSlash) with hnone | ⟨front, c, hslashes⟩
      · rw [hnone, List.nil_append] at hsplit
        exact .inl hsplit
      · have hc : isSlash c = true := by
          apply List.all_eq_true.mp (List.all_takeWhile (l := path.toList))
          simp [hslashes]
        obtain rfl : c = '/' := of_decide_eq_true hc
        rw [hslashes, List.concat_append] at hsplit
        exact .inr ⟨front, hsplit.symm⟩

/-- What stands behind the base path has no dots if the path has none. -/
theorem isDots_of_mem_behindBase {path : String} (h : isDotFree path = true) {segment : List Char}
    (hsegment : segment ∈ rawSegments true (dropBreaks (e.behindBase path))) :
    isDots segment = false := by
  have hpath (piece : List Char) (hpiece : piece ∈ rawSegments true (dropBreaks path.toList)) :
      isDots piece = false := by
    simpa using List.all_eq_true.mp h piece hpiece
  rcases e.behindBase_cases path with hnone | hall | ⟨front, hfront⟩
  · rw [hnone] at hsegment
    obtain rfl : segment = [] := List.mem_singleton.mp hsegment
    decide
  · rw [hall] at hsegment
    exact hpath segment hsegment
  · apply hpath
    rw [hfront, dropBreaks, List.filter_append, List.filter_cons_of_pos (by decide), ← dropBreaks,
      ← dropBreaks, rawSegments_append]
    exact List.mem_append_right _ hsegment

theorem climbsOut_of_isDotFree {path : String} (h : isDotFree path = true) :
    e.climbsOut path = false :=
  climbs_of_noDots (fun _ => isDots_of_mem_behindBase h) []

/-! ## Resolving once more -/

/-- A normal path under a normal base path is taken as it is. -/
theorem fullPath_of_normal {base more : List String} (hne : base ≠ [])
    (htext : e.basePath = segmentsText base) :
    e.fullPath (segmentsText (base ++ more)) = segmentsText (base ++ more) := by
  cases more with
  | cons part rest => exact fullPath_of_based htext hne
  | nil =>
    have hnot : e.basePath ≠ "" := by
      rw [htext, ne_eq, ← String.toList_inj, toList_segmentsText hne]
      exact List.cons_ne_nil _ _
    rw [List.append_nil, ← htext]
    exact fullPath_basePath hnot

/-- Under a normal base path, resolving is stable as long as nothing climbs. -/
theorem resolve_resolve (hbase : IsNormalPath e.basePath) {path : String}
    (h : e.climbsOut path = false) (query : String) :
    e.resolve (e.resolve path query).path query = e.resolve path query := by
  obtain ⟨base, hne, hnormal, htext⟩ := hbase
  obtain ⟨more, hmore, hpath⟩ := urlPath_resolve_of_not_climbsOut hne hnormal htext h query
  have hall : ∀ part ∈ base ++ more, IsNormalSegment part :=
    List.forall_mem_append.mpr ⟨hnormal, hmore⟩
  have htextPath : (e.resolve path query).path = segmentsText (base ++ more) := by
    rw [Url.path, hpath]
  rw [htextPath, resolve, resolve, fullPath_of_normal hne htext]
  congr 1
  apply withPath_congr
  rw [urlPath_withPath (List.append_ne_nil_of_left_ne_nil hne more) hall]
  exact hpath.symm

/-- How many segments the URL of a request has: those of the base path, and those behind it unless
the path is the base path itself. -/
theorem length_segments_resolve {cs : List Char} (hcs : e.basePath.toList = '/' :: cs)
    (hdots : isDotFree e.basePath = true) {path : String} (hpath : isDotFree path = true)
    (query : String) :
    ∃ parts, (e.resolve path query).urlPath = .segments parts ∧
      parts.length = (rawSegments true (dropBreaks cs)).length +
        if path = e.basePath then 0
          else (rawSegments true (dropBreaks (e.behindBase path))).length := by
  have hraw : ∀ segment ∈ rawSegments true (dropBreaks cs), isDots segment = false := by
    intro segment hsegment
    have hall := List.all_eq_true.mp hdots segment
    rw [hcs, dropBreaks, List.filter_cons_of_pos (by decide), ← dropBreaks] at hall
    have hmem : segment ∈ rawSegments true ('/' :: dropBreaks cs) := by
      have happend := rawSegments_append true [] (dropBreaks cs)
      rw [List.nil_append] at happend
      rw [happend]
      exact List.mem_append_right _ hsegment
    simpa using hall hmem
  have hlength (segments : List (List Char)) (h : ∀ segment ∈ segments, isDots segment = false) :
      (resolveSegments [] segments).reverse.length = segments.length := by
    rw [List.length_reverse, length_resolveSegments h]
    simp
  split
  next heq =>
    have hnot : e.basePath ≠ "" := by
      rw [ne_eq, ← String.toList_inj, hcs]
      exact List.cons_ne_nil _ _
    refine ⟨_, ?_, hlength _ hraw⟩
    rw [resolve, heq, fullPath_basePath hnot]
    exact urlPath_withPath_of_slash hcs e.url
  next hne =>
    have hfull := toList_fullPath hne
    rw [hcs, List.cons_append] at hfull
    refine ⟨segmentsOf true [] (dropBreaks (cs ++ '/' :: e.behindBase path)),
      urlPath_withPath_of_slash hfull e.url, ?_⟩
    rw [segmentsOf, dropBreaks, List.filter_append, List.filter_cons_of_pos (by decide),
      ← dropBreaks, ← dropBreaks, rawSegments_append, List.reverse_nil, hlength, List.length_append]
    exact List.forall_mem_append.mpr ⟨hraw, fun _ => isDots_of_mem_behindBase hpath⟩

/-- **Resolving is stable** on all paths without dots if and only if the base path is written as it
is read, as the path of an address always is. -/
theorem resolve_stable_iff_isNormalPath (h : e.Built) (hne : e.basePath ≠ "")
    (hdots : isDotFree e.basePath = true) :
    ((∀ path query, isDotFree path = true →
      e.resolve (e.resolve path query).path query = e.resolve path query) ↔
        IsNormalPath e.basePath) ∧
      ∀ text, parse text = .ok e → IsNormalPath e.basePath := by
  refine ⟨⟨fun hstable => ?_,
    fun hbase path query hpath => resolve_resolve hbase (climbsOut_of_isDotFree hpath) query⟩,
    fun _ => isNormalPath_of_parse⟩
  obtain ⟨cs, hcs⟩ := h.exists_cons hne
  -- the base path resolves to its normal form, which has as many segments
  have hread : IsNormalPath (e.resolve e.basePath "").path := isNormalPath_withPath e.url _
  obtain ⟨parts, hparts, hlength⟩ := length_segments_resolve hcs hdots hdots ""
  rw [if_pos rfl] at hlength
  by_cases heq : (e.resolve e.basePath "").path = e.basePath
  · rwa [← heq]
  · -- if that is another text, then it is put behind the base path and has more segments than
    -- before
    exfalso
    obtain ⟨parts', hparts', hlength'⟩ :=
      length_segments_resolve hcs hdots (isDotFree_of_isNormalPath hread) ""
    rw [if_neg heq] at hlength'
    rw [hstable e.basePath "" hdots, hparts, UrlPath.segments.injEq] at hparts'
    have hmore := List.length_pos_iff.mpr
      (rawSegments_ne_nil true (dropBreaks (e.behindBase (e.resolve e.basePath "").path)))
    rw [hparts'] at hlength
    omega

/-- An address with another base path, in which a blank is encoded. -/
theorem resolve_stable_of_encoded_base :
    let e : Endpoint :=
      ⟨⟨"https", some ⟨"", .domain "store.test", none⟩, .segments [""], none, none⟩, "/v0"⟩
    parse "https://store.test" = .ok e ∧ (e.withBasePath "/a%20b/").Built ∧
      IsNormalPath (e.withBasePath "/a%20b/").basePath ∧
      ∀ path query, isDotFree path = true → (e.withBasePath "/a%20b/").resolve
        ((e.withBasePath "/a%20b/").resolve path query).path query =
          (e.withBasePath "/a%20b/").resolve path query := by
  intro e
  have he : parse "https://store.test" = .ok e := rfl
  have hbase : (e.withBasePath "/a%20b/").basePath = "/a%20b" := by decide +kernel
  have hbuilt : (e.withBasePath "/a%20b/").Built := .rebased (.parsed he) "/a%20b/"
  have hnormal : IsNormalPath (e.withBasePath "/a%20b/").basePath := by
    rw [hbase]
    exact ⟨["a%20b"], by decide, by
      simpa using ⟨by decide, by decide, kept_of_all (by decide), by decide, by decide⟩, rfl⟩
  have hstable := resolve_stable_iff_isNormalPath hbuilt (by rw [hbase]; decide)
    (by rw [hbase]; decide)
  exact ⟨he, hbuilt, hnormal, hstable.1.mpr hnormal⟩

/-- The same base path with the blank as it is: a path that was resolved is put behind the base path
again. -/
theorem resolve_unstable_of_raw_base :
    let e : Endpoint :=
      ⟨⟨"https", some ⟨"", .domain "store.test", none⟩, .segments [""], none, none⟩, "/v0"⟩
    parse "https://store.test" = .ok e ∧ (e.withBasePath "a b").Built ∧
    (e.withBasePath "a b").basePath = "/a b" ∧
      isDotFree "/a b" = true ∧ isDotFree "x" = true ∧
      ((e.withBasePath "a b").resolve "x" "").path = "/a%20b/x" ∧
      ((e.withBasePath "a b").resolve "/a%20b/x" "").path = "/a%20b/a%20b/x" := by
  intro e
  have he : parse "https://store.test" = .ok e := rfl
  exact ⟨he, .rebased (.parsed he) "a b", by decide +kernel, by decide, by decide,
    by decide +kernel, by decide +kernel⟩

end Endpoint

namespace Client

/-- **Requests stay under the base path**, on the host of the endpoint, unless the path that they
are for climbs above the place where it starts. A link that stays within the web states a path that
does not. -/
theorem request_isUnder_base {c : Client} (hbase : IsNormalPath c.endpoint.basePath) (e : Envelope)
    (id : String) :
    ((c.request e id).url.scheme = c.endpoint.url.scheme ∧
      (c.request e id).url.hostText? = c.endpoint.url.hostText? ∧
        (c.request e id).url.port? = c.endpoint.url.port?) ∧
      (c.endpoint.climbsOut e.path = false →
        IsUnder c.endpoint.basePath (c.request e id).url.path) ∧
      ∀ link target, Envelope.linkBase.join link = .ok target → target.isSpecial = true →
        ∃ next, e.follow link = .ok next ∧
        IsUnder c.endpoint.basePath (c.request next id).url.path := by
  refine ⟨⟨rfl, rfl, rfl⟩, fun h => Endpoint.isUnder_of_not_climbsOut hbase h e.queryString,
    fun link target hjoin hspecial => ?_⟩
  have hlinkBase : Envelope.linkBase.HasNormalPath := hasNormalPath_empty rfl
  have htarget : IsNormalPath target.path :=
    (hasNormalPath_of_join rfl hlinkBase hjoin hspecial).isNormalPath
  refine ⟨_, by rw [Envelope.follow, hjoin], ?_⟩
  apply Endpoint.isUnder_of_not_climbsOut hbase
  exact Endpoint.climbsOut_of_isDotFree (isDotFree_of_isNormalPath htarget)

/-- Dots that stay behind the base path, and a link to another host whose dots do not climb out of
its root. -/
theorem request_isUnder_base_of_dots :
    let settings : ClientSettings :=
      { endpoint := "https://store.test/api/v1/", credentials := .apiKey "k" }
    let e := Envelope.new .get "a/%2E%2e/b"
    ∃ client, settings.build = .ok client ∧ IsNormalPath client.endpoint.basePath ∧
      client.endpoint.climbsOut e.path = false ∧
      IsUnder client.endpoint.basePath (client.request e "id").url.path ∧
      ∃ next, e.follow "//other.test\\..\\..\\c" = .ok next ∧
        IsUnder client.endpoint.basePath (client.request next "id").url.path := by
  intro settings e
  have hendpoint : settings.build.toOption.map Client.endpoint =
      some ⟨⟨"https", some ⟨"", .domain "store.test", none⟩, .segments [""], none, none⟩,
      "/api/v1"⟩ := by decide +kernel
  obtain ⟨client, hbuild, hclient⟩ := ClientSettings.exists_of_endpoint hendpoint
  have hnormal : IsNormalPath client.endpoint.basePath := by
    rw [hclient]
    refine ⟨["api", "v1"], by decide, fun part hpart => ?_, rfl⟩
    have hparts : part = "api" ∨ part = "v1" := by simpa using hpart
    rcases hparts with rfl | rfl <;>
      exact ⟨by decide, by decide, kept_of_all (by decide), by decide, by decide⟩
  have hclimbs : client.endpoint.climbsOut e.path = false := by
    rw [hclient]
    decide +kernel
  obtain ⟨-, hunder, hlinks⟩ := request_isUnder_base hnormal e "id"
  obtain ⟨target, hjoin⟩ : ∃ target,
      Envelope.linkBase.join "//other.test\\..\\..\\c" = .ok target := ⟨_, rfl⟩
  have hspecial : target.isSpecial = true := by
    cases hjoin
    rfl
  exact ⟨client, hbuild, hnormal, hclimbs, hunder hclimbs, hlinks _ target hjoin hspecial⟩

/-- A path that climbs takes a request out of the base path, and so does a link with a scheme that
is not of the web. -/
theorem request_climbs_out_of_base :
    let settings : ClientSettings :=
      { endpoint := "https://store.test", credentials := .apiKey "k" }
    ∃ client, settings.build = .ok client ∧ client.endpoint.basePath = "/v0" ∧ IsNormalPath "/v0" ∧
      (client.request (.new .get "../x") "id").url.path = "/x" ∧ ¬IsUnder "/v0" "/x" ∧
      ∃ next, (Envelope.new .get "c").follow "x:../../y" = .ok next ∧
      (client.request next "id").url.path = "/y" ∧
        ¬IsUnder "/v0" "/y" := by
  intro settings
  have hendpoint : settings.build.toOption.map Client.endpoint =
      some ⟨⟨"https", some ⟨"", .domain "store.test", none⟩, .segments [""], none, none⟩,
      "/v0"⟩ := by decide +kernel
  obtain ⟨client, hbuild, hclient⟩ := ClientSettings.exists_of_endpoint hendpoint
  have hnot (path : String) (hne : path ≠ "/v0")
      (hstart : ¬"/v0/".toList <+: path.toList) : ¬IsUnder "/v0" path := by
    rintro (rfl | ⟨rest, rfl⟩)
    · exact hne rfl
    · apply hstart
      simp
  have hurl (e : Envelope) : (client.request e "id").url.path =
      (client.endpoint.resolve e.path e.queryString).path := rfl
  have hlink : (Envelope.new .get "c").follow "x:../../y" = .ok (.new .get "../../y") := rfl
  refine ⟨client, hbuild, by rw [hclient],
    ⟨["v0"], by decide, by simpa using isPlainSegment_root.normal, rfl⟩, ?_,
    hnot _ (by decide) (by decide), _, hlink, ?_, hnot _ (by decide) (by decide)⟩
  · rw [hurl, hclient]
    decide +kernel
  · rw [hurl, hclient]
    decide +kernel

end Client

end ItemStore
