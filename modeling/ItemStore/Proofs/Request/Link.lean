import ItemStore.Proofs.Url.Path
import ItemStore.Request.Endpoint
import ItemStore.Request.Envelope

/-!
# Links and addresses

Where the requests of a client go, and what a client makes of a link, for paths of plain segments.

- `Endpoint.fullPath_of_relative`, `Endpoint.fullPath_of_based`: a path is put under the base path,
  unless it is there already;
- `Endpoint.path_resolve`, `Endpoint.queryPairs_resolve`: the URL of a request has the path and the
  parameters that the envelope states;
- `Envelope.follow_link`: a link to the root of a host is followed to the path and the parameters
  that it states.
-/

namespace ItemStore

open Url

variable {first : String} {rest : List String}

/-- A text that starts with a plain segment that is not empty does not start with a slash. -/
theorem Url.exists_cons_of_plain (hne : first ≠ "") (h : IsPlainSegment first)
    (rest : List String) :
    ∃ c cs, segmentsChars (first :: rest) = c :: cs ∧ Percent.isPlain c = true := by
  obtain ⟨c, cs, hfirst⟩ := List.exists_cons_of_ne_nil fun hnil =>
    hne (String.toList_eq_nil_iff.mp hnil)
  have hc : Percent.isPlain c = true := h.plain c (hfirst ▸ List.mem_cons_self)
  cases rest with
  | nil => exact ⟨c, cs, by simp [segmentsChars, hfirst], hc⟩
  | cons next rest => exact ⟨c, _, by simp [segmentsChars, hfirst]; rfl, hc⟩

/-! ## Addresses -/

namespace Endpoint

variable {e : Endpoint} {base : List String}

/-- A path that does not start with a slash is put under the base path. -/
theorem fullPath_of_relative (hbase : e.basePath = segmentsText base) (hne : first ≠ "")
    (h : IsPlainSegment first) :
    e.fullPath (String.ofList (segmentsChars (first :: rest))) =
      segmentsText (base ++ first :: rest) := by
  obtain ⟨c, cs, hcs, hc⟩ := exists_cons_of_plain hne h rest
  have hslash : c ≠ '/' := ne_slash_of_isPlain hc
  have htext : segmentsText (first :: rest) = String.singleton '/' ++ String.ofList (c :: cs) := by
    rw [← String.toList_inj, toList_segmentsText (List.cons_ne_nil first rest), hcs,
      String.toList_append, String.toList_ofList, String.toList_singleton, List.singleton_append]
  rw [hcs, segmentsText_append, htext]
  have hlist : (String.ofList (c :: cs)).toList = c :: cs := String.toList_ofList
  generalize String.ofList (c :: cs) = path at hlist
  -- the base path starts with a slash, and the path does not
  have hbased : e.isBased path = false := by
    rw [isBased, hbase]
    cases base with
    | nil => rfl
    | cons b bs =>
      have hchars := toList_segmentsText (List.cons_ne_nil b bs)
      have hpath : path ≠ segmentsText (b :: bs) := by
        rintro rfl
        rw [hlist] at hchars
        exact hslash (List.cons.inj hchars).1
      have hdiffers : ('/' == c) = false := beq_false_of_ne (Ne.symm hslash)
      simp [hpath, hchars, hlist, List.isPrefixOf, hdiffers]
  have htrim : Text.trimStartWhere isSlash path = path := by
    rw [Text.trimStartWhere, hlist, List.dropWhile_cons_of_neg (by simp [isSlash, hslash]), ← hlist,
      String.ofList_toList]
  rw [fullPath, hbased, if_neg Bool.false_ne_true, hbase, htrim, String.append_assoc]
  rfl

/-- A path under the base path is taken as it is. -/
theorem fullPath_of_based (hbase : e.basePath = segmentsText base) (hne : base ≠ []) :
    e.fullPath (segmentsText (base ++ first :: rest)) = segmentsText (base ++ first :: rest) := by
  have hbased : e.isBased (segmentsText (base ++ first :: rest)) = true := by
    have hnot : segmentsText base ≠ "" := by
      intro heq
      have hchars := toList_segmentsText hne
      rw [heq] at hchars
      cases hchars
    have hprefix : (segmentsText base ++ "/").toList.isPrefixOf
        (segmentsText base ++ segmentsText (first :: rest)).toList = true := by
      rw [String.toList_append, String.toList_append,
        toList_segmentsText (List.cons_ne_nil first rest)]
      simp [List.isPrefixOf_iff_prefix]
    rw [isBased, hbase, segmentsText_append, hprefix, Bool.or_true, Bool.and_true]
    exact decide_eq_true hnot
  rw [fullPath, hbased, if_pos rfl]

theorem path_resolve {path : String} {parts : List String}
    (hfull : e.fullPath path = segmentsText parts) (hne : parts ≠ [])
    (h : ∀ part ∈ parts, IsPlainSegment part) (query : String) :
    (e.resolve path query).path = segmentsText parts := by
  rw [resolve, hfull]
  exact path_withPath hne h e.url

theorem queryPairs_resolve (e : Endpoint) (path : String) (pairs : List (String × String)) :
    (e.resolve path (Query.encode pairs)).queryPairs = pairs :=
  queryPairs_withQuery _ pairs

end Endpoint

/-! ## Links -/

namespace Envelope

/-- A link to some segments, with parameters. -/
def linkTo (parts : List String) (pairs : List (String × String)) : String :=
  segmentsText parts ++ "?" ++ Query.encode pairs

/-- Nothing is dropped around a text or inside it if it consists of other characters than blanks and
controls. -/
theorem clean_eq_self {text : String} (h : ∀ c ∈ text.toList, 0x20 < c.toNat) :
    clean text = text.toList := by
  have hkept {cs : List Char} (hcs : ∀ c ∈ cs, 0x20 < c.toNat) :
      cs.dropWhile (fun c => c.toNat ≤ 0x20) = cs := by
    cases cs with
    | nil => rfl
    | cons c rest =>
      have hc : ¬c.toNat ≤ 0x20 := Nat.not_le.mpr (hcs c List.mem_cons_self)
      simp [hc]
  have hbreaks (c : Char) (hc : c ∈ text.toList) : (c = '\t' || c = '\n' || c = '\r') = false := by
    have hlarge := h c hc
    simp only [Bool.or_eq_false_iff, decide_eq_false_iff_not]
    refine ⟨⟨?_, ?_⟩, ?_⟩ <;> rintro rfl <;> exact absurd hlarge (by decide)
  rw [clean, hkept h, hkept fun c hc => h c (List.mem_reverse.mp hc), List.reverse_reverse,
    dropBreaks_eq_self hbreaks]

/-- A reference that starts with one slash states a path; two would start a host. -/
theorem join_of_slash {base : Url} {above : List String} {text : String} {c : Char} {cs : List Char}
    (hbase : base.urlPath = .segments above) (htext : clean text = '/' :: cs)
    (hfirst : cs.head? = some c) (hslash : isSlash c = false) :
    base.join text = .ok
      (withTail { base with urlPath := .segments (segmentsOf base.isSpecial [] (pathPart cs)) }
        cs) := by
  obtain ⟨tail, rfl⟩ := List.head?_eq_some_iff.mp hfirst
  have hscheme : scheme? ('/' :: c :: tail) = none := rfl
  have hone : ('/' :: c :: tail).takeWhile isSlash = ['/'] := by
    rw [List.takeWhile_cons_of_pos (by decide), List.takeWhile_cons_of_neg (by simp [hslash])]
  rw [join, htext, hscheme, hbase]
  simp only [relativeTo, hone]
  rfl

theorem pathPart_append {cs q : List Char} (h : ∀ c ∈ cs, c ≠ '?' ∧ c ≠ '#') :
    pathPart (cs ++ '?' :: q) = cs := by
  have hkept (c : Char) (hc : c ∈ cs) : (!(c = '?' || c = '#')) = true := by simp [h c hc]
  rw [pathPart, List.takeWhile_append_of_pos hkept]
  simp

theorem withTail_append {cs q : List Char} (h : ∀ c ∈ cs, c ≠ '?' ∧ c ≠ '#')
    (hq : ∀ c ∈ q, c ≠ '#') (u : Url) :
    withTail u (cs ++ '?' :: q) =
      { u with query := some (encodeQuery u.isSpecial q), fragment := none } := by
  have hall (c : Char) (hc : c ∈ cs ++ '?' :: q) : decide (c ≠ '#') = true := by
    rw [List.mem_append, List.mem_cons] at hc
    rcases hc with hc | rfl | hc
    · exact decide_eq_true (h c hc).2
    · rfl
    · exact decide_eq_true (hq c hc)
  have hpath (c : Char) (hc : c ∈ cs) : decide (c ≠ '?') = true := decide_eq_true (h c hc).1
  have hdrop : (cs ++ '?' :: q).dropWhile (· ≠ '#') = [] := by
    rw [← List.append_nil (cs ++ '?' :: q), List.dropWhile_append_of_pos hall, List.dropWhile_nil]
  have htake : (cs ++ '?' :: q).takeWhile (· ≠ '#') = cs ++ '?' :: q := by
    rw [← List.append_nil (cs ++ '?' :: q), List.takeWhile_append_of_pos hall, List.takeWhile_nil]
  have hquery : (cs ++ '?' :: q).dropWhile (· ≠ '?') = '?' :: q := by
    rw [List.dropWhile_append_of_pos hpath, List.dropWhile_cons_of_neg (by decide)]
  rw [withTail, htake, hdrop, hquery]

/-- **A link is followed** to the path and the parameters that it states. -/
theorem follow_link (hne : first ≠ "") (h : ∀ part ∈ first :: rest, IsPlainSegment part)
    (pairs : List (String × String)) (e : Envelope) :
    e.follow (linkTo (first :: rest) pairs) =
      .ok { e with method := .get, path := segmentsText (first :: rest), query := pairs,
                   body := none } := by
  obtain ⟨c, cs, hcs, hc⟩ := exists_cons_of_plain hne (h first List.mem_cons_self) rest
  have hslash : isSlash c = false :=
    Percent.of_isPlain (P := fun c => isSlash c = false) (by decide) hc
  have hpath (x : Char) (hx : x ∈ segmentsChars (first :: rest)) : x = '/' ∨
      Percent.isPlain x = true :=
    eq_or_isPlain_of_mem_segmentsChars h hx
  have hquery (x : Char) (hx : x ∈ (Query.encode pairs).toList) : Query.isQueryChar x = true :=
    Query.isQueryChar_of_mem_encode hx
  have hlist : (linkTo (first :: rest) pairs).toList =
      '/' :: (segmentsChars (first :: rest) ++ '?' :: (Query.encode pairs).toList) := by
    simp [linkTo, toList_segmentsText]
  -- no character of the link is dropped, ends its path or its query early, or needs encoding
  have hlarge (x : Char) (hx : x ∈ (linkTo (first :: rest) pairs).toList) : 0x20 < x.toNat := by
    rw [hlist, List.mem_cons, List.mem_append, List.mem_cons] at hx
    have hplain (y : Char) (hy : Percent.isPlain y = true) : 0x20 < y.toNat :=
      Percent.of_isPlain (P := fun y => 0x20 < y.toNat) (by decide) hy
    rcases hx with rfl | hx | rfl | hx
    · decide
    · rcases hpath x hx with rfl | hx
      · decide
      · exact hplain x hx
    · decide
    · exact Query.of_isQueryChar hplain (by decide) (by decide) (hquery x hx)
  have hinPath (x : Char) (hx : x ∈ segmentsChars (first :: rest)) : x ≠ '?' ∧ x ≠ '#' := by
    rcases hpath x hx with rfl | hx
    · decide
    · exact Percent.of_isPlain (P := fun x => x ≠ '?' ∧ x ≠ '#') (by decide) hx
  have hinQuery (x : Char) (hx : x ∈ (Query.encode pairs).toList) : x ≠ '#' :=
    Query.of_isQueryChar (fun y hy => Percent.of_isPlain (P := (· ≠ '#')) (by decide) hy)
      (by decide) (by decide) (hquery x hx)
  have hjoin : linkBase.join (linkTo (first :: rest) pairs) =
      .ok { linkBase with urlPath := .segments (first :: rest),
                          query := some (Query.encode pairs) } := by
    have hfirst : (segmentsChars (first :: rest) ++ '?' :: (Query.encode pairs).toList).head? =
        some c := by rw [hcs]; rfl
    rw [@join_of_slash linkBase _ _ _ _ rfl ((clean_eq_self hlarge).trans hlist) hfirst hslash,
      pathPart_append hinPath, withTail_append hinPath hinQuery, encodeQuery_encode,
      segmentsOf_of_normal (List.cons_ne_nil first rest) fun part hpart => (h part hpart).normal]
    rfl
  rw [follow, hjoin]
  simp [Url.path, queryPairs, Query.decode_encode]

end Envelope

end ItemStore
