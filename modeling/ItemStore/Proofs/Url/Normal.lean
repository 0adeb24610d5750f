import ItemStore.Proofs.Url.Query

/-!
# Normal paths

A path is normal if reading it changes nothing: no character of it is left to be encoded or taken
for a slash, and no segment of it stands for itself or for the segment above.

- `Url.segmentsOf_of_normal`: the segments of a path that is made of normal segments are these;
- `Url.isNormalSegment_of_mem_segmentsOf`: whatever is read, the segments that come of it are
  normal;
- `Url.segmentsOf_append`, `Url.segmentsOf_of_not_climbs`: a text behind a normal path is read on
  top of that path, and leaves it as it is unless it climbs above the place where it starts.
-/

namespace ItemStore

namespace Percent

/-- A character that does not come from encoding stands for itself. -/
theorem exists_cons_of_encodeCharsWhere {p : Char → Bool} {cs tail : List Char} {c : Char}
    (hc : c ≠ '%') (h : encodeCharsWhere p cs = c :: tail) :
    ∃ rest, cs = c :: rest ∧ tail = encodeCharsWhere p rest := by
  cases cs with
  | nil => cases h
  | cons d rest =>
    rw [encodeCharsWhere, List.flatMap_cons, ← encodeCharsWhere] at h
    split at h
    next =>
      obtain ⟨b, bs, hbytes⟩ := List.exists_cons_of_ne_nil (@String.utf8EncodeChar_ne_nil d)
      rw [encodeChar, hbytes, List.flatMap_cons, encodeByte] at h
      exact absurd (List.cons.inj h).1.symm hc
    next =>
      obtain ⟨rfl, rfl⟩ := List.cons.inj h
      exact ⟨rest, rfl, rfl⟩

/-- The first byte of a character is that of a point only if it is one. -/
theorem eq_dot_of_utf8EncodeChar {c : Char} {bytes : List UInt8}
    (h : String.utf8EncodeChar c = 0x2E :: bytes) :
    c = '.' := by
  have hc : c.val.toNat < 0x110000 := by
    rcases c.valid with hc | hc
    · exact Nat.lt_trans hc (by decide)
    · exact hc.2
  rw [String.utf8EncodeChar.eq_1] at h
  generalize hn : c.val.toNat = n at h hc
  have hpoint : n = 46 := by
    repeat' split at h
    all_goals
      have hbyte := congrArg UInt8.toNat (List.cons.inj h).1
      simp only [UInt8.toNat_ofNat'] at hbyte
      have hright : (0x2E : UInt8).toNat = 46 := rfl
      omega
  exact Char.ext (UInt32.toNat_inj.mp (hn.trans hpoint))

end Percent

namespace Url

/-! ## Dots -/

/-- A segment that stands for points only, whether they are encoded or not, decodes to these
points. -/
theorem decodeBytes_of_readDots {cs : List Char} {n : Nat}
    (h : readDots cs = List.replicate n '.') :
    Percent.decodeBytes cs = List.replicate n 0x2E := by
  induction cs using readDots.induct generalizing n with
  | case1 rest ih | case2 rest ih =>
    obtain _ | n := n
    · cases h
    · rw [readDots, List.replicate_succ, List.cons.injEq] at h
      rw [Percent.decodeBytes.eq_def]
      exact congrArg (0x2E :: ·) (ih h.2)
  | case3 c rest hlower hupper ih =>
    have hread : readDots (c :: rest) = c :: readDots rest := readDots.eq_3 c rest hlower hupper
    obtain _ | n := n
    · rw [hread] at h
      cases h
    · rw [hread, List.replicate_succ, List.cons.injEq] at h
      obtain ⟨rfl, h⟩ := h
      rw [Percent.decodeBytes_cons_of_ne (by decide), ih h]
      rfl
  | case4 =>
    obtain _ | n := n
    · rfl
    · cases h

/-- Encoding a segment does not make it stand for points. -/
theorem readDots_of_encoded {cs : List Char} {n : Nat}
    (h : readDots (Percent.encodeCharsWhere encodedInPath cs) = List.replicate n '.') :
    readDots cs = List.replicate n '.' := by
  induction cs using readDots.induct generalizing n with
  | case1 rest ih | case2 rest ih =>
    obtain _ | n := n
    · cases h
    · exact congrArg ('.' :: ·) (ih (List.cons.inj h).2)
  | case3 c rest hlower hupper ih =>
    rw [Percent.encodeCharsWhere, List.flatMap_cons, ← Percent.encodeCharsWhere] at h
    cases hc : encodedInPath c with
    | true =>
      -- what is encoded has other bytes than points
      rw [hc, if_pos rfl] at h
      have hbytes := decodeBytes_of_readDots h
      rw [Percent.encodeChar, Percent.decodeBytes_flatMap_encodeByte] at hbytes
      obtain ⟨b, bs, hfirst⟩ := List.exists_cons_of_ne_nil (@String.utf8EncodeChar_ne_nil c)
      obtain _ | n := n
      · rw [hfirst] at hbytes
        cases hbytes
      · rw [hfirst, List.cons_append, List.replicate_succ] at hbytes
        obtain ⟨rfl, -⟩ := List.cons.inj hbytes
        rw [Percent.eq_dot_of_utf8EncodeChar hfirst] at hc
        cases hc
    | false =>
      rw [hc, if_neg Bool.false_ne_true, List.singleton_append] at h
      -- an encoded point that is read there stood there before
      have hkept {d : Char} (hd : d ≠ '%') (tail : List Char)
          (hcs : Percent.encodeCharsWhere encodedInPath rest = '2' :: d :: tail) : ∃ rest',
            rest = '2' :: d :: rest' := by
        obtain ⟨more, rfl, hmore⟩ := Percent.exists_cons_of_encodeCharsWhere (by decide) hcs
        obtain ⟨last, rfl, -⟩ := Percent.exists_cons_of_encodeCharsWhere hd hmore.symm
        exact ⟨last, rfl⟩
      have hread : readDots (c :: Percent.encodeCharsWhere encodedInPath rest) =
          c :: readDots (Percent.encodeCharsWhere encodedInPath rest) := by
        refine readDots.eq_3 c _ (fun tail hpercent hcs => ?_) fun tail hpercent hcs => ?_
        · obtain ⟨rest', hrest⟩ := hkept (by decide) tail hcs
          exact hlower rest' hpercent hrest
        · obtain ⟨rest', hrest⟩ := hkept (by decide) tail hcs
          exact hupper rest' hpercent hrest
      rw [hread] at h
      obtain _ | n := n
      · cases h
      · rw [List.replicate_succ, List.cons.injEq] at h
        rw [readDots.eq_3 c rest hlower hupper, ih h.2, h.1, List.replicate_succ]
  | case4 => exact h

/-! ## Segments -/

/-- A segment that reading a path keeps as it is. -/
structure IsNormalSegment (segment : String) : Prop where
  notSlash : '/' ∉ segment.toList
  notBackslash : '\\' ∉ segment.toList
  kept : ∀ c ∈ segment.toList, encodedInPath c = false
  notSingle : isSingleDot segment.toList = false
  notDouble : isDoubleDot segment.toList = false

/-- Whether the characters of a segment are kept can be checked one by one. -/
theorem kept_of_all {segment : List Char} (h : (segment.all fun c => !encodedInPath c) = true) :
    ∀ c ∈ segment, encodedInPath c = false := by
  intro c hc
  simpa using List.all_eq_true.mp h c hc

theorem isNormalSegment_empty : IsNormalSegment "" :=
  ⟨by simp, by simp, by simp, by decide, by decide⟩

/-- A segment that is no dot segment, as it stands in a path that was read. -/
def readSegment (segment : List Char) : String :=
  String.ofList (Percent.encodeCharsWhere encodedInPath segment)

theorem IsNormalSegment.readSegment_eq {segment : String} (h : IsNormalSegment segment) :
    readSegment segment.toList = segment := by
  rw [readSegment, Percent.encodeCharsWhere_eq_self h.kept, String.ofList_toList]

private theorem encodedInPath_of_isPlain : ∀ n < 128, Percent.isPlain (Char.ofNat n) = true →
    Char.ofNat n ≠ '/' ∧ Char.ofNat n ≠ '\\' ∧ encodedInPath (Char.ofNat n) = false := by
  decide

/-- What comes of reading a segment is normal. -/
theorem isNormalSegment_readSegment {segment : List Char} (hslash : '/' ∉ segment)
    (hbackslash : '\\' ∉ segment) (hsingle : isSingleDot segment = false)
    (hdouble : isDoubleDot segment = false) :
    IsNormalSegment (readSegment segment) := by
  have hchars (c : Char) (hc : c ∈ (readSegment segment).toList) : c ≠ '/' ∧ c ≠ '\\' ∧
      encodedInPath c = false := by
    rw [readSegment, String.toList_ofList] at hc
    obtain ⟨d, hd, hcd⟩ := List.mem_flatMap.mp hc
    split at hcd
    next =>
      obtain ⟨b, -, hb⟩ := List.mem_flatMap.mp hcd
      exact Percent.of_isPlain (P := fun c => c ≠ '/' ∧ c ≠ '\\' ∧ encodedInPath c = false)
        encodedInPath_of_isPlain (Percent.isPlain_of_mem_encodeByte hb)
    next hkept =>
      obtain rfl := List.mem_singleton.mp hcd
      exact ⟨fun h => hslash (h ▸ hd), fun h => hbackslash (h ▸ hd), Bool.eq_false_iff.mpr hkept⟩
  have hdots {n : Nat} (h : readDots (readSegment segment).toList = List.replicate n '.') :
      readDots segment = List.replicate n '.' := by
    rw [readSegment, String.toList_ofList] at h
    exact readDots_of_encoded h
  exact
    { notSlash := fun h => (hchars _ h).1 rfl
      notBackslash := fun h => (hchars _ h).2.1 rfl
      kept := fun c hc => (hchars c hc).2.2
      notSingle := decide_eq_false fun h => of_decide_eq_false hsingle (hdots (n := 1) h)
      notDouble := decide_eq_false fun h => of_decide_eq_false hdouble (hdots (n := 2) h) }

/-! ## Resolving dot segments -/

/-- The segments so far, latest first, when one more that is not the last is read. -/
def stepOver (above : List String) (segment : List Char) : List String :=
  if isDoubleDot segment then popSegment above
  else if isSingleDot segment then above
  else readSegment segment :: above

theorem resolveSegments_cons {rest : List (List Char)} (hrest : rest ≠ []) (above : List String)
    (segment : List Char) :
    resolveSegments above (segment :: rest) = resolveSegments (stepOver above segment) rest := by
  obtain ⟨next, rest, rfl⟩ := List.exists_cons_of_ne_nil hrest
  rw [resolveSegments, stepOver]
  · split
    · rfl
    · split <;> rfl
  · exact List.cons_ne_nil _ _

theorem resolveSegments_ne_nil {segments : List (List Char)} (h : segments ≠ [])
    (above : List String) :
    resolveSegments above segments ≠ [] := by
  induction segments generalizing above with
  | nil => exact absurd rfl h
  | cons segment rest ih =>
    cases rest with
    | nil =>
      rw [resolveSegments]
      split
      · exact List.cons_ne_nil _ _
      · split <;> exact List.cons_ne_nil _ _
    | cons next rest =>
      rw [resolveSegments_cons (List.cons_ne_nil _ _)]
      exact ih (List.cons_ne_nil _ _) _

theorem stepOver_of_normal {part : String} (h : IsNormalSegment part) (above : List String) :
    stepOver above part.toList = part :: above := by
  rw [stepOver, h.notDouble, h.notSingle, if_neg Bool.false_ne_true, if_neg Bool.false_ne_true,
    h.readSegment_eq]

/-- Normal segments in front are kept. -/
theorem resolveSegments_append {parts : List String} (h : ∀ part ∈ parts, IsNormalSegment part)
    {segments : List (List Char)} (hne : segments ≠ []) (above : List String) :
    resolveSegments above (parts.map String.toList ++ segments) =
      resolveSegments (parts.reverse ++ above) segments := by
  induction parts generalizing above with
  | nil => rfl
  | cons part rest ih =>
    obtain ⟨hpart, hrest⟩ := List.forall_mem_cons.mp h
    rw [List.map_cons, List.cons_append,
      resolveSegments_cons (List.append_ne_nil_of_right_ne_nil _ hne),
      stepOver_of_normal hpart, ih hrest, List.reverse_cons, List.append_assoc,
      List.singleton_append]

theorem resolveSegments_of_normal {parts : List String} (h : ∀ part ∈ parts, IsNormalSegment part)
    (above : List String) :
    resolveSegments above (parts.map String.toList) = parts.reverse ++ above := by
  induction parts generalizing above with
  | nil => rfl
  | cons part rest ih =>
    obtain ⟨hpart, hrest⟩ := List.forall_mem_cons.mp h
    cases rest with
    | nil =>
      rw [List.map_singleton, resolveSegments, hpart.notDouble, hpart.notSingle,
        if_neg Bool.false_ne_true,
        if_neg Bool.false_ne_true, ← readSegment, hpart.readSegment_eq, List.reverse_singleton,
        List.singleton_append]
    | cons next rest =>
      rw [List.map_cons, resolveSegments_cons (by simp), stepOver_of_normal hpart, ih hrest]
      simp

/-- What is read on top of normal segments is normal. -/
theorem isNormalSegment_of_mem_resolveSegments {segments : List (List Char)}
    (h : ∀ segment ∈ segments, '/' ∉ segment ∧ '\\' ∉ segment) {above : List String}
    (habove : ∀ part ∈ above, IsNormalSegment part) :
    ∀ part ∈ resolveSegments above segments, IsNormalSegment part := by
  have hpop {above : List String} (habove : ∀ part ∈ above, IsNormalSegment part) :
      ∀ part ∈ popSegment above, IsNormalSegment part := by
    cases above with
    | nil => exact habove
    | cons segment below =>
      rw [popSegment]
      split
      · exact habove
      · exact (List.forall_mem_cons.mp habove).2
  have hread {segment : List Char} (hsegment : '/' ∉ segment ∧ '\\' ∉ segment)
      (hdouble : ¬isDoubleDot segment = true)
      (hsingle : ¬isSingleDot segment = true) : IsNormalSegment (readSegment segment) :=
    isNormalSegment_readSegment hsegment.1 hsegment.2 (Bool.eq_false_iff.mpr hsingle)
      (Bool.eq_false_iff.mpr hdouble)
  induction segments generalizing above with
  | nil => exact habove
  | cons segment rest ih =>
    obtain ⟨hsegment, hrest⟩ := List.forall_mem_cons.mp h
    cases rest with
    | nil =>
      rw [resolveSegments]
      split
      next => exact List.forall_mem_cons.mpr ⟨isNormalSegment_empty, hpop habove⟩
      next hdouble =>
        split
        next => exact List.forall_mem_cons.mpr ⟨isNormalSegment_empty, habove⟩
        next hsingle => exact List.forall_mem_cons.mpr ⟨hread hsegment hdouble hsingle, habove⟩
    | cons next rest =>
      rw [resolveSegments_cons (List.cons_ne_nil _ _)]
      refine ih hrest ?_
      rw [stepOver]
      split
      next => exact hpop habove
      next hdouble =>
        split
        next => exact habove
        next hsingle => exact List.forall_mem_cons.mpr ⟨hread hsegment hdouble hsingle, habove⟩

/-! ## Climbing -/

/-- Whether a double dot asks for the segment above the place where some segments start. `own` are
the segments so far, latest first. -/
def climbs : (own : List String) → List (List Char) → Bool
  | _, [] => false
  | own, segment :: rest =>
    (isDoubleDot segment && own.isEmpty) || climbs (stepOver own segment) rest

/-- Whether a segment stands for itself or for the segment above. -/
def isDots (segment : List Char) : Bool :=
  isSingleDot segment || isDoubleDot segment

theorem IsNormalSegment.not_isDots {segment : String} (h : IsNormalSegment segment) :
    isDots segment.toList = false := by
  rw [isDots, h.notSingle, h.notDouble, Bool.or_false]

/-- Without dot segments there is no climbing. -/
theorem climbs_of_noDots {segments : List (List Char)}
    (h : ∀ segment ∈ segments, isDots segment = false) (own : List String) :
    climbs own segments = false := by
  induction segments generalizing own with
  | nil => rfl
  | cons segment rest ih =>
    obtain ⟨hsegment, hrest⟩ := List.forall_mem_cons.mp h
    rw [climbs, (Bool.or_eq_false_iff.mp hsegment).2, Bool.false_and, Bool.false_or]
    exact ih hrest _

theorem popSegment_append {own : List String} (h : own ≠ []) (base : List String) :
    popSegment (own ++ base) = popSegment own ++ base := by
  obtain ⟨segment, below, rfl⟩ := List.exists_cons_of_ne_nil h
  rw [List.cons_append, popSegment, popSegment]
  split <;> rfl

/-- Segments that do not climb leave what is below them as it is. -/
theorem resolveSegments_of_not_climbs {segments : List (List Char)} {own : List String}
    (hne : segments ≠ []) (h : climbs own segments = false) (base : List String) :
    resolveSegments (own ++ base) segments = resolveSegments own segments ++ base := by
  induction segments generalizing own with
  | nil => exact absurd rfl hne
  | cons segment rest ih =>
    rw [climbs, Bool.or_eq_false_iff] at h
    obtain ⟨hhere, hrest⟩ := h
    have hown (hdouble : isDoubleDot segment = true) : own ≠ [] := by
      rintro rfl
      rw [hdouble] at hhere
      cases hhere
    cases rest with
    | nil =>
      rw [resolveSegments, resolveSegments]
      split
      next hdouble => rw [popSegment_append (hown hdouble), List.cons_append]
      next => split <;> rfl
    | cons next rest =>
      have hstep : stepOver (own ++ base) segment = stepOver own segment ++ base := by
        rw [stepOver, stepOver]
        split
        next hdouble => exact popSegment_append (hown hdouble) base
        next => split <;> rfl
      rw [resolveSegments_cons (List.cons_ne_nil _ _),
        resolveSegments_cons (List.cons_ne_nil _ _), hstep]
      exact ih (List.cons_ne_nil _ _) hrest

/-- Without dot segments, every segment is kept. -/
theorem length_resolveSegments {segments : List (List Char)}
    (h : ∀ segment ∈ segments, isDots segment = false) (above : List String) :
    (resolveSegments above segments).length = above.length + segments.length := by
  induction segments generalizing above with
  | nil => rfl
  | cons segment rest ih =>
    obtain ⟨hsegment, hrest⟩ := List.forall_mem_cons.mp h
    obtain ⟨hsingle, hdouble⟩ := Bool.or_eq_false_iff.mp hsegment
    cases rest with
    | nil =>
      rw [resolveSegments, hdouble, hsingle, if_neg Bool.false_ne_true, if_neg Bool.false_ne_true]
      rfl
    | cons next rest =>
      rw [resolveSegments_cons (List.cons_ne_nil _ _), ih hrest, stepOver, hdouble, hsingle,
        if_neg Bool.false_ne_true, if_neg Bool.false_ne_true]
      simp only [List.length_cons]
      omega

/-! ## Texts of paths -/

/-- The text of some segments, without the slash before the first. -/
def segmentsChars (parts : List String) : List Char :=
  ['/'].intercalate (parts.map String.toList)

theorem toList_segmentsText {parts : List String} (hne : parts ≠ []) :
    (segmentsText parts).toList = '/' :: segmentsChars parts := by
  induction parts with
  | nil => exact absurd rfl hne
  | cons part rest ih =>
    cases rest with
    | nil => simp [segmentsText, segmentsChars]
    | cons next rest =>
      have htail : (segmentsText (part :: next :: rest)).toList =
          '/' :: (part.toList ++ (segmentsText (next :: rest)).toList) := by
        simp [segmentsText]
      rw [htail, ih (List.cons_ne_nil _ _)]
      simp [segmentsChars]

theorem segmentsText_append (parts more : List String) :
    segmentsText (parts ++ more) = segmentsText parts ++ segmentsText more := by
  simp [segmentsText]

/-- Cutting a path at its slashes gives its segments, with nothing before the first slash. -/
theorem pieces_segmentsText {parts : List String} (h : ∀ part ∈ parts, '/' ∉ part.toList) :
    Text.pieces '/' (segmentsText parts).toList = [] :: parts.map String.toList := by
  cases parts with
  | nil => rfl
  | cons part rest =>
    have hslash : ∀ piece ∈ (part :: rest).map String.toList, '/' ∉ piece := by
      intro piece hpiece
      obtain ⟨segment, hsegment, rfl⟩ := List.mem_map.mp hpiece
      exact h segment hsegment
    rw [toList_segmentsText (List.cons_ne_nil part rest), Text.pieces, if_pos rfl, segmentsChars,
      Text.pieces_intercalate (by simp) hslash]

theorem split_segmentsText {parts : List String} (h : ∀ part ∈ parts, '/' ∉ part.toList) :
    Text.split '/' (segmentsText parts) = "" :: parts := by
  rw [Text.split, pieces_segmentsText h, List.map_cons, List.map_map]
  congr 1
  refine (List.map_congr_left fun part _ => ?_).trans (List.map_id' _)
  exact String.ofList_toList

/-- What the text of some segments consists of. -/
theorem mem_segmentsChars {parts : List String} {c : Char} (hc : c ∈ segmentsChars parts) :
    c = '/' ∨ ∃ part ∈ parts, c ∈ part.toList := by
  refine (Text.mem_intercalate hc).imp_right fun ⟨part, hpart, hc⟩ => ?_
  obtain ⟨segment, hsegment, rfl⟩ := List.mem_map.mp hpart
  exact ⟨segment, hsegment, hc⟩

/-! ## Reading -/

theorem rawSegments_ne_nil (special : Bool) (cs : List Char) : rawSegments special cs ≠ [] :=
  Text.pieces_ne_nil _ _

/-- Without backslashes, the segments of a text are its pieces between slashes. -/
theorem rawSegments_eq_pieces {cs : List Char} (h : '\\' ∉ cs) (special : Bool) :
    rawSegments special cs = Text.pieces '/' cs := by
  have hmap : cs.map (fun c => if c = '\\' then '/' else c) = cs := by
    refine (List.map_congr_left fun c hc => if_neg ?_).trans (List.map_id' _)
    rintro rfl
    exact h hc
  rw [rawSegments, hmap, ite_self]

theorem rawSegments_append (special : Bool) (cs ds : List Char) :
    rawSegments special (cs ++ '/' :: ds) = rawSegments special cs ++ rawSegments special ds := by
  cases special with
  | false => exact Text.pieces_append '/' cs ds
  | true =>
    simp only [rawSegments, if_true, List.map_append, List.map_cons]
    exact Text.pieces_append '/' _ _

/-- The raw segments of the path of a web address hold no slashes of either kind. -/
theorem not_mem_of_mem_rawSegments {cs segment : List Char} (h : segment ∈ rawSegments true cs) :
    '/' ∉ segment ∧ '\\' ∉ segment := by
  refine ⟨Text.not_mem_of_mem_pieces h, fun hmem => ?_⟩
  have hmapped := Text.mem_of_mem_pieces h hmem
  simp only [if_true] at hmapped
  obtain ⟨c, -, hc⟩ := List.mem_map.mp hmapped
  split at hc
  next => cases hc
  next hne => exact hne hc

theorem isNormalSegment_of_mem_segmentsOf {cs : List Char} {above : List String}
    (habove : ∀ part ∈ above, IsNormalSegment part) :
    ∀ part ∈ segmentsOf true above cs, IsNormalSegment part := by
  intro part hpart
  exact isNormalSegment_of_mem_resolveSegments (fun _ => not_mem_of_mem_rawSegments)
    (fun part hpart => habove part (List.mem_reverse.mp hpart)) part (List.mem_reverse.mp hpart)

theorem segmentsOf_ne_nil (special : Bool) (above : List String) (cs : List Char) :
    segmentsOf special above cs ≠ [] :=
  mt List.reverse_eq_nil_iff.mp (resolveSegments_ne_nil (rawSegments_ne_nil special cs) _)

variable {parts : List String}

theorem rawSegments_segmentsChars (hne : parts ≠ []) (h : ∀ part ∈ parts, IsNormalSegment part)
    (special : Bool) :
    rawSegments special (segmentsChars parts) = parts.map String.toList := by
  have hslash : ∀ part ∈ parts.map String.toList, '/' ∉ part := by
    intro part hpart
    obtain ⟨segment, hsegment, rfl⟩ := List.mem_map.mp hpart
    exact (h segment hsegment).notSlash
  have hbackslash : '\\' ∉ segmentsChars parts := by
    intro hc
    rcases mem_segmentsChars hc with hc | ⟨part, hpart, hc⟩
    · cases hc
    · exact (h part hpart).notBackslash hc
  rw [rawSegments_eq_pieces hbackslash, segmentsChars,
    Text.pieces_intercalate (by simpa using hne) hslash]

/-- The segments of a path that is made of normal ones are these. -/
theorem segmentsOf_of_normal (hne : parts ≠ []) (h : ∀ part ∈ parts, IsNormalSegment part)
    (special : Bool) :
    segmentsOf special [] (segmentsChars parts) = parts := by
  rw [segmentsOf, rawSegments_segmentsChars hne h, List.reverse_nil, resolveSegments_of_normal h,
    List.append_nil, List.reverse_reverse]

/-- What stands behind a normal path is read on top of it. -/
theorem segmentsOf_append (hne : parts ≠ []) (h : ∀ part ∈ parts, IsNormalSegment part)
    (special : Bool) (cs : List Char) :
    segmentsOf special [] (segmentsChars parts ++ '/' :: cs) = segmentsOf special parts cs := by
  rw [segmentsOf, rawSegments_append, rawSegments_segmentsChars hne h, List.reverse_nil,
    resolveSegments_append h (rawSegments_ne_nil special cs), List.append_nil, segmentsOf]

/-- What does not climb goes on where it starts. -/
theorem segmentsOf_of_not_climbs {special : Bool} {cs : List Char}
    (h : climbs [] (rawSegments special cs) = false) (above : List String) :
    segmentsOf special above cs = above ++ segmentsOf special [] cs := by
  have hresolve := resolveSegments_of_not_climbs (rawSegments_ne_nil special cs) h above.reverse
  rw [List.nil_append] at hresolve
  rw [segmentsOf, hresolve, List.reverse_append, List.reverse_reverse, segmentsOf, List.reverse_nil]

/-! ## Setting a path -/

/-- No character that a normal path holds is dropped. -/
theorem dropBreaks_segmentsChars (h : ∀ part ∈ parts, IsNormalSegment part) :
    dropBreaks (segmentsChars parts) = segmentsChars parts := by
  refine dropBreaks_eq_self fun c hc => ?_
  rcases mem_segmentsChars hc with rfl | ⟨part, hpart, hc⟩
  · rfl
  · have hkept := (h part hpart).kept c hc
    simp only [Bool.or_eq_false_iff, decide_eq_false_iff_not]
    refine ⟨⟨?_, ?_⟩, ?_⟩ <;> rintro rfl <;> cases hkept

/-- The slash that a path starts with is not part of its segments. -/
theorem urlPath_withPath_of_slash {path : String} {cs : List Char}
    (h : path.toList = '/' :: cs) (u : Url) :
    (u.withPath path).urlPath = .segments (segmentsOf true [] (dropBreaks cs)) := by
  have hbreaks : dropBreaks ('/' :: cs) = '/' :: dropBreaks cs := rfl
  simp only [withPath, h, hbreaks]

/-- A normal path is set as it is. -/
theorem urlPath_withPath (hne : parts ≠ []) (h : ∀ part ∈ parts, IsNormalSegment part) (u : Url) :
    (u.withPath (segmentsText parts)).urlPath = .segments parts := by
  rw [urlPath_withPath_of_slash (toList_segmentsText hne), dropBreaks_segmentsChars h,
    segmentsOf_of_normal hne h]

theorem withPath_congr {u : Url} {p q : String}
    (h : (u.withPath p).urlPath = (u.withPath q).urlPath) :
    u.withPath p = u.withPath q := by
  rw [withPath, withPath] at h ⊢
  simp only at h
  rw [h]

/-! ## Normal paths -/

/-- A path that is read as it stands. -/
def IsNormalPath (path : String) : Prop :=
  ∃ parts : List String, parts ≠ [] ∧ (∀ part ∈ parts, IsNormalSegment part) ∧
    path = segmentsText parts

/-- A path is normal if it starts with a slash and the pieces behind it are normal. -/
theorem isNormalPath_iff {path : String} : IsNormalPath path ↔
    ∃ cs, path.toList = '/' :: cs ∧ ∀ piece ∈
      Text.pieces '/' cs, IsNormalSegment (String.ofList piece) := by
  constructor
  · rintro ⟨parts, hne, hparts, rfl⟩
    refine ⟨segmentsChars parts, toList_segmentsText hne, fun piece hpiece => ?_⟩
    have hpieces := pieces_segmentsText fun part hpart => (hparts part hpart).notSlash
    rw [toList_segmentsText hne, Text.pieces, if_pos rfl] at hpieces
    rw [List.tail_eq_of_cons_eq hpieces] at hpiece
    obtain ⟨part, hpart, rfl⟩ := List.mem_map.mp hpiece
    rw [String.ofList_toList]
    exact hparts part hpart
  · rintro ⟨cs, hpath, hpieces⟩
    have hne : (Text.pieces '/' cs).map String.ofList ≠ [] := by
      simpa using Text.pieces_ne_nil '/' cs
    refine ⟨(Text.pieces '/' cs).map String.ofList, hne, by simpa using hpieces, ?_⟩
    have hlists : ((Text.pieces '/' cs).map String.ofList).map String.toList =
        Text.pieces '/' cs := by
      rw [List.map_map]
      exact (List.map_congr_left fun piece _ => String.toList_ofList).trans (List.map_id' _)
    rw [← String.toList_inj, toList_segmentsText hne, segmentsChars, hlists,
      Text.intercalate_pieces, hpath]

/-- The front of a normal path is normal. -/
theorem IsNormalPath.of_append {base path : String} {rest : List Char} (h : IsNormalPath path)
    (hpath : path.toList = base.toList ++ '/' :: rest) (hne : base ≠ "") : IsNormalPath base := by
  obtain ⟨cs, hcs, hpieces⟩ := isNormalPath_iff.mp h
  obtain ⟨c, t, ht⟩ := List.exists_cons_of_ne_nil fun hnil => hne (String.toList_eq_nil_iff.mp hnil)
  rw [hcs, ht, List.cons_append, List.cons.injEq] at hpath
  obtain ⟨rfl, rfl⟩ := hpath
  rw [Text.pieces_append] at hpieces
  exact isNormalPath_iff.mpr
    ⟨t, ht, fun piece hpiece => hpieces piece (List.mem_append_left _ hpiece)⟩

/-- Whether a path has no segment that stands for itself or for the segment above. -/
def isDotFree (path : String) : Bool :=
  (rawSegments true (dropBreaks path.toList)).all fun segment => !isDots segment

/-- A normal path has no dots left. -/
theorem isDotFree_of_isNormalPath {path : String} (h : IsNormalPath path) :
    isDotFree path = true := by
  obtain ⟨parts, hne, hparts, rfl⟩ := h
  have hbreaks : dropBreaks (segmentsText parts).toList = '/' :: segmentsChars parts := by
    rw [toList_segmentsText hne, dropBreaks, List.filter_cons_of_pos (by decide), ← dropBreaks,
      dropBreaks_segmentsChars hparts]
  have hraw : rawSegments true ('/' :: segmentsChars parts) = [] :: parts.map String.toList := by
    rw [← rawSegments_segmentsChars hne hparts true]
    exact rawSegments_append true [] _
  rw [isDotFree, hbreaks, hraw, List.all_eq_true]
  rintro segment (_ | ⟨_, hsegment⟩)
  · decide
  · obtain ⟨part, hpart, rfl⟩ := List.mem_map.mp hsegment
    simp [(hparts part hpart).not_isDots]

end Url

end ItemStore
