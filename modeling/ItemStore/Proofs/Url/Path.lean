import ItemStore.Proofs.Url.Normal

/-!
# Paths of plain segments

A segment is plain if it consists of the characters that percent-encoding leaves and stands neither
for itself nor for the segment above. Plain segments are normal, so reading a path keeps them as
they are.

- `Url.isPlainSegment_encode`: every encoded name is a plain segment, unless it is a point or two;
- `Url.path_withPath`: a path that is made of plain segments is set as it is.
-/

namespace ItemStore.Url

/-! ## Dots -/

/-- The names that paths cannot have as segments. -/
theorem eq_dot_of_isSingleDot_encode {s : String}
    (h : isSingleDot (Percent.encode s).toList = true) : s = "." := by
  -- the name is what its encoded form decodes to
  have hbytes := decodeBytes_of_readDots (n := 1) (of_decide_eq_true h)
  have hdecode := Percent.decode?_encode s
  rw [Percent.decode?, hbytes] at hdecode
  exact Option.some.inj (hdecode.symm.trans (Text.fromUTF8?_toByteArray "."))

theorem eq_dots_of_isDoubleDot_encode {s : String}
    (h : isDoubleDot (Percent.encode s).toList = true) : s = ".." := by
  have hbytes := decodeBytes_of_readDots (n := 2) (of_decide_eq_true h)
  have hdecode := Percent.decode?_encode s
  rw [Percent.decode?, hbytes] at hdecode
  exact Option.some.inj (hdecode.symm.trans (Text.fromUTF8?_toByteArray ".."))

/-! ## Segments -/

theorem ne_slash_of_isPlain {c : Char} (h : Percent.isPlain c = true) : c ≠ '/' :=
  Percent.of_isPlain (P := (· ≠ '/')) (by decide) h

/-- A segment of plain characters that reading a path keeps as it is. -/
structure IsPlainSegment (segment : String) : Prop where
  plain : ∀ c ∈ segment.toList, Percent.isPlain c = true
  notSingle : isSingleDot segment.toList = false
  notDouble : isDoubleDot segment.toList = false

theorem isPlainSegment_encode {s : String} (hsingle : s ≠ ".") (hdouble : s ≠ "..") :
    IsPlainSegment (Percent.encode s) where
  plain _ hc := Percent.isPlain_of_mem_encode hc
  notSingle := Bool.eq_false_iff.mpr fun h => hsingle (eq_dot_of_isSingleDot_encode h)
  notDouble := Bool.eq_false_iff.mpr fun h => hdouble (eq_dots_of_isDoubleDot_encode h)

/-- The segment that all addresses of a server start with. -/
theorem isPlainSegment_root : IsPlainSegment "v0" := by
  refine ⟨fun c hc => ?_, by decide, by decide⟩
  have hchars : c = 'v' ∨ c = '0' := by simpa using hc
  rcases hchars with rfl | rfl <;> rfl

theorem IsPlainSegment.normal {segment : String} (h : IsPlainSegment segment) :
    IsNormalSegment segment where
  notSlash hmem := ne_slash_of_isPlain (h.plain _ hmem) rfl
  notBackslash hmem := Percent.of_isPlain (P := (· ≠ '\\')) (by decide) (h.plain _ hmem) rfl
  kept c hc := Percent.of_isPlain (P := fun c => encodedInPath c = false) (by decide) (h.plain c hc)
  notSingle := h.notSingle
  notDouble := h.notDouble

/-- What the text of a path of plain segments consists of. -/
theorem eq_or_isPlain_of_mem_segmentsChars {parts : List String}
    (h : ∀ part ∈ parts, IsPlainSegment part) {c : Char} (hc : c ∈ segmentsChars parts) :
    c = '/' ∨ Percent.isPlain c = true :=
  (mem_segmentsChars hc).imp_right fun ⟨part, hpart, hc⟩ => (h part hpart).plain c hc

/-- A path of plain segments is set as it is. -/
theorem path_withPath {parts : List String} (hne : parts ≠ [])
    (h : ∀ part ∈ parts, IsPlainSegment part) (u : Url) :
    (u.withPath (segmentsText parts)).path = segmentsText parts := by
  rw [path, urlPath_withPath hne fun part hpart => (h part hpart).normal]

end ItemStore.Url
