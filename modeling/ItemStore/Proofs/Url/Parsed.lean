import ItemStore.Proofs.Except
import ItemStore.Proofs.Url.Normal
import ItemStore.Url.Parser

/-!
# URLs that were read

Whatever text a URL of a web scheme is read from, its path is normal: percent signs, dots and
slashes have got their meaning then, and reading the path once more changes nothing.

- `Url.hasNormalPath_of_parse`: the path of an absolute URL that was read is normal;
- `Url.hasNormalPath_of_join`: so is the path of a reference that was read relative to a web
  address.
-/

namespace ItemStore.Url

/-- A path of normal segments, of which there is one at least. -/
def HasNormalPath (u : Url) : Prop :=
  ∃ parts, u.urlPath = .segments parts ∧ parts ≠ [] ∧ ∀ part ∈ parts, IsNormalSegment part

variable {u base : Url} {scheme : String} {cs : List Char}

/-- The query and the fragment are no part of the path. -/
theorem HasNormalPath.withTail (h : u.HasNormalPath) (cs : List Char) :
    (u.withTail cs).HasNormalPath := h

/-- The segments of a text that was read on top of normal ones. -/
theorem hasNormalPath_segmentsOf {above : List String}
    (habove : ∀ part ∈ above, IsNormalSegment part) (cs : List Char)
    (hpath : u.urlPath = .segments (segmentsOf true above cs)) : u.HasNormalPath :=
  ⟨_, hpath, segmentsOf_ne_nil _ _ _, isNormalSegment_of_mem_segmentsOf habove⟩

theorem hasNormalPath_empty (hpath : u.urlPath = .segments [""]) : u.HasNormalPath := by
  refine ⟨_, hpath, List.cons_ne_nil _ _, fun part hpart => ?_⟩
  rw [List.mem_singleton.mp hpart]
  exact isNormalSegment_empty

theorem HasNormalPath.isNormalPath (h : u.HasNormalPath) : IsNormalPath u.path := by
  obtain ⟨parts, hpath, hne, hparts⟩ := h
  refine ⟨parts, hne, hparts, ?_⟩
  rw [path, hpath]

theorem isNormalPath_withPath (u : Url) (path : String) : IsNormalPath (u.withPath path).path :=
  HasNormalPath.isNormalPath (hasNormalPath_segmentsOf (List.forall_mem_nil _) _ rfl)

/-! ## The kinds of URLs -/

/-- What follows the double slash. -/
theorem hasNormalPath_of_afterSlashes (h : afterSlashes scheme cs = .ok u) :
    u.scheme = scheme ∧ (isSpecialScheme scheme = true → u.HasNormalPath) := by
  unfold afterSlashes at h
  dsimp only at h
  split at h
  next => cases h
  next =>
    obtain ⟨authority, -, h⟩ := exists_of_bind_eq_ok h
    cases h
    refine ⟨rfl, fun hspecial => ?_⟩
    rw [hspecial]
    refine HasNormalPath.withTail ?_ _
    split
    next => exact hasNormalPath_empty rfl
    next => exact hasNormalPath_segmentsOf (List.forall_mem_nil _) _ rfl

theorem hasNormalPath_fileUrl (host : Host) (path tail : List Char) :
    (fileUrl host path tail).HasNormalPath := by
  refine HasNormalPath.withTail ?_ _
  generalize hparts : (segmentsOf true [] path).dropWhile (· = "") = parts
  split
  next => exact hasNormalPath_empty rfl
  next hne =>
    refine ⟨parts, rfl, fun hnil => hne (List.isEmpty_iff.mpr hnil), fun part hpart => ?_⟩
    rw [← hparts] at hpart
    exact isNormalSegment_of_mem_segmentsOf (List.forall_mem_nil _) part
      (List.dropWhile_sublist _ |>.mem hpart)

theorem hasNormalPath_of_fileOf (h : fileOf cs = .ok u) : u.HasNormalPath := by
  unfold fileOf at h
  dsimp only at h
  split at h
  next a b rest =>
    split at h
    next =>
      split at h
      next =>
        cases h
        exact hasNormalPath_fileUrl _ _ _
      next =>
        obtain ⟨host, -, h⟩ := exists_of_bind_eq_ok h
        cases h
        exact hasNormalPath_fileUrl _ _ _
    next =>
      cases h
      exact hasNormalPath_fileUrl _ _ _
  next =>
    cases h
    exact hasNormalPath_fileUrl _ _ _

/-- A reference without a scheme, relative to a web address. -/
theorem hasNormalPath_of_relativeTo {above : List String} (hspecial : base.isSpecial = true)
    (habove : base.urlPath = .segments above) (hbase : base.HasNormalPath)
    (h : relativeTo base above cs = .ok u) :
    u.HasNormalPath := by
  have hnormal : ∀ part ∈ above, IsNormalSegment part := by
    obtain ⟨parts, hparts, -, hnormal⟩ := hbase
    rw [habove] at hparts
    cases hparts
    exact hnormal
  unfold relativeTo at h
  dsimp only at h
  split at h
  next =>
    cases h
    exact hbase
  next =>
    cases h
    exact hbase
  next =>
    cases h
    exact hbase
  next c rest _ _ =>
    rw [hspecial] at h
    split at h
    next =>
      split at h
      next => exact (hasNormalPath_of_afterSlashes h).2 hspecial
      next =>
        cases h
        exact hasNormalPath_segmentsOf (List.forall_mem_nil _) _ rfl
    next =>
      cases h
      exact hasNormalPath_segmentsOf
        (fun part hpart => hnormal part ((List.dropLast_sublist above).mem hpart)) _ rfl

/-- What follows the scheme. -/
theorem hasNormalPath_of_afterScheme {base : Option Url}
    (hbase : ∀ b, base = some b → b.isSpecial = true → b.HasNormalPath)
    (h : afterScheme base scheme cs = .ok u) (hspecial : u.isSpecial = true) : u.HasNormalPath := by
  unfold afterScheme at h
  dsimp only at h
  split at h
  next => exact hasNormalPath_of_fileOf h
  next =>
    split at h
    next hscheme =>
      split at h
      next b =>
        split at h
        next above habove =>
          split at h
          next hsame =>
            have hb : b.isSpecial = true := by
              rw [isSpecial, of_decide_eq_true (Bool.and_eq_true_iff.mp hsame).2]
              exact hscheme
            exact hasNormalPath_of_relativeTo hb habove (hbase b rfl hb) h
          next => exact (hasNormalPath_of_afterSlashes h).2 hscheme
        next => exact (hasNormalPath_of_afterSlashes h).2 hscheme
      next => exact (hasNormalPath_of_afterSlashes h).2 hscheme
    next hscheme =>
      -- all that is read here has a scheme without hierarchy
      exfalso
      refine hscheme ?_
      split at h
      next =>
        rw [← (hasNormalPath_of_afterSlashes h).1]
        exact hspecial
      next =>
        cases h
        exact hspecial
      next =>
        cases h
        exact hspecial

/-! ## Whole texts -/

/-- **A web address that was read has a normal path.** -/
theorem hasNormalPath_of_parse {text : String} (h : parse text = .ok u)
    (hspecial : u.isSpecial = true) :
    u.HasNormalPath := by
  unfold parse at h
  split at h
  next =>
    refine hasNormalPath_of_afterScheme (fun b hb _ => ?_) h hspecial
    cases hb
  next => cases h

/-- So has a reference that was read relative to a web address, unless it leaves the web. -/
theorem hasNormalPath_of_join {text : String} (hbaseSpecial : base.isSpecial = true)
    (hbase : base.HasNormalPath) (h : base.join text = .ok u) (hspecial : u.isSpecial = true) :
    u.HasNormalPath := by
  obtain ⟨parts, hparts, -⟩ := id hbase
  unfold join at h
  dsimp only at h
  split at h
  next =>
    refine hasNormalPath_of_afterScheme (fun b hb _ => ?_) h hspecial
    cases hb
    exact hbase
  next =>
    rw [hparts] at h
    exact hasNormalPath_of_relativeTo hbaseSpecial hparts hbase h

end ItemStore.Url
