import ItemStore.Proofs.Patch.Normal

/-!
# Failure reports on the wire

A server sends a failure report as the details of an error, and a client reads it from there.
Details can say the same in more than one way: a report without positions below the top level may
have an empty list, null, or no member for them, and the operation may be written with members that
say nothing. `PatchFailure.Restates` lists what is kept when details are read and written again.

## Main results

- `PatchFailure.ofDetails_eq_ok_iff`: when a report is read from details, and what their members say
  of it;
- `PatchFailure.details_round_trip`: a report is read back from its details, and the details of a
  report that was read restate those that it was read from.
-/

namespace ItemStore

/-- A value that is a natural number is the one that stands for this number, which has 64 bits. -/
theorem Json.eq_ofNat_of_asNat? {v : Json} {n : Nat} (h : v.asNat? = some n) :
    v = .ofNat n ∧ n < 0x10000000000000000 := by
  unfold Json.asNat? at h
  split at h
  next i =>
    obtain ⟨val, lower, upper⟩ := i
    split at h
    next hnat =>
      obtain ⟨m, rfl⟩ := Int.eq_ofNat_of_zero_le hnat
      cases h
      have hm : m < 0x10000000000000000 := by omega
      refine ⟨?_, hm⟩
      simp only [Json.ofNat, JsonInt.ofNat?, Int.toNat_natCast, dif_pos hm]
    next => cases h
  next => cases h

namespace PatchFailure

variable {details : Members} {f : PatchFailure}

/-! ## Reading -/

/-- When a report is read from details, and what their members say of it. -/
theorem ofDetails_eq_ok_iff :
    ofDetails details = .ok f ↔
      (∃ v, details.get? "opIndex" = some v ∧ v.asNat? = some f.opIndex) ∧
      (∃ v, details.get? "op" = some v ∧ PatchOp.ofJson v = .ok f.op) ∧
      nestedPathOf (details.get? "nestedPath") = .ok f.nestedPath ∧
      details.get? "actual" = f.actual ∧
      ((details.get? "info").bind Json.asString?).getD "" = f.info := by
  unfold ofDetails
  constructor
  · intro h
    cases hindex : (details.get? "opIndex").bind Json.asNat? with
    | none =>
      rw [hindex] at h
      cases h
    | some opIndex =>
      rw [hindex] at h
      dsimp only at h
      -- the steps of the reader, each of which has succeeded
      obtain ⟨_, hread, h⟩ := exists_of_bind_eq_ok h
      obtain ⟨op, hop, h⟩ := exists_of_bind_eq_ok h
      obtain ⟨nestedPath, hnested, h⟩ := exists_of_bind_eq_ok h
      cases hread
      cases h
      refine ⟨Option.bind_eq_some_iff.mp hindex, ?_, hnested, rfl, rfl⟩
      cases hmember : details.get? "op" with
      | none =>
        rw [hmember] at hop
        cases hop
      | some v =>
        rw [hmember] at hop
        exact ⟨v, rfl, mapError_eq_ok_iff.mp hop⟩
  · rintro ⟨hindex, ⟨v, hmember, hread⟩, hnested, hactual, hinfo⟩
    have hop : opOf (details.get? "op") = .ok f.op := by
      rw [hmember, opOf, hread]
      rfl
    rw [Option.bind_eq_some_iff.mpr hindex, hop, hnested, hactual, hinfo]
    rfl

private theorem eq_map_of_mapM {items : List Json} {nestedPath : List Nat}
    (h : nestedPathOf (some (.arr items)) = .ok nestedPath) :
    items = nestedPath.map Json.ofNat ∧ ∀ i ∈ nestedPath, i < 0x10000000000000000 := by
  dsimp only [nestedPathOf] at h
  induction items generalizing nestedPath with
  | nil =>
    cases h
    exact ⟨rfl, List.forall_mem_nil _⟩
  | cons item rest ih =>
    rw [List.mapM_cons] at h
    obtain ⟨i, hi, h⟩ := exists_of_bind_eq_ok h
    obtain ⟨positions, hrest, h⟩ := exists_of_bind_eq_ok h
    cases h
    obtain ⟨rfl, hsmall⟩ := ih hrest
    cases hnat : item.asNat? with
    | none =>
      rw [hnat] at hi
      cases hi
    | some n =>
      rw [hnat] at hi
      cases hi
      obtain ⟨rfl, hn⟩ := Json.eq_ofNat_of_asNat? hnat
      exact ⟨rfl, List.forall_mem_cons.mpr ⟨hn, hsmall⟩⟩

/-- The positions below the top level are written as they were read. An empty list is left out, as
null is. -/
theorem member_of_nestedPathOf {member : Option Json} {nestedPath : List Nat}
    (h : nestedPathOf member = .ok nestedPath) :
    (if nestedPath.isEmpty then none else some (.arr (nestedPath.map Json.ofNat))) =
        member.filter (fun v => v ≠ .null && v ≠ .arr []) ∧
      ∀ i ∈ nestedPath, i < 0x10000000000000000 := by
  match member with
  | none | some .null =>
    cases h
    exact ⟨rfl, List.forall_mem_nil _⟩
  | some (.arr items) =>
    -- the elements are the numbers that were read, so the list is empty only if the array was
    obtain ⟨rfl, hsmall⟩ := eq_map_of_mapM h
    refine ⟨?_, hsmall⟩
    cases nestedPath <;> rfl
  | some (.bool _) | some (.num _) | some (.str _) | some (.obj _) => cases h

/-- The positions of a report that was read are numbers that JSON can hold. -/
theorem indexable_of_ofDetails (h : ofDetails details = .ok f) : f.Indexable := by
  obtain ⟨⟨v, -, hindex⟩, -, hnested, -⟩ := ofDetails_eq_ok_iff.mp h
  exact List.forall_mem_cons.mpr
    ⟨(Json.eq_ofNat_of_asNat? hindex).2, (member_of_nestedPathOf hnested).2⟩

/-! ## Writing what was read -/

/-- The members that the details of a report can have. -/
def memberNames : List String := ["opIndex", "op", "info", "nestedPath", "actual"]

/-- The details of a report say no more than that. -/
theorem get?_toDetails_of_other (f : PatchFailure) {key : String} (hkey : key ∉ memberNames) :
    f.toDetails.get? key = none := by
  simp only [memberNames, List.mem_cons, List.not_mem_nil, or_false, not_or] at hkey
  obtain ⟨hindex, hop, hinfo, hnested, hactual⟩ := hkey
  unfold toDetails
  -- two of the members are optional, and no other key occurs in any case
  cases f.nestedPath <;> cases f.actual <;> simp [Assoc.get?_ofPairs, Ne.symm, *]

/-- What is kept when a report of an operation is read from details and written again: the
positions, where an empty list and null count as none, the value found, the remark, where one that
is no string counts as empty, and the operation in its JSON form, without the members that say
nothing. Other members are dropped. -/
structure Restates (written details : Members) (op : PatchOp) : Prop where
  opIndex : written.get? "opIndex" = details.get? "opIndex"
  nestedPath : written.get? "nestedPath" = (details.get? "nestedPath").filter fun v =>
    v ≠ .null && v ≠ .arr []
  actual : written.get? "actual" = details.get? "actual"
  info : written.get? "info" = some (.str (((details.get? "info").bind Json.asString?).getD ""))
  op : ∃ v, details.get? "op" = some v ∧ PatchOp.ofJson v = .ok op ∧
    written.get? "op" = some op.toJson ∧
    (v.Canonical → op.toJson = PatchOp.pruned v)
  others : ∀ key, key ∉ memberNames → written.get? key = none

/-- The details of a report that was read restate those that it was read from. -/
theorem restates_of_ofDetails (h : ofDetails details = .ok f) :
    Restates f.toDetails details f.op := by
  obtain ⟨⟨v, hmember, hindex⟩, ⟨w, hop, hread⟩, hnested, hactual, hinfo⟩ :=
    ofDetails_eq_ok_iff.mp h
  obtain ⟨hindex', hop', hinfo', hactual', hnested'⟩ := f.get?_toDetails
  exact
    { opIndex := by rw [hindex', hmember, (Json.eq_ofNat_of_asNat? hindex).1]
      nestedPath := hnested'.trans (member_of_nestedPathOf hnested).1
      actual := hactual'.trans hactual.symm
      info := by rw [hinfo', hinfo]
      op := ⟨w, hop, hread, hop', fun hw => PatchOp.toJson_of_ofJson f.op hw hread⟩
      others := fun _ => f.get?_toDetails_of_other }

/-- **Writing and reading failure reports are inverse.** A report is read back from its details, if
its positions are numbers that JSON can hold, as those of every report that was read are. The
details of a report that was read restate those that it was read from. -/
theorem details_round_trip :
    (∀ f : PatchFailure, f.Indexable → ofDetails f.toDetails = .ok f) ∧
      ∀ (details : Members) (f : PatchFailure), ofDetails details = .ok f →
        f.Indexable ∧ Restates f.toDetails details f.op :=
  ⟨fun _ => ofDetails_toDetails, fun _ _ h => ⟨indexable_of_ofDetails h, restates_of_ofDetails h⟩⟩

/-- A report of a test inside a nested patch that found null, and details with members that say
nothing and without a value found. -/
theorem details_round_trip_of_nested_test :
    let op : PatchOp := .patch "/" [.inc "/b" none, .test "/a" (.equals .null) false] false
    let report : PatchFailure := ⟨1, op, [1], some .null, "test failed"⟩
    let written : Json := .obj [("note", .null), ("op", .str "remove"), ("path", .str "/a")]
    let details : Members :=
      [("info", .null), ("nestedPath", .arr []), ("note", .bool true), ("op", written),
        ("opIndex", .num (.int ⟨7, by decide, by decide⟩))]
    let read : PatchFailure := ⟨7, .remove "/a", [], none, ""⟩
    report.Indexable ∧ ofDetails report.toDetails = .ok report ∧ ofDetails details = .ok read ∧
      read.toDetails.get? "op" = some (.obj [("op", .str "remove"), ("path", .str "/a")]) ∧
      read.toDetails.get? "nestedPath" = none ∧ read.toDetails.get? "actual" = none ∧
      read.toDetails.get? "info" = some (.str "") ∧ read.toDetails.get? "note" = none := by
  intro op report written details read
  obtain ⟨hwritten, hread⟩ := details_round_trip
  have hindexable : report.Indexable := by
    unfold Indexable
    decide
  have hop : PatchOp.ofJson written = .ok read.op := by cbv
  have hdetails : ofDetails details = .ok read :=
    ofDetails_eq_ok_iff.mpr ⟨⟨_, rfl, rfl⟩, ⟨written, rfl, hop⟩, rfl, rfl, rfl⟩
  obtain ⟨-, hrestates⟩ := hread details read hdetails
  obtain ⟨v, hmember, -, hencoding, hpruned⟩ := hrestates.op
  have hv : v = written := Option.some.inj (hmember.symm.trans rfl)
  have hencoded : read.op.toJson = .obj [("op", .str "remove"), ("path", .str "/a")] := by
    rw [hpruned (by rw [hv]; decide +kernel), hv]
    decide +kernel
  exact ⟨hindexable, hwritten report hindexable, hdetails, hencoding.trans (congrArg some hencoded),
    hrestates.nestedPath, hrestates.actual, hrestates.info, hrestates.others "note" (by decide)⟩

end PatchFailure

end ItemStore
