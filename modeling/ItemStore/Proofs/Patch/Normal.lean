import ItemStore.Proofs.Except
import ItemStore.Proofs.Json.Canonical
import ItemStore.Proofs.Json.Text
import ItemStore.Proofs.Patch.Codec

/-!
# The normal form of patch documents

Many objects are read as the same operation: members that the operation does not have are ignored, a
null amount is no amount, and a null or false flag is no flag. `PatchDocument.pruned` strikes out
exactly these members, in the operations of a document and of its nested patches, and leaves the
values that operations carry as they are.

## Main results

- `PatchOp.details_of_ofJson`: what the members of an object say when it is read as an operation;
- `PatchDocument.codec_round_trips`: a document is read back from its JSON form, and the JSON form
  of what was read from a value is that value without the members that say nothing.

## Architecture

1. `PatchOp.pruned` and its companions follow the value alone; they do not mention operations.
2. `PatchOp.get?_prunedMembers` sees the pruned object as a map, and `PatchOp.eq_prunedMembers`
   compares it with an object that is given by pairs: it suffices to look at the members that the
   operation has.
3. The members that are read are then the members that are written, and induction over the
   operations goes into nested patches.
-/

namespace ItemStore

namespace PatchOp

/-! ## Members that say nothing -/

/-- The members that an operation of this name has. -/
def fields (name : String) : List String :=
  "op" :: "path" ::
    match name with
    | "remove" => []
    | "move" | "copy" => ["from"]
    | "test" => ["value", "negate"]
    | "patch" => ["value", "conditional"]
    | _ => ["value"]

/-- Whether a member of an operation says the same as its absence. -/
def saysNothing (name field : String) (v : Json) : Bool :=
  if field = "value" then name = "inc" ∧ v = .null
  else if field = "negate" ∨ field = "conditional" then v = .null ∨ v = .bool false
  else false

/-- Whether a member counts when an object is read as an operation of this name. -/
def counts (name field : String) (v : Json) : Bool :=
  (fields name).contains field && !saysNothing name field v

/-- The name of the operation that an object describes. -/
def nameIn (ms : Members) : String :=
  ((ms.get? "op").bind Json.asString?).getD ""

mutual

/-- The object of an operation without the members that do not count. -/
def pruned : Json → Json
  | .obj ms => .obj (prunedMembers (nameIn ms) ms)
  | v => v

/-- The members that count for an operation of this name. The operations of a nested patch are
pruned in turn. -/
def prunedMembers (name : String) : List (String × Json) → List (String × Json)
  | [] => []
  | (field, v) :: rest =>
    if counts name field v then
      (field, if name = "patch" ∧ field = "value" then prunedArray v else v) ::
        prunedMembers name rest
    else prunedMembers name rest

/-- The array of a document, with its operations pruned. -/
def prunedArray : Json → Json
  | .arr items => .arr (prunedItems items)
  | v => v

/-- The operations of a list, each of them pruned. -/
def prunedItems : List Json → List Json
  | [] => []
  | v :: rest => pruned v :: prunedItems rest

end

/-! ## Pruned objects as maps -/

theorem mem_keys_prunedMembers {name k : String} {ms : Members}
    (h : k ∈ Assoc.keys (prunedMembers name ms)) :
    k ∈ Assoc.keys ms := by
  induction ms with
  | nil => exact h
  | cons entry rest ih =>
    obtain ⟨field, v⟩ := entry
    rw [prunedMembers] at h
    split at h
    next =>
      rcases List.mem_cons.mp h with rfl | h
      · exact List.mem_cons_self
      · exact List.mem_cons_of_mem _ (ih h)
    next => exact List.mem_cons_of_mem _ (ih h)

theorem sorted_prunedMembers (name : String) {ms : Members} (h : Assoc.Sorted ms) :
    Assoc.Sorted (prunedMembers name ms) := by
  induction ms with
  | nil => exact h
  | cons entry rest ih =>
    obtain ⟨field, v⟩ := entry
    obtain ⟨hfirst, hrest⟩ := Assoc.sorted_cons.mp h
    rw [prunedMembers]
    split
    next => exact Assoc.sorted_cons.mpr ⟨fun k hk => hfirst k (mem_keys_prunedMembers hk), ih hrest⟩
    next => exact ih hrest

/-- What a pruned object has under a key. -/
theorem get?_prunedMembers (name : String) {ms : Members} (h : Assoc.Sorted ms) (k : String) :
    Assoc.get? k (prunedMembers name ms) =
      (Assoc.get? k ms).bind fun v =>
        if counts name k v then some (if name = "patch" ∧ k = "value" then prunedArray v else v)
          else none := by
  induction ms with
  | nil => rfl
  | cons entry rest ih =>
    obtain ⟨field, v⟩ := entry
    obtain ⟨hfirst, hrest⟩ := Assoc.sorted_cons.mp h
    rw [prunedMembers, Assoc.get?]
    by_cases hk : field = k
    · subst hk
      -- the key occurs once, so nothing is found behind the member that was struck out
      have habsent : Assoc.get? field rest = none :=
        Assoc.get?_eq_none_iff.mpr fun hmem => String.lt_irrefl _ (hfirst _ hmem)
      split
      next hcounts => simp [Assoc.get?, hcounts]
      next hcounts => simp [hcounts, ih hrest, habsent]
    · split
      next => simp [Assoc.get?, hk, ih hrest]
      next => simp [ih hrest]

/-- An object given by pairs is the pruned one if it agrees with it on the members that the
operation has. -/
theorem eq_prunedMembers {name : String} {ms : Members} (h : Assoc.Sorted ms)
    {pairs : List (String × Json)} (hkeys : ∀ entry ∈ pairs, entry.1 ∈ fields name)
    (hagree : ∀ k ∈ fields name, Assoc.get? k (Assoc.ofPairs pairs) =
      (Assoc.get? k ms).bind fun v =>
        if saysNothing name k v then none
        else some (if name = "patch" ∧ k = "value" then prunedArray v else v)) :
    Assoc.ofPairs pairs = prunedMembers name ms := by
  refine Assoc.ext_of_sorted (Assoc.sorted_ofPairs pairs) (sorted_prunedMembers name h) fun k => ?_
  rw [get?_prunedMembers name h]
  by_cases hk : k ∈ fields name
  · rw [hagree k hk]
    congr 1
    funext v
    cases hnothing : saysNothing name k v <;> simp [counts, hk, hnothing]
  · have hpairs : pairs.reverse.find? (fun entry => entry.1 = k) = none :=
      List.find?_eq_none.mpr fun entry hmem heq =>
        hk (of_decide_eq_true heq ▸ hkeys entry (List.mem_reverse.mp hmem))
    simp [Assoc.get?_ofPairs, hpairs, counts, hk]

/-! ## What was read -/

/-- What the members of an object say of the operation that is read from it, beside its name and its
path. -/
def Details (ms : Members) : PatchOp → Prop
  | .add _ value | .replace _ value | .init _ value | .merge _ value =>
    Assoc.get? "value" ms = some value
  | .remove _ => True
  | .move source _ | .copy source _ => Assoc.get? "from" ms = some (.str source)
  | .inc _ none => Assoc.get? "value" ms = none ∨ Assoc.get? "value" ms = some .null
  | .inc _ (some amount) => Assoc.get? "value" ms = some (.num amount)
  | .test _ expected negate =>
    Assoc.get? "value" ms = expected.value? ∧ flagField "negate" ms = .ok negate
  | .patch _ ops conditional =>
    flagField "conditional" ms = .ok conditional ∧
      ∃ items, Assoc.get? "value" ms = some (.arr items) ∧ ofJsonAll items = .ok ops

theorem stringField_eq_ok_iff {field s : String} {ms : Members} :
    stringField field ms = .ok s ↔ Assoc.get? field ms = some (.str s) := by
  unfold stringField
  cases Assoc.get? field ms with
  | none => simp
  | some v => cases v <;> simp [Json.asString?]

theorem valueField_eq_ok_iff {op : String} {value : Json} {ms : Members} :
    valueField op ms = .ok value ↔ Assoc.get? "value" ms = some value := by
  unfold valueField
  cases Assoc.get? "value" ms <;> simp

/-- The operations with a path and a value are read alike. -/
private theorem exists_of_path_value {make : String → Json → PatchOp} {name : String} {ms : Members}
    {op : PatchOp}
    (h : (do return make (← stringField "path" ms) (← valueField name ms)) = Except.ok op) :
    ∃ path value, op = make path value ∧ Assoc.get? "path" ms = some (.str path) ∧
      Assoc.get? "value" ms = some value := by
  obtain ⟨path, hpath, h⟩ := exists_of_bind_eq_ok h
  obtain ⟨value, hvalue, h⟩ := exists_of_bind_eq_ok h
  cases h
  exact ⟨path, value, rfl, stringField_eq_ok_iff.mp hpath, valueField_eq_ok_iff.mp hvalue⟩

/-- So are those with two paths. -/
private theorem exists_of_from_path {make : String → String → PatchOp} {ms : Members} {op : PatchOp}
    (h : (do return make (← stringField "from" ms) (← stringField "path" ms)) = Except.ok op) :
    ∃ source path, op = make source path ∧ Assoc.get? "path" ms = some (.str path) ∧
      Assoc.get? "from" ms = some (.str source) := by
  obtain ⟨source, hsource, h⟩ := exists_of_bind_eq_ok h
  obtain ⟨path, hpath, h⟩ := exists_of_bind_eq_ok h
  cases h
  exact ⟨source, path, rfl, stringField_eq_ok_iff.mp hpath, stringField_eq_ok_iff.mp hsource⟩

/-- An object that is read as an operation has its name and its path, and says the rest of it. -/
theorem details_of_ofJson {ms : Members} {op : PatchOp} (h : ofJson (.obj ms) = .ok op) :
    Assoc.get? "op" ms = some (.str op.name) ∧ Assoc.get? "path" ms = some (.str op.path) ∧
    Details ms op := by
  rw [ofJson] at h
  cases hop : (Assoc.get? "op" ms).bind Json.asString? with
  | none => rw [hop] at h; cases h
  | some opName =>
    have hname : Assoc.get? "op" ms = some (.str opName) :=
      stringField_eq_ok_iff.mp (by rw [stringField, hop])
    rw [hop] at h
    dsimp only at h
    -- the names are tried in turn
    by_cases hadd : opName = "add"
    · rw [if_pos hadd] at h
      subst hadd
      obtain ⟨path, value, rfl, hpath, hvalue⟩ := exists_of_path_value h
      exact ⟨hname, hpath, hvalue⟩
    rw [if_neg hadd] at h
    by_cases hremove : opName = "remove"
    · rw [if_pos hremove] at h
      subst hremove
      obtain ⟨path, hpath, h⟩ := exists_of_bind_eq_ok h
      cases h
      exact ⟨hname, stringField_eq_ok_iff.mp hpath, trivial⟩
    rw [if_neg hremove] at h
    by_cases hreplace : opName = "replace"
    · rw [if_pos hreplace] at h
      subst hreplace
      obtain ⟨path, value, rfl, hpath, hvalue⟩ := exists_of_path_value h
      exact ⟨hname, hpath, hvalue⟩
    rw [if_neg hreplace] at h
    by_cases hmove : opName = "move"
    · rw [if_pos hmove] at h
      subst hmove
      obtain ⟨source, path, rfl, hpath, hsource⟩ := exists_of_from_path h
      exact ⟨hname, hpath, hsource⟩
    rw [if_neg hmove] at h
    by_cases hcopy : opName = "copy"
    · rw [if_pos hcopy] at h
      subst hcopy
      obtain ⟨source, path, rfl, hpath, hsource⟩ := exists_of_from_path h
      exact ⟨hname, hpath, hsource⟩
    rw [if_neg hcopy] at h
    by_cases hinc : opName = "inc"
    · rw [if_pos hinc] at h
      subst hinc
      obtain ⟨path, hpath, h⟩ := exists_of_bind_eq_ok h
      have hpath := stringField_eq_ok_iff.mp hpath
      split at h
      next hvalue => cases h; exact ⟨hname, hpath, .inl hvalue⟩
      next hvalue => cases h; exact ⟨hname, hpath, .inr hvalue⟩
      next hvalue => cases h; exact ⟨hname, hpath, hvalue⟩
      next => cases h
    rw [if_neg hinc] at h
    by_cases hinit : opName = "init"
    · rw [if_pos hinit] at h
      subst hinit
      obtain ⟨path, value, rfl, hpath, hvalue⟩ := exists_of_path_value h
      exact ⟨hname, hpath, hvalue⟩
    rw [if_neg hinit] at h
    by_cases hmerge : opName = "merge"
    · rw [if_pos hmerge] at h
      subst hmerge
      obtain ⟨path, value, rfl, hpath, hvalue⟩ := exists_of_path_value h
      exact ⟨hname, hpath, hvalue⟩
    rw [if_neg hmerge] at h
    by_cases htest : opName = "test"
    · rw [if_pos htest] at h
      subst htest
      obtain ⟨path, hpath, h⟩ := exists_of_bind_eq_ok h
      obtain ⟨negate, hnegate, h⟩ := exists_of_bind_eq_ok h
      cases h
      refine ⟨hname, stringField_eq_ok_iff.mp hpath, ?_, hnegate⟩
      cases Assoc.get? "value" ms <;> rfl
    rw [if_neg htest] at h
    by_cases hpatch : opName = "patch"
    · rw [if_pos hpatch] at h
      subst hpatch
      obtain ⟨path, hpath, h⟩ := exists_of_bind_eq_ok h
      split at h
      next => cases h
      next items hvalue =>
        obtain ⟨ops, hops, h⟩ := exists_of_bind_eq_ok h
        obtain ⟨conditional, hconditional, h⟩ := exists_of_bind_eq_ok h
        cases h
        exact ⟨hname, stringField_eq_ok_iff.mp hpath, hconditional, items, hvalue, hops⟩
      next => cases h
    rw [if_neg hpatch] at h
    cases h

theorem flagField_eq_true_iff {field : String} {ms : Members} :
    flagField field ms = .ok true ↔ Assoc.get? field ms = some (.bool true) := by
  unfold flagField
  split <;> simp_all

/-- There are three ways for a flag not to be set. -/
theorem flagField_eq_false_iff {field : String} {ms : Members} :
    flagField field ms = .ok false ↔
      Assoc.get? field ms = none ∨ Assoc.get? field ms = some .null ∨
      Assoc.get? field ms = some (.bool false) := by
  unfold flagField
  split <;> simp_all

/-! ## Writing what was read -/

/-- The members that are written for an operation are those that were read. -/
theorem toJson_of_details {ms : Members} (hsorted : Assoc.Sorted ms) {op : PatchOp}
    (hpatch : op.name ≠ "patch") (hname : Assoc.get? "op" ms = some (.str op.name))
    (hpath : Assoc.get? "path" ms = some (.str op.path)) (hdetails : Details ms op) :
    op.toJson = .obj (prunedMembers op.name ms) := by
  cases op with
  | add path value | replace path value | init path value | merge path value | remove path
  | move source path
  | copy source path =>
    simp only [Details] at hdetails
    refine congrArg Json.obj (eq_prunedMembers hsorted (by simp [fields, name]) ?_)
    simp [fields, name, PatchOp.path, Assoc.get?_ofPairs, saysNothing, *]
  | inc path amount =>
    cases amount with
    | some amount =>
      simp only [Details] at hdetails
      refine congrArg Json.obj (eq_prunedMembers hsorted (by simp [fields, name]) ?_)
      simp [fields, name, PatchOp.path, Assoc.get?_ofPairs, saysNothing, *]
    | none =>
      refine congrArg Json.obj (eq_prunedMembers hsorted (by simp [fields, name]) ?_)
      rcases hdetails with hvalue | hvalue <;>
        simp [fields, name, PatchOp.path, Assoc.get?_ofPairs, saysNothing, *]
  | test path expected negate =>
    obtain ⟨hvalue, hnegate⟩ := hdetails
    refine congrArg Json.obj (eq_prunedMembers hsorted ?_ ?_)
    · cases expected <;> cases negate <;> simp [fields, name]
    · cases negate with
      | true =>
        have hflag := flagField_eq_true_iff.mp hnegate
        cases expected <;>
          simp [fields, name, PatchOp.path, Assoc.get?_ofPairs, saysNothing, Expectation.value?, *]
      | false =>
        rcases flagField_eq_false_iff.mp hnegate with hflag | hflag | hflag <;> cases expected <;>
          simp [fields, name, PatchOp.path, Assoc.get?_ofPairs, saysNothing, Expectation.value?, *]
  | patch path ops conditional => exact absurd rfl hpatch

/-- So are those of a nested patch, if the same holds of its operations. -/
theorem toJson_patch_of_details {ms : Members} (hsorted : Assoc.Sorted ms) {path : String}
    {ops : List PatchOp} {conditional : Bool} {items : List Json}
    (hname : Assoc.get? "op" ms = some (.str "patch"))
    (hpath : Assoc.get? "path" ms = some (.str path))
    (hvalue : Assoc.get? "value" ms = some (.arr items))
    (hconditional : flagField "conditional" ms = .ok conditional)
    (hops : toJsonAll ops = prunedItems items) :
    toJson (.patch path ops conditional) = .obj (prunedMembers "patch" ms) := by
  refine congrArg Json.obj (eq_prunedMembers hsorted ?_ ?_)
  · cases conditional <;> simp [fields]
  · cases conditional with
    | true =>
      have hflag := flagField_eq_true_iff.mp hconditional
      simp [fields, Assoc.get?_ofPairs, saysNothing, prunedArray, *]
    | false =>
      rcases flagField_eq_false_iff.mp hconditional with hflag | hflag | hflag <;>
        simp [fields, Assoc.get?_ofPairs, saysNothing, prunedArray, *]

mutual

/-- The object that stands for an operation is the one it was read from, pruned. -/
theorem toJson_of_ofJson (op : PatchOp) {v : Json} (hv : v.Canonical) (h : ofJson v = .ok op) :
    op.toJson = pruned v := by
  cases v with
  | obj ms =>
    obtain ⟨hname, hpath, hdetails⟩ := details_of_ofJson h
    have hsorted := hv.1
    have hnameIn : nameIn ms = op.name := by rw [nameIn, hname]; rfl
    rw [pruned, hnameIn]
    cases op with
    | patch path ops conditional =>
      obtain ⟨hconditional, items, hvalue, hops⟩ := hdetails
      have hitems : Json.CanonicalItems items := hv.get? hvalue
      exact toJson_patch_of_details hsorted hname hpath hvalue hconditional
        (toJsonAll_of_ofJsonAll ops hitems hops)
    | _ => exact toJson_of_details hsorted (by simp [name]) hname hpath hdetails
  | _ => simp [ofJson] at h

theorem toJsonAll_of_ofJsonAll (ops : List PatchOp) {items : List Json}
    (hitems : Json.CanonicalItems items) (h : ofJsonAll items = .ok ops) :
    toJsonAll ops = prunedItems items := by
  cases items with
  | nil =>
    rw [ofJsonAll] at h
    cases h
    rfl
  | cons v rest =>
    rw [ofJsonAll] at h
    obtain ⟨op, hop, h⟩ := exists_of_bind_eq_ok h
    obtain ⟨ops', hops, h⟩ := exists_of_bind_eq_ok h
    cases h
    rw [toJsonAll, prunedItems, toJson_of_ofJson op hitems.1 hop,
      toJsonAll_of_ofJsonAll ops' hitems.2 hops]

end

end PatchOp

namespace PatchDocument

/-- **Writing and reading patch documents are inverse.** A document is read back from its JSON form.
A value that is read as a document is its JSON form but for the members that say nothing: those that
an operation does not have, a null amount, and flags that are null or false. Whether a test has a
value, be it null, is among what is kept. -/
theorem codec_round_trips :
    (∀ doc : PatchDocument, ofJson doc.toJson = .ok doc) ∧
      (∀ (v : Json) (doc : PatchDocument), v.Canonical → ofJson v = .ok doc →
        doc.toJson = PatchOp.prunedArray v) ∧
      ∀ (ms : Members) (path : String) (expected : Expectation) (negate : Bool),
        PatchOp.ofJson (.obj ms) = .ok (.test path expected negate) →
        Assoc.get? "value" ms = expected.value? := by
  refine ⟨ofJson_toJson, fun v doc hv h => ?_,
    fun ms path expected negate h => (PatchOp.details_of_ofJson h).2.2.1⟩
  cases v with
  | arr items => exact congrArg Json.arr (PatchOp.toJsonAll_of_ofJsonAll doc hv h)
  | _ => simp [ofJson] at h

/-- A nested patch with a flag that is not set and members that nothing reads, at both levels,
around a test for null and a test for presence. -/
theorem codec_round_trips_of_nested_patch :
    let presence : Members := [("negate", .bool true), ("op", .str "test"), ("path", .str "/t")]
    let v : Json := .arr
      [.obj [("conditional", .bool false), ("note", .null), ("op", .str "patch"),
        ("path", .str "/a"), ("value", .arr [
          .obj [("from", .str "/x"), ("op", .str "inc"), ("path", .str "/n"), ("value", .null)],
          .obj [("negate", .null), ("op", .str "test"), ("path", .str "/t"), ("value", .null)],
          .obj presence])]]
    let doc : PatchDocument :=
      [.patch "/a" [.inc "/n" none, .test "/t" (.equals .null) false, .test "/t" .present true]
        false]
    let pruned : Json := .arr [.obj [("op", .str "patch"), ("path", .str "/a"),
      ("value", .arr [
        .obj [("op", .str "inc"), ("path", .str "/n")],
        .obj [("op", .str "test"), ("path", .str "/t"), ("value", .null)],
        .obj presence])]]
    ofJson doc.toJson = .ok doc ∧ (ofJson v = .ok doc ∧ doc.toJson = pruned) ∧
      Assoc.get? "value" presence = Expectation.present.value? := by
  intro presence v doc pruned
  obtain ⟨hwritten, hread, htest⟩ := codec_round_trips
  have hv : v.Canonical := by decide +kernel
  have hdoc : ofJson v = .ok doc := by cbv
  have hpruned : PatchOp.prunedArray v = pruned := by decide +kernel
  have hpresence : PatchOp.ofJson (.obj presence) = .ok (.test "/t" .present true) := by cbv
  exact ⟨hwritten doc, ⟨hdoc, (hread v doc hv hdoc).trans hpruned⟩,
    htest presence "/t" .present true hpresence⟩

end PatchDocument

end ItemStore
