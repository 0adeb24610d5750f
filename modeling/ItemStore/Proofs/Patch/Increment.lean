import ItemStore.Proofs.Decimal.Sum
import ItemStore.Proofs.Json.Focus
import ItemStore.Proofs.Json.Text
import ItemStore.Proofs.Patch.Conditional

/-!
# Increments

The integers of a document are those of 64 bits, signed or unsigned. Sums are exact only between
signed integers, and only if the sum is one again: an integer beyond those is taken as the machine
number next to it, and so is the one that it is added to.

## Main results

- `Number.add?_int_eq_ofInt?_iff`: the integers whose sum is exact, whenever there is an integer for
  it;
- `PatchDocument.increment_exact_iff`: the increments that store the exact sum, or leave the
  document as it was if no integer of a document is the sum.
-/

namespace ItemStore

/-! ## Integers in range -/

theorem JsonInt.ofInt?_eq_some_iff {n : Int} {i : JsonInt} :
    JsonInt.ofInt? n = some i ↔ i.val = n := by
  constructor
  · intro h
    unfold JsonInt.ofInt? at h
    split at h
    next n =>
      unfold JsonInt.ofNat? at h
      split at h
      next => cases h; rfl
      next => cases h
    next n =>
      split at h
      next => cases h; rfl
      next => cases h
  · rintro rfl
    exact i.ofInt?_val

namespace Number

variable {n : Int} {i j : JsonInt}

theorem ofInt?_eq_some_iff {sum : Number} :
    Number.ofInt? n = some sum ↔ ∃ i : JsonInt, sum = .int i ∧ i.val = n := by
  rw [Number.ofInt?, Option.map_eq_some_iff]
  simp only [JsonInt.ofInt?_eq_some_iff]
  exact exists_congr fun i => by rw [and_comm, eq_comm (a := sum)]

theorem ofInt?_ne_none (hlower : -0x8000000000000000 ≤ n) (hupper : n < 0x10000000000000000) :
    Number.ofInt? n ≠ none := by
  have hsome : Number.ofInt? n = some (.int ⟨n, hlower, hupper⟩) :=
    ofInt?_eq_some_iff.mpr ⟨_, rfl, rfl⟩
  simp [hsome]

theorem ofInt?_eq_none (hlower : n < -0x8000000000000000) : Number.ofInt? n = none := by
  cases h : Number.ofInt? n with
  | none => rfl
  | some sum =>
    obtain ⟨i, -, hi⟩ := ofInt?_eq_some_iff.mp h
    have := i.lower
    omega

/-! ## Sums -/

/-- Signed integers are added exactly, if their sum is not too great for a signed one. -/
theorem add?_of_signed (hi : i.val < 0x8000000000000000) (hj : j.val < 0x8000000000000000) :
    (Number.int i).add? (.int j) = if i.val + j.val < 0x8000000000000000 then
      Number.ofInt? (i.val + j.val) else none := by
  simp only [add?, asInt64?, hi, hj, if_true]
  split
  next h => rw [if_pos h.2]
  next h =>
    split
    next hupper => exact (ofInt?_eq_none (by omega)).symm
    next => rfl

/-- With an unsigned integer beyond the signed ones, the sum is a machine number. -/
theorem add?_of_unsigned (h : 0x8000000000000000 ≤ i.val ∨ 0x8000000000000000 ≤ j.val) :
    ∃ x, (Number.int i).add? (.int j) = some (.double x) := by
  obtain ⟨x, hx⟩ := Double.exists_ofFloat?_add i j
  refine ⟨x, ?_⟩
  have hsum : Double.ofFloat? ((Number.int i).toFloat + (Number.int j).toFloat) = some x := hx
  rw [add?]
  split
  next a b ha hb =>
    simp only [asInt64?, Option.ite_none_right_eq_some] at ha hb
    omega
  next => rw [hsum, Option.map_some]

/-- **Which sums are exact**: those of signed integers that are signed again or too low. -/
theorem add?_int_eq_ofInt?_iff (i j : JsonInt) :
    (Number.int i).add? (.int j) = Number.ofInt? (i.val + j.val) ↔
      i.val < 0x8000000000000000 ∧ j.val < 0x8000000000000000 ∧
      i.val + j.val < 0x8000000000000000 := by
  by_cases hsigned : i.val < 0x8000000000000000 ∧ j.val < 0x8000000000000000
  · obtain ⟨hi, hj⟩ := hsigned
    rw [add?_of_signed hi hj]
    split
    next hsum => simp [hi, hj, hsum]
    next hsum =>
      -- the sum of two signed integers is an unsigned one
      have hsome : Number.ofInt? (i.val + j.val) ≠ none := ofInt?_ne_none (by omega) (by omega)
      simp only [hsum, and_false, iff_false]
      exact hsome.symm
  · obtain ⟨x, hx⟩ := add?_of_unsigned (i := i) (j := j) (by omega)
    rw [hx]
    refine iff_of_false (fun hexact => ?_) (fun h => hsigned ⟨h.1, h.2.1⟩)
    obtain ⟨k, hk, -⟩ := ofInt?_eq_some_iff.mp hexact.symm
    cases hk

end Number

/-! ## Increments -/

namespace PatchOp

variable {path : String} {tokens : List String} {v : Json} {n : Number}

/-- An increment of a number stores its sum with the amount, or fails for want of one. -/
theorem run_inc (hpath : Pointer.parse? path = some tokens) (hat : v.at? tokens = some (.num n))
    (amount : Option Number) :
    (inc path amount).run v =
      match n.add? (amount.getD .one) with
      | some sum => .ok (Json.putAt tokens (.num sum) v)
      | none => .error ⟨[], .outOfRange path⟩ := by
  rw [run_eq_runLeaf (by simp), runLeaf, tokensOf_eq_ok_iff.mpr hpath]
  change Except.mapError _ (Json.alterAt _ _ tokens v) = _
  rw [Json.alterAt_of_at?_some hat, increment]
  cases n.add? (amount.getD .one) <;> rfl

end PatchOp

namespace PatchDocument

/-- **Which increments are exact**: let an increment be reached where its path addresses an integer,
by an amount that is one as well. It writes the exact sum in place of the integer, or, if no integer
of a document is that sum, the document fails at the increment with a conflict that changes nothing:
all this exactly if neither the two integers nor their sum are beyond the signed ones. -/
theorem increment_exact_iff {doc : PatchDocument} {v scope : Json} {address : List Nat}
    {path : String} {amount : Option Number} {tokens : List String} {i j : JsonInt}
    (hreaches : Reaches doc v address (.inc path amount) scope)
    (hpath : Pointer.parse? path = some tokens) (hat : scope.at? tokens = some (.num (.int i)))
    (hamount : amount.getD .one = .int j) :
    ((∀ sum, Number.ofInt? (i.val + j.val) = some sum →
          (PatchOp.inc path amount).run scope = .ok (Json.putAt tokens (.num sum) scope)) ∧
        (Number.ofInt? (i.val + j.val) = none →
          ∃ f, doc.applyTo v = (v, some f) ∧ f.address = address ∧ f.isAssertion = false)) ↔
      i.val < 0x8000000000000000 ∧ j.val < 0x8000000000000000 ∧
      i.val + j.val < 0x8000000000000000 := by
  have hrun := PatchOp.run_inc hpath hat amount
  rw [hamount] at hrun
  rw [conflict_iff_of_reaches hreaches rfl (by simp), ← Number.add?_int_eq_ofInt?_iff]
  constructor
  · rintro ⟨hstores, hfails⟩
    cases hexact : Number.ofInt? (i.val + j.val) with
    | none =>
      cases hsum : (Number.int i).add? (.int j) with
      | none => rfl
      | some sum =>
        rw [hsum] at hrun
        exact absurd ⟨_, hrun⟩ (hfails hexact)
    | some sum =>
      have hstored := hstores sum hexact
      cases hsum : (Number.int i).add? (.int j) with
      | none =>
        rw [hrun, hsum] at hstored
        cases hstored
      | some sum' =>
        -- the two numbers are found at one place
        rw [hrun, hsum] at hstored
        have hplace := Json.at?_putAt hat (.num sum')
        rw [Except.ok.inj hstored, Json.at?_putAt hat] at hplace
        cases hplace
        rfl
  · intro hexact
    rw [← hexact]
    refine ⟨fun sum hsum => by rw [hrun, hsum], ?_⟩
    rintro hsum ⟨w, hw⟩
    rw [hrun, hsum] at hw
    cases hw

/-- In a nested patch, the greatest signed integer is reached exactly. -/
theorem increment_exact_to_greatest_signed :
    let amount : Option Number := some (.int ⟨3, by decide, by decide⟩)
    let scope : Json := .obj [("m", .ofNat 0x7FFFFFFFFFFFFFFC)]
    (PatchOp.inc "/m" amount).run scope = .ok (.obj [("m", .ofNat 0x7FFFFFFFFFFFFFFF)]) := by
  intro amount scope
  have hreaches : Reaches [.inc "/n" none, .patch "/in" [.inc "/m" amount] true]
      (.obj [("in", scope), ("n", .ofNat 0)]) [1, 0]
      (.inc "/m" amount) scope := .nested rfl rfl rfl (.here rfl rfl)
  have hpath : Pointer.parse? "/m" = some ["m"] := rfl
  exact ((increment_exact_iff hreaches hpath rfl rfl).mpr (by decide)).1 _ rfl

/-- The least unsigned integer that is no signed one is incremented to the machine number next to
it, which is itself. -/
theorem increment_of_unsigned :
    let doc : PatchDocument := [.inc "/n" none]
    let i : JsonInt := ⟨0x8000000000000000, by decide, by decide⟩
    (∃ sum, Number.ofInt? (i.val + 1) = some sum) ∧
      doc.applyTo (.obj [("n", .num (.int i))]) =
        (.obj [("n", .num (.double ⟨0x43E0000000000000, by decide⟩))], none) :=
  ⟨⟨_, rfl⟩, rfl⟩

end PatchDocument

end ItemStore
