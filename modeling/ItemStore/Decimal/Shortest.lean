/-!
# Shortest decimals of binary numbers

A finite binary64 number `m · 2 ^ q` stands for the interval of reals that round to it. This module
selects the decimal with the fewest digits inside that interval, the nearest one among those, all in
exact arithmetic on naturals:

- `Binary.ofBits` decodes the bits into a mantissa and an exponent;
- `Binary.readsBack` says that a decimal lies in the interval;
- `Binary.scale` places the first digit;
- `Binary.shortest` searches the decimal grids from the coarsest to the finest.
-/

namespace ItemStore

/-! ## Binary and decimal numbers -/

/-- A finite non-negative binary64 number, `mantissa · 2 ^ exponent`. -/
structure Binary where
  mantissa : Nat
  exponent : Int
  /-- The gap to the number below is half the gap to the number above. -/
  narrowBelow : Bool
deriving DecidableEq, Repr

/-- The magnitude that the bits of a finite number encode. -/
def Binary.ofBits (bits : UInt64) : Binary :=
  let exponent := ((bits >>> 52) &&& 0x7FF).toNat
  let fraction := (bits &&& 0xFFFFFFFFFFFFF).toNat
  if exponent = 0 then ⟨fraction, -1074, false⟩
  else ⟨0x10000000000000 + fraction, (exponent : Int) - 1075, fraction = 0 && 1 < exponent⟩

/-- The decimal `digits · 10 ^ exponent`. -/
structure Decimal where
  digits : Nat
  exponent : Int
deriving DecidableEq, Repr

/-- Compares `a · 10 ^ i` with `n · 2 ^ j`. -/
def compareScaled (a : Nat) (i : Int) (n : Nat) (j : Int) : Ordering :=
  compare (a * Nat.pow 10 i.toNat * Nat.pow 2 (-j).toNat)
    (n * Nat.pow 2 j.toNat * Nat.pow 10 (-i).toNat)

/-- Whether `d` lies among the reals that round to `x`: from halfway to the number below to halfway
to the number above, ends included exactly when the mantissa is even. -/
def Binary.readsBack (x : Binary) (d : Decimal) : Bool :=
  -- quarters of a unit in the last place, so that both ends are whole numbers
  let low := if x.narrowBelow then 4 * x.mantissa - 1 else 4 * x.mantissa - 2
  let high := 4 * x.mantissa + 2
  let closed := x.mantissa % 2 == 0
  let fromLow := compareScaled d.digits d.exponent low (x.exponent - 2)
  let fromHigh := compareScaled d.digits d.exponent high (x.exponent - 2)
  (fromLow == .gt || (closed && fromLow == .eq)) && (fromHigh == .lt || (closed && fromHigh == .eq))

/-! ## The place of the first digit -/

/-- The number of decimal digits of `n`, none for zero. -/
def digitCount (n : Nat) : Nat :=
  if n = 0 then 0 else digitCount (n / 10) + 1
termination_by n

/-- The least `k` with `x < 10 ^ k`, for a number that is not zero. -/
def Binary.scale (x : Binary) : Int :=
  let top := x.mantissa * Nat.pow 2 x.exponent.toNat
  let bottom := Nat.pow 2 (-x.exponent).toNat
  -- from one on the digits before the point are counted, below one the zeros behind it
  if bottom ≤ top then digitCount (top / bottom)
  else 1 - (digitCount ((bottom - 1) / top) : Int)

/-! ## The search -/

/-- The two neighbours of `x` on the grid `10 ^ place`. -/
def Binary.neighbours (x : Binary) (place : Int) : Decimal × Decimal :=
  let top := x.mantissa * Nat.pow 2 x.exponent.toNat * Nat.pow 10 (-place).toNat
  let bottom := Nat.pow 2 (-x.exponent).toNat * Nat.pow 10 place.toNat
  let below := top / bottom
  (⟨below, place⟩, ⟨below + 1, place⟩)

/-- Of two grid neighbours that both read back, the nearer one; at equal distance the even one. -/
def Binary.nearer (x : Binary) (below above : Decimal) : Decimal :=
  match compareScaled (below.digits + above.digits) below.exponent (2 * x.mantissa) x.exponent with
  | .gt => below
  | .lt => above
  | .eq => if below.digits % 2 = 0 then below else above

/-- The best decimal for `x` on the grid `10 ^ place`, if one reads back. -/
def Binary.onGrid? (x : Binary) (place : Int) : Option Decimal :=
  let (below, above) := x.neighbours place
  match x.readsBack below, x.readsBack above with
  | true, true => some (x.nearer below above)
  | true, false => some below
  | false, true => some above
  | false, false => none

/-- Moves trailing zeros of the digits into the exponent, at most `fuel` of them. -/
def Decimal.stripZeros : Nat → Decimal → Decimal
  | 0, d => d
  | fuel + 1, d =>
    if d.digits ≠ 0 ∧ d.digits % 10 = 0 then stripZeros fuel ⟨d.digits / 10, d.exponent + 1⟩ else d

/-- The exact value of `x` as a decimal. -/
def Binary.exact (x : Binary) : Decimal :=
  if 0 ≤ x.exponent then ⟨x.mantissa * Nat.pow 2 x.exponent.toNat, 0⟩
  else ⟨x.mantissa * Nat.pow 5 (-x.exponent).toNat, x.exponent⟩

/-- The decimal with the fewest digits that reads back as `x`, the nearest one among those.
Seventeen digits are enough for every binary64 number. -/
def Binary.shortest (x : Binary) : Decimal :=
  if x.mantissa = 0 then ⟨0, 0⟩
  else
    let scale := x.scale
    -- the grid of the first digit first, then ever finer ones
    let found := (List.range 17).findSome? fun (n : Nat) => x.onGrid? (scale - ((n : Int) + 1))
    let best := found.getD x.exact
    best.stripZeros (digitCount best.digits)

end ItemStore
