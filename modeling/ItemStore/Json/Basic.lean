import ItemStore.Assoc

/-!
# JSON values

The document type of the store. Integers and binary64 numbers are different kinds of number, as they
are in the texts that clients and servers exchange: `1` and `1.0` are different values. Objects list
their members by strictly increasing key; `Json.Canonical` is the predicate that says so at every
level, and every operation of the library keeps it.

The main definitions are

- `Json`, with `Number` for its numbers and `Members` for the contents of an object, a finite map;
- `Json.same`, the equality that assertions in patches use: `0.0` and `-0.0` are the same number
  there.
-/

namespace ItemStore

/-! ## Numbers -/

/-- An integer that a JSON text can hold exactly: any unsigned or negative 64-bit integer. -/
structure JsonInt where
  val : Int
  lower : -0x8000000000000000 ≤ val
  upper : val < 0x10000000000000000
deriving DecidableEq, Repr

/-- The natural number `n`, unless it is out of range. -/
def JsonInt.ofNat? (n : Nat) : Option JsonInt :=
  if h : n < 0x10000000000000000 then some ⟨n, by omega, by omega⟩ else none

/-- The integer `i`, unless it is out of range. -/
def JsonInt.ofInt? : Int → Option JsonInt
  | .ofNat n => JsonInt.ofNat? n
  | .negSucc n => if h : n < 0x8000000000000000 then some ⟨.negSucc n, by omega, by omega⟩ else none

/-- A finite binary64 number, given by its bits. -/
structure Double where
  bits : UInt64
  finite : (bits >>> 52) &&& 0x7FF ≠ 0x7FF
deriving DecidableEq, Repr

namespace Double

/-- The finite number with these bits; infinities and invalid numbers have none. -/
def ofBits? (bits : UInt64) : Option Double :=
  if h : (bits >>> 52) &&& 0x7FF ≠ 0x7FF then some ⟨bits, h⟩ else none

/-- A machine number as a JSON number, unless it is infinite or invalid. -/
def ofFloat? (x : Float) : Option Double :=
  ofBits? x.toBits

/-- The machine number with the same bits. -/
def toFloat (x : Double) : Float :=
  Float.ofBits x.bits

/-- The bits without the sign. -/
def magnitude (x : Double) : UInt64 :=
  x.bits &&& 0x7FFFFFFFFFFFFFFF

/-- Whether the sign bit is set. -/
def isNegative (x : Double) : Bool :=
  x.bits >>> 63 == 1

/-- Numeric equality: equal bits, or two zeros. -/
def same (x y : Double) : Bool :=
  x.bits == y.bits || (x.magnitude == 0 && y.magnitude == 0)

end Double

/-- A JSON number. -/
inductive Number where
  | int (i : JsonInt)
  | double (x : Double)
deriving DecidableEq, Repr

namespace Number

/-- The integer one. -/
def one : Number := .int ⟨1, by decide, by decide⟩

/-- An integer as a number, unless it is out of range. -/
def ofInt? (i : Int) : Option Number :=
  (JsonInt.ofInt? i).map .int

/-- The nearest machine number. -/
def toFloat : Number → Float
  | .int i => Float.ofInt i.val
  | .double x => x.toFloat

/-- Numeric equality within a kind; an integer and a binary64 number are never the same. -/
def same : Number → Number → Bool
  | .int i, .int j => i == j
  | .double x, .double y => x.same y
  | _, _ => false

end Number

/-! ## Values -/

/-- A JSON value. -/
inductive Json where
  | null
  | bool (b : Bool)
  | num (n : Number)
  | str (s : String)
  | arr (items : List Json)
  | obj (members : List (String × Json))
deriving Inhabited, Repr

/-- The contents of an object. -/
abbrev Members := Assoc Json

namespace Json

/-! ## Constructors and views -/

/-- An object from pairs in any order. -/
def ofPairs (pairs : List (String × Json)) : Json :=
  .obj (Assoc.ofPairs pairs)

/-- A natural number as a value; numbers beyond the 64-bit range do not occur in documents and
become null. -/
def ofNat (n : Nat) : Json :=
  match JsonInt.ofNat? n with
  | some i => .num (.int i)
  | none => .null

/-- The text of a string value. -/
def asString? : Json → Option String
  | .str s => some s
  | _ => none

/-- The truth value of a boolean. -/
def asBool? : Json → Option Bool
  | .bool b => some b
  | _ => none

/-- The number of a number value. -/
def asNumber? : Json → Option Number
  | .num n => some n
  | _ => none

/-- The natural number of an unsigned integer value. -/
def asNat? : Json → Option Nat
  | .num (.int i) => if 0 ≤ i.val then some i.val.toNat else none
  | _ => none

/-- The signed 64-bit integer of an integer value. -/
def asInt64? : Json → Option Int
  | .num (.int i) => if i.val < 0x8000000000000000 then some i.val else none
  | _ => none

/-- The elements of an array. -/
def asArray? : Json → Option (List Json)
  | .arr items => some items
  | _ => none

/-- The members of an object. -/
def asObject? : Json → Option Members
  | .obj ms => some ms
  | _ => none

/-- The value under `key`, if this is an object that has one. -/
def get? (key : String) : Json → Option Json
  | .obj ms => Assoc.get? key ms
  | _ => none

/-- Whether this is null. -/
def isNull : Json → Bool
  | .null => true
  | _ => false

/-! ## Equality -/

mutual

/-- The equality of documents. It is structural, except that the two binary64 zeros are the same. -/
def same : Json → Json → Bool
  | .null, .null => true
  | .bool a, .bool b => a == b
  | .num m, .num n => m.same n
  | .str s, .str t => s == t
  | .arr xs, .arr ys => sameItems xs ys
  | .obj ms, .obj ns => sameMembers ms ns
  | _, _ => false

/-- Equality of arrays, element by element. -/
def sameItems : List Json → List Json → Bool
  | [], [] => true
  | x :: xs, y :: ys => x.same y && sameItems xs ys
  | _, _ => false

/-- Equality of objects, member by member. -/
def sameMembers : List (String × Json) → List (String × Json) → Bool
  | [], [] => true
  | (k, x) :: xs, (l, y) :: ys => k == l && x.same y && sameMembers xs ys
  | _, _ => false

end

mutual

/-- Structural equality as a decision procedure. -/
def decEq : (a b : Json) → Decidable (a = b)
  | .null, .null => isTrue rfl
  | .bool a, .bool b => if h : a = b then isTrue (by rw [h]) else isFalse (by simpa using h)
  | .num m, .num n => if h : m = n then isTrue (by rw [h]) else isFalse (by simpa using h)
  | .str s, .str t => if h : s = t then isTrue (by rw [h]) else isFalse (by simpa using h)
  | .arr xs, .arr ys =>
    match decEqItems xs ys with
    | isTrue h => isTrue (by rw [h])
    | isFalse h => isFalse (by simpa using h)
  | .obj ms, .obj ns =>
    match decEqMembers ms ns with
    | isTrue h => isTrue (by rw [h])
    | isFalse h => isFalse (by simpa using h)
  | .null, .bool _ | .null, .num _ | .null, .str _ | .null, .arr _ | .null, .obj _
  | .bool _, .null | .bool _, .num _ | .bool _, .str _ | .bool _, .arr _ | .bool _, .obj _
  | .num _, .null | .num _, .bool _ | .num _, .str _ | .num _, .arr _ | .num _, .obj _
  | .str _, .null | .str _, .bool _ | .str _, .num _ | .str _, .arr _ | .str _, .obj _
  | .arr _, .null | .arr _, .bool _ | .arr _, .num _ | .arr _, .str _ | .arr _, .obj _
  | .obj _, .null | .obj _, .bool _ | .obj _, .num _ | .obj _, .str _ | .obj _, .arr _ =>
    isFalse nofun

/-- Structural equality of arrays. -/
def decEqItems : (xs ys : List Json) → Decidable (xs = ys)
  | [], [] => isTrue rfl
  | [], _ :: _ => isFalse nofun
  | _ :: _, [] => isFalse nofun
  | x :: xs, y :: ys =>
    match decEq x y, decEqItems xs ys with
    | isTrue h, isTrue hs => isTrue (by rw [h, hs])
    | isFalse h, _ => isFalse (by simp [h])
    | _, isFalse hs => isFalse (by simp [hs])

/-- Structural equality of objects. -/
def decEqMembers : (ms ns : List (String × Json)) → Decidable (ms = ns)
  | [], [] => isTrue rfl
  | [], _ :: _ => isFalse nofun
  | _ :: _, [] => isFalse nofun
  | (k, x) :: ms, (l, y) :: ns =>
    if hk : k = l then
      match decEq x y, decEqMembers ms ns with
      | isTrue h, isTrue hs => isTrue (by rw [hk, h, hs])
      | isFalse h, _ => isFalse (by simp [h])
      | _, isFalse hs => isFalse (by simp [hs])
    else isFalse (by simp [hk])

end

instance : DecidableEq Json := decEq

/-! ## Canonical values -/

mutual

/-- Every object in the value lists its keys in strictly increasing order. -/
def Canonical : Json → Prop
  | .arr items => CanonicalItems items
  | .obj members => Assoc.Sorted members ∧ CanonicalMembers members
  | _ => True

/-- Every element is canonical. -/
def CanonicalItems : List Json → Prop
  | [] => True
  | v :: rest => v.Canonical ∧ CanonicalItems rest

/-- Every member's value is canonical. -/
def CanonicalMembers : List (String × Json) → Prop
  | [] => True
  | (_, v) :: rest => v.Canonical ∧ CanonicalMembers rest

end

/-! ## Nesting -/

mutual

/-- How many arrays and objects enclose the innermost value. -/
def depth : Json → Nat
  | .arr items => depthItems items + 1
  | .obj members => depthMembers members + 1
  | _ => 0

/-- The depth of the deepest element. -/
def depthItems : List Json → Nat
  | [] => 0
  | v :: rest => max v.depth (depthItems rest)

/-- The depth of the deepest member. -/
def depthMembers : List (String × Json) → Nat
  | [] => 0
  | (_, v) :: rest => max v.depth (depthMembers rest)

end

end Json

end ItemStore
