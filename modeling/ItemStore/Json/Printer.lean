import ItemStore.Decimal.Shortest
import ItemStore.Json.Basic

/-!
# Compact JSON text

`Json.compact` writes a value without any blanks, members in their stored order. Strings escape the
quote, the backslash and the control characters below the blank, and nothing else. A binary64 number
is written with the fewest digits that read back: positionally while its first digit stands at most
sixteen places before or four zeros after the point, and with a signed exponent otherwise.
-/

namespace ItemStore

/-! ## Numbers -/

namespace Decimal

/-- The decimal digits of a natural number. -/
def digitsText (n : Nat) : String :=
  toString n

/-- Zeros, `n` of them. -/
def zeros (n : Nat) : String :=
  String.ofList (List.replicate n '0')

/-- The text of a positive decimal whose value is `0.d₁d₂… · 10 ^ k`, with the digits `d₁d₂…`
written out. It is positional for `-5 < k ≤ 16` and scientific otherwise; a whole number keeps
`.0`. -/
def layout (digits : String) (k : Int) : String :=
  let n := digits.length
  if 0 < k ∧ k ≤ 16 then
    if n ≤ k.toNat then digits ++ zeros (k.toNat - n) ++ ".0"
    else String.ofList (digits.toList.take k.toNat) ++ "." ++
      String.ofList (digits.toList.drop k.toNat)
  else if -5 < k ∧ k ≤ 0 then
    "0." ++ zeros (-k).toNat ++ digits
  else
    let exponent := k - 1
    let mantissa :=
      if n ≤ 1 then digits
      else String.ofList (digits.toList.take 1) ++ "." ++ String.ofList (digits.toList.drop 1)
    mantissa ++ "e" ++ (if exponent < 0 then "-" else "+") ++ digitsText exponent.natAbs

/-- The text of a decimal. -/
def text (d : Decimal) : String :=
  if d.digits = 0 then "0.0"
  else
    let digits := digitsText d.digits
    layout digits (d.exponent + digits.length)

end Decimal

/-- The text of a binary64 number. -/
def Double.text (x : Double) : String :=
  let magnitude := (Binary.ofBits x.magnitude).shortest.text
  if x.isNegative then "-" ++ magnitude else magnitude

/-- The text of a number. -/
def Number.text : Number → String
  | .int i => toString i.val
  | .double x => x.text

/-! ## Strings -/

namespace Json

/-- A hexadecimal digit in lower case. -/
def hexDigit (n : Nat) : Char :=
  if n < 10 then Char.ofNat (48 + n) else Char.ofNat (87 + n)

/-- One character as it stands between quotes. -/
def escapeChar (c : Char) : List Char :=
  if c = '"' then ['\\', '"']
  else if c = '\\' then ['\\', '\\']
  else if c = '\x08' then ['\\', 'b']
  else if c = '\x0c' then ['\\', 'f']
  else if c = '\n' then ['\\', 'n']
  else if c = '\r' then ['\\', 'r']
  else if c = '\t' then ['\\', 't']
  else if c.toNat < 32 then ['\\', 'u', '0', '0', hexDigit (c.toNat / 16), hexDigit (c.toNat % 16)]
  else [c]

/-- A string between quotes. -/
def quote (s : String) : String :=
  "\"" ++ String.ofList (s.toList.flatMap escapeChar) ++ "\""

/-! ## Values -/

mutual

/-- The compact text of a value. -/
def compact : Json → String
  | .null => "null"
  | .bool true => "true"
  | .bool false => "false"
  | .num n => n.text
  | .str s => quote s
  | .arr items => "[" ++ ",".intercalate (compactItems items) ++ "]"
  | .obj members => "\x7b" ++ ",".intercalate (compactMembers members) ++ "\x7d"

/-- The compact texts of the elements. -/
def compactItems : List Json → List String
  | [] => []
  | v :: rest => v.compact :: compactItems rest

/-- The compact texts of the members, `"key":value`. -/
def compactMembers : List (String × Json) → List String
  | [] => []
  | (k, v) :: rest => (quote k ++ ":" ++ v.compact) :: compactMembers rest

end

end Json

end ItemStore
