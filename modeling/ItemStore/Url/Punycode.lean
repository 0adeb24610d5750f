/-!
# Labels in ASCII form

A label of a domain name that is not ASCII is written `xn--` and a text that codes it: the ASCII
characters of the label, a hyphen, and a list of numbers in base 36, each of which says what
character comes in next and where. `Punycode.inserted?` reads such a text and tells the characters
that come in, in the order in which they do.

Digits come with the lowest first. A number ends at the first digit below the threshold of its
place, and thresholds adapt to the size of the numbers read before.
-/

namespace ItemStore.Punycode

/-- The value of a digit: letters are 0 to 25, figures 26 to 35. -/
def digit? (c : Char) : Option Nat :=
  if c.isLower then some (c.toNat - 'a'.toNat)
  else if c.isUpper then some (c.toNat - 'A'.toNat)
  else if c.isDigit then some (c.toNat - '0'.toNat + 26)
  else none

/-- The threshold of the place whose number is `place`, counted in steps of 36 from 36. -/
def threshold (place bias : Nat) : Nat :=
  if place ≤ bias then 1 else min 26 (place - bias)

/-- Divides by 35 until the outcome is small: how often, in steps of 36, and the outcome. -/
def scaleDown (delta steps : Nat) : Nat × Nat :=
  if 455 < delta then scaleDown (delta / 35) (steps + 36) else (steps, delta)
termination_by delta
decreasing_by exact Nat.div_lt_self (by omega) (by omega)

/-- The bias after a number, when `count` characters are there. -/
def adapt (delta count : Nat) (first : Bool) : Nat :=
  let delta := if first then delta / 700 else delta / 2
  let (steps, delta) := scaleDown (delta + delta / count) 0
  steps + 36 * delta / (delta + 38)

/-- How far the reading of the numbers is. -/
structure State where
  /-- How many characters are there. -/
  count : Nat
  /-- The place behind the character that came in last. -/
  position : Nat := 0
  /-- The last character that came in. -/
  code : Nat := 0x80
  bias : Nat := 72
  first : Bool := true

namespace State

/-- Brings in the character that a number asks for. Characters that do not exist cannot come in. -/
def insert? (s : State) (number : Nat) : Option (Nat × State) :=
  let count := s.count + 1
  let target := s.position + number
  let code := s.code + target / count
  if code.isValidChar then
    some (code, ⟨count, target % count + 1, code, adapt number count s.first, false⟩)
  else none

end State

/-- Reads numbers; `number` is what is known of the current one, `weight` and `place` belong to its
next digit. -/
def numbers? (s : State) (number weight place : Nat) : List Char → Option (List Nat)
  | [] => if place = 36 then some [] else none
  | c :: rest => do
    let d ← digit? c
    let t := threshold place s.bias
    if d < t then
      let (code, s) ← s.insert? (number + d * weight)
      return code :: (← numbers? s 0 1 36 rest)
    else numbers? s (number + d * weight) (weight * (36 - t)) (place + 36) rest

/-- The characters that a text brings into the ASCII characters before its last hyphen. -/
def inserted? (text : List Char) : Option (List Nat) :=
  let coded := (text.reverse.takeWhile (· ≠ '-')).reverse
  match text.length - coded.length with
  | 0 => numbers? { count := 0 } 0 1 36 coded
  | 1 => none
  | n + 2 => numbers? { count := n + 1 } 0 1 36 coded

end ItemStore.Punycode
