import ItemStore.Text.Blank

/-!
# Dates in messages

A date is written as in mail, `Tue, 15 Nov 1994 08:12:31 GMT`: the weekday and the seconds are
optional, names may be in any case, and comments in parentheses may follow. `Instant.ofMail?` reads
such a text as a moment of universal time, and `Instant.text` writes the moment in digits,
`1994-11-15T08:12:31+00:00`.
-/

namespace ItemStore

/-! ## The calendar -/

/-- A day of the Gregorian calendar. -/
structure CivilDay where
  year : Int
  month : Nat
  day : Nat
deriving DecidableEq, Repr

namespace CivilDay

/-- Whether a year has a 29th of February. -/
def isLeapYear (year : Int) : Bool :=
  year % 4 = 0 && (year % 100 ≠ 0 || year % 400 = 0)

/-- The number of days of a month. -/
def monthLength (year : Int) (month : Nat) : Nat :=
  if month = 2 then (if isLeapYear year then 29 else 28)
  else if month = 4 ∨ month = 6 ∨ month = 9 ∨ month = 11 then 30
  else 31

/-- Whether the day exists. -/
def isValid (d : CivilDay) : Bool :=
  decide (1 ≤ d.month) && decide (d.month ≤ 12) && decide (1 ≤ d.day) &&
    decide (d.day ≤ monthLength d.year d.month)

/-- Days since the first of January 1970. Years are counted from March, so that a leap day ends its
year. -/
def toDays (d : CivilDay) : Int :=
  let y := if d.month ≤ 2 then d.year - 1 else d.year
  let era := y / 400
  let yearOfEra := y % 400
  let monthFromMarch : Int := (d.month + 9) % 12
  let dayOfYear := (153 * monthFromMarch + 2) / 5 + d.day - 1
  let dayOfEra := yearOfEra * 365 + yearOfEra / 4 - yearOfEra / 100 + dayOfYear
  era * 146097 + dayOfEra - 719468

/-- The day that lies so many days after the first of January 1970. -/
def ofDays (days : Int) : CivilDay :=
  let z := days + 719468
  let era := z / 146097
  let dayOfEra := z % 146097
  let yearOfEra := (dayOfEra - dayOfEra / 1460 + dayOfEra / 36524 - dayOfEra / 146096) / 365
  let dayOfYear := dayOfEra - (365 * yearOfEra + yearOfEra / 4 - yearOfEra / 100)
  let monthFromMarch := (5 * dayOfYear + 2) / 153
  let day := dayOfYear - (153 * monthFromMarch + 2) / 5 + 1
  let month := if monthFromMarch < 10 then monthFromMarch + 3 else monthFromMarch - 9
  let year := yearOfEra + era * 400 + (if month ≤ 2 then 1 else 0)
  ⟨year, month.toNat, day.toNat⟩

/-- The weekday, counted from Monday. -/
def weekday (d : CivilDay) : Nat :=
  ((d.toDays + 3) % 7).toNat

end CivilDay

/-! ## Moments -/

/-- A moment of universal time: seconds since the start of 1970, and whether it is the leap second
after that one. -/
structure Instant where
  seconds : Int
  leap : Bool
deriving DecidableEq, Repr

namespace Instant

/-- A number with at least `width` digits. -/
def padded (width n : Nat) : String :=
  let digits := toString n
  String.ofList (List.replicate (width - digits.length) '0') ++ digits

/-- A year: four digits, or a sign and at least four digits if that is not enough. -/
def yearText (year : Int) : String :=
  if 0 ≤ year ∧ year ≤ 9999 then padded 4 year.toNat
  else (if year < 0 then "-" else "+") ++ padded 4 year.natAbs

/-- The text of a moment. -/
def text (t : Instant) : String :=
  let day := CivilDay.ofDays (t.seconds / 86400)
  let time := (t.seconds % 86400).toNat
  let second := time % 60 + (if t.leap then 1 else 0)
  yearText day.year ++ "-" ++ padded 2 day.month ++ "-" ++ padded 2 day.day ++ "T" ++
    padded 2 (time / 3600) ++ ":" ++ padded 2 (time / 60 % 60) ++ ":" ++ padded 2 second ++ "+00:00"

/-! ## Reading -/

/-- Drops blanks. -/
def skipBlanks (cs : List Char) : List Char :=
  cs.dropWhile Text.isBlank

/-- Drops blanks, of which there must be one. -/
def skipBlanks1? : List Char → Option (List Char)
  | c :: rest => if Text.isBlank c then some (skipBlanks rest) else none
  | [] => none

/-- Reads a number of at least `least` and at most `most` digits: their count, their value and the
rest. -/
def number? (least most : Nat) (cs : List Char) : Option (Nat × Nat × List Char) :=
  let digits := (cs.take most).takeWhile Char.isDigit
  if digits.length < least then none
  else some (digits.length, digits.foldl (fun n c => 10 * n + (c.toNat - 48)) 0,
    cs.drop digits.length)

/-- Reads one of some names of three letters, in any case: its position and the rest. -/
def name? (names : List String) (cs : List Char) : Option (Nat × List Char) :=
  let word := (cs.take 3).map Char.toLower
  let position := names.idxOf (String.ofList word)
  if position < names.length then some (position, cs.drop 3) else none

/-- The weekdays. -/
def weekdays : List String := ["mon", "tue", "wed", "thu", "fri", "sat", "sun"]

/-- The months. -/
def months : List String :=
  ["jan", "feb", "mar", "apr", "may", "jun", "jul", "aug", "sep", "oct", "nov", "dec"]

/-- The hours by which a named zone differs from universal time. Single letters but `j` count as no
difference. -/
def namedZone? (name : List Char) : Option Int :=
  let word := String.ofList (name.map Char.toLower)
  if word = "gmt" ∨ word = "ut" ∨ word = "z" then some 0
  else if word = "edt" then some (-4)
  else if word = "est" ∨ word = "cdt" then some (-5)
  else if word = "cst" ∨ word = "mdt" then some (-6)
  else if word = "mst" ∨ word = "pdt" then some (-7)
  else if word = "pst" then some (-8)
  else if name.length = 1 ∧ word ≠ "j" then some 0
  else none

/-- Reads a zone: the seconds by which it is ahead of universal time, and the rest. -/
def zone? (cs : List Char) : Option (Int × List Char) :=
  let name := cs.takeWhile Char.isAlpha
  if !name.isEmpty then (namedZone? name).map fun hours => (hours * 3600, cs.drop name.length)
  else
    match cs with
    | sign :: a :: b :: c :: d :: rest =>
      if (sign = '+' ∨ sign = '-') ∧ [a, b, c, d].all Char.isDigit ∧ c < '6' then
        let value (x : Char) : Int := x.toNat - 48
        let seconds := (value a * 10 + value b) * 3600 + (value c * 10 + value d) * 60
        some (if sign = '-' then -seconds else seconds, rest)
      else none
    | _ => none

/-- Drops a comment whose opening parentheses are `depth` deep; a backslash takes the next character
as it is. -/
def skipComment? : (depth : Nat) → List Char → Option (List Char)
  | _, [] => none
  | depth, '\\' :: _ :: rest => skipComment? depth rest
  | depth, c :: rest =>
    if c = '(' then skipComment? (depth + 1) rest
    else if c = ')' then (if depth ≤ 1 then some rest else skipComment? (depth - 1) rest)
    else skipComment? depth rest

/-- Whether a text holds nothing but comments, each with blanks before it. The fuel bounds their
number. -/
def onlyComments : (fuel : Nat) → List Char → Bool
  | 0, _ => false
  | fuel + 1, cs =>
    cs.isEmpty || match skipBlanks cs with
      | '(' :: rest =>
        match skipComment? 1 rest with
        | some after => onlyComments fuel after
        | none => false
      | _ => false

/-- The year that some digits stand for. Two digits are near the year 2000, and three count from
1900. -/
def fullYear (digits value : Nat) : Nat :=
  if digits = 2 then (if value < 50 then value + 2000 else value + 1900)
  else if digits = 3 then value + 1900
  else value

/-- The last year that dates reach. -/
def lastYear : Nat := 262142

/-- Reads the weekday that may precede a date. -/
def weekdayPart? (cs : List Char) : Option (Option Nat × List Char) :=
  match name? weekdays cs with
  | some (day, rest) =>
    match rest with
    | ',' :: rest => some (some day, rest)
    | _ => none
  | none => some (none, cs)

/-- Reads the seconds that may follow a time. -/
def secondPart? (cs : List Char) : Option (Nat × List Char) :=
  match skipBlanks cs with
  | ':' :: rest => (number? 2 2 rest).map fun (_, second, rest) => (second, rest)
  | _ => some (0, cs)

/-- Reads a date as it is written in mail. -/
def ofMail? (s : String) : Option Instant := do
  let (weekday, cs) ← weekdayPart? (skipBlanks s.toList)
  let (_, day, cs) ← number? 1 2 (skipBlanks cs)
  let (month, cs) ← name? months (← skipBlanks1? cs)
  let cs ← skipBlanks1? cs
  let (digits, value, cs) ← number? 2 cs.length cs
  let (_, hour, cs) ← number? 2 2 (← skipBlanks1? cs)
  let cs ← match skipBlanks cs with
    | ':' :: rest => some (skipBlanks rest)
    | _ => none
  let (_, minute, cs) ← number? 2 2 cs
  let (second, cs) ← secondPart? cs
  let (offset, cs) ← zone? (← skipBlanks1? cs)
  let year := fullYear digits value
  let date : CivilDay := ⟨year, month + 1, day⟩
  let leap := second = 60
  let seconds : Int := hour * 3600 + minute * 60 + (if leap then 59 else second)
  -- the form is complete; what is left are values out of range
  if !onlyComments (cs.length + 1) cs || lastYear < year || !date.isValid ||
    weekday.any (· ≠ date.weekday) then none
  else if 23 < hour ∨ 59 < minute ∨ 60 < second ∨ 86400 ≤ offset.natAbs then none
  else some ⟨date.toDays * 86400 + seconds - offset, leap⟩

end Instant

end ItemStore
