import ItemStore.Text.Blank

/-!
# Inspection text

The text in which configurations, pools and clients describe themselves for a log: quoted strings,
records `Name { field: value }`, maps `{"key": value}` and durations. Secrets never reach this text;
where one would stand the caller writes `redacted`.
-/

namespace ItemStore.Text

/-! ## Quoted strings -/

/-- Characters that are written by number: separators, controls, format characters, private use and
characters that no text can hold. -/
def unprintableRanges : List (Nat × Nat) :=
  [(0x00, 0x1F), (0x7F, 0xA0), (0xAD, 0xAD), (0x600, 0x605), (0x61C, 0x61C), (0x6DD, 0x6DD),
    (0x70F, 0x70F),
    (0x890, 0x891), (0x8E2, 0x8E2), (0x1680, 0x1680), (0x180E, 0x180E), (0x2000, 0x200F),
    (0x2028, 0x202F),
    (0x205F, 0x206F), (0x3000, 0x3000), (0xE000, 0xF8FF), (0xFDD0, 0xFDEF), (0xFEFF, 0xFEFF),
    (0xFFF0, 0xFFFB),
    (0xFFFE, 0xFFFF), (0x110BD, 0x110BD), (0x110CD, 0x110CD), (0x13430, 0x1343F),
    (0x1BCA0, 0x1BCA3),
    (0x1D173, 0x1D17A), (0x1FFFE, 0x1FFFF), (0x2FFFE, 0x2FFFF), (0x323B0, 0xE00FF),
    (0xE01F0, 0x10FFFF)]

/-- Characters that extend the character before them, such as accents that combine. -/
def combiningRanges : List (Nat × Nat) :=
  [(0x300, 0x36F), (0x483, 0x489), (0x591, 0x5BD), (0x5BF, 0x5BF), (0x5C1, 0x5C2), (0x5C4, 0x5C5),
    (0x5C7, 0x5C7),
    (0x610, 0x61A), (0x64B, 0x65F), (0x670, 0x670), (0x6D6, 0x6DC), (0x6DF, 0x6E4), (0x6E7, 0x6E8),
    (0x6EA, 0x6ED),
    (0x93C, 0x93C), (0x94D, 0x94D), (0xE31, 0xE31), (0xE34, 0xE3A), (0xE47, 0xE4E),
    (0x1AB0, 0x1ACE),
    (0x1DC0, 0x1DFF), (0x20D0, 0x20F0), (0x302A, 0x302F), (0x3099, 0x309A), (0xFE00, 0xFE0F),
    (0xFE20, 0xFE2F), (0xE0100, 0xE01EF)]

/-- The hexadecimal digits of a number, lower case and without leading zeros. -/
def hexDigits (n : Nat) : String :=
  String.ofList (Nat.toDigits 16 n)

/-- One character between quotes. -/
def quoteChar (c : Char) : String :=
  if c = '"' then "\\\""
  else if c = '\\' then "\\\\"
  else if c = '\n' then "\\n"
  else if c = '\r' then "\\r"
  else if c = '\t' then "\\t"
  else if c.toNat = 0 then "\\0"
  else if inRanges unprintableRanges c.toNat || inRanges combiningRanges c.toNat then
    "\\u\x7b" ++ hexDigits c.toNat ++ "\x7d"
  else String.singleton c

/-- A string between quotes, with a backslash before quotes and backslashes. -/
def quoted (s : String) : String :=
  "\"" ++ String.join (s.toList.map quoteChar) ++ "\""

/-! ## Records, maps and durations -/

/-- A record; `complete` is false if it has fields that are not shown. -/
def record (name : String) (fields : List (String × String)) (complete : Bool) : String :=
  let shown := fields.map fun (field, value) => field ++ ": " ++ value
  let parts := if complete then shown else shown ++ [".."]
  name ++ " \x7b " ++ join ", " parts ++ " \x7d"

/-- A map from quoted names to texts. -/
def mapText (entries : List (String × String)) : String :=
  "\x7b" ++ join ", " (entries.map fun (key, value) => quoted key ++ ": " ++ value) ++ "\x7d"

/-- What stands in place of a secret. -/
def redacted : String := "[REDACTED]"

/-- A truth value. -/
def flag (b : Bool) : String :=
  if b then "true" else "false"

/-- A duration in milliseconds: in seconds with up to three decimals from one second on. -/
def duration (ms : Nat) : String :=
  if ms = 0 then "0ns"
  else if ms < 1000 then toString ms ++ "ms"
  else
    let fraction := ms % 1000
    let digits := [fraction / 100, fraction / 10 % 10, fraction % 10]
    -- trailing zeros of the fraction are not written
    let shown := (digits.reverse.dropWhile (· == 0)).reverse
    let tail := if shown.isEmpty then "" else "." ++ String.join (shown.map toString)
    toString (ms / 1000) ++ tail ++ "s"

end ItemStore.Text
