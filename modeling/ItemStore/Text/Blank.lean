/-!
# Character classes, trimming and digits

The characters that count as blank (the Unicode property `White_Space`), those that count as control
characters, trimming of blanks at both ends of a text, comparison of names without regard to the
case of ASCII letters, and digits that are read into 64 bits one by one.
-/

namespace ItemStore.Text

/-- The ranges of the Unicode property `White_Space`. -/
def blankRanges : List (Nat × Nat) :=
  [(0x09, 0x0D), (0x20, 0x20), (0x85, 0x85), (0xA0, 0xA0), (0x1680, 0x1680), (0x2000, 0x200A),
    (0x2028, 0x2029), (0x202F, 0x202F), (0x205F, 0x205F), (0x3000, 0x3000)]

/-- Whether a code point lies in one of the ranges. -/
def inRanges (ranges : List (Nat × Nat)) (n : Nat) : Bool :=
  ranges.any fun (low, high) => decide (low ≤ n) && decide (n ≤ high)

/-- Whether a character is blank. -/
def isBlank (c : Char) : Bool :=
  inRanges blankRanges c.toNat

/-- Whether a character is a control character, from either of the two blocks of controls. -/
def isControl (c : Char) : Bool :=
  decide (c.toNat < 0x20) || (decide (0x7F ≤ c.toNat) && decide (c.toNat ≤ 0x9F))

/-- Drops the characters of a class at both ends. -/
def trimWhere (p : Char → Bool) (s : String) : String :=
  String.ofList (((s.toList.dropWhile p).reverse.dropWhile p).reverse)

/-- Drops the characters of a class at the front. -/
def trimStartWhere (p : Char → Bool) (s : String) : String :=
  String.ofList (s.toList.dropWhile p)

/-- Drops the characters of a class at the end. -/
def trimEndWhere (p : Char → Bool) (s : String) : String :=
  String.ofList ((s.toList.reverse.dropWhile p).reverse)

/-- Drops blanks at both ends. -/
def trim (s : String) : String :=
  trimWhere isBlank s

/-- Whether a text holds nothing but blanks. -/
def isAllBlank (s : String) : Bool :=
  s.toList.all isBlank

/-- A name with its ASCII letters in lower case. -/
def foldCase (name : String) : List Char :=
  name.toList.map Char.toLower

/-- Equality of names without regard to the case of ASCII letters. -/
def sameName (a b : String) : Bool :=
  foldCase a == foldCase b

/-- Writes one more digit behind a number, unless the number then exceeds 64 bits. -/
def appendDigit? (n : Nat) (c : Char) : Option Nat :=
  let next := 10 * n + (c.toNat - '0'.toNat)
  if next < 0x10000000000000000 then some next else none

/-- Drops a literal text at the front, if it stands there. -/
def dropLiteral? (literal s : String) : Option String :=
  if literal.toList.isPrefixOf s.toList then
    some (String.ofList (s.toList.drop literal.length)) else none

/-- Whether some characters occur in a row. -/
def hasLiteral (literal : List Char) : List Char → Bool
  | [] => literal.isEmpty
  | c :: rest => literal.isPrefixOf (c :: rest) || hasLiteral literal rest

/-- The pieces of a list of characters between separators; there is always one more piece than
separators. -/
def pieces (separator : Char) : List Char → List (List Char)
  | [] => [[]]
  | c :: rest =>
    if c = separator then [] :: pieces separator rest
    else match pieces separator rest with
      | [] => [[c]]
      | first :: more => (c :: first) :: more

/-- The pieces of a text between separators. -/
def split (separator : Char) (s : String) : List String :=
  (pieces separator s.toList).map String.ofList

/-- Joins pieces with a separator between them. -/
def join (separator : String) (parts : List String) : String :=
  separator.intercalate parts

end ItemStore.Text
