import ItemStore.Text.Blank

/-!
# Pointers

A pointer is a text that addresses a place inside a document. It is a list of tokens, each written
after a slash; inside a token `~1` stands for a slash and `~0` for a tilde. The empty text addresses
the whole document, and so does a lone slash.

- `Pointer.parse?` reads a pointer and `Pointer.print` writes one.
- `Pointer.arrayIndex?` reads a token as a position in an array.
-/

namespace ItemStore.Pointer

/-! ## Escapes -/

/-- Undoes the escapes of a token. A tilde before any other character stands for itself. -/
def unescape : List Char → List Char
  | '~' :: '1' :: rest => '/' :: unescape rest
  | '~' :: '0' :: rest => '~' :: unescape rest
  | c :: rest => c :: unescape rest
  | [] => []

/-- Escapes tildes and slashes. -/
def escape : List Char → List Char
  | [] => []
  | c :: rest =>
    if c = '~' then '~' :: '0' :: escape rest
    else if c = '/' then '~' :: '1' :: escape rest
    else c :: escape rest

/-! ## Whole pointers -/

/-- The tokens of a pointer. A text that is not empty must start with a slash. -/
def parse? (path : String) : Option (List String) :=
  match path.toList with
  | [] => some []
  | ['/'] => some []
  | '/' :: rest => some ((Text.pieces '/' rest).map fun token => String.ofList (unescape token))
  | _ => none

/-- Writes a list of tokens. -/
def print (tokens : List String) : String :=
  String.ofList (tokens.flatMap fun token => '/' :: escape token.toList)

/-- A list of tokens as it is named in messages, without escapes. -/
def plain (tokens : List String) : String :=
  "/" ++ Text.join "/" tokens

/-! ## Positions -/

/-- The value of a list of decimal digits. -/
def natOfDigits (digits : List Char) : Nat :=
  digits.foldl (fun n c => 10 * n + (c.toNat - '0'.toNat)) 0

/-- The value of a list of decimal digits as an unsigned 64-bit integer, checked digit by digit. -/
def wordOfDigits? (digits : List Char) : Option Nat :=
  digits.foldlM Text.appendDigit? 0

/-- The position that a token denotes in an array of `size` elements: decimal digits without sign or
leading zeros, below the size. Positions are unsigned 64-bit integers. -/
def arrayIndex? (token : String) (size : Nat) : Option Nat :=
  let digits := token.toList
  if digits.isEmpty || !digits.all Char.isDigit then none
  else if 1 < digits.length && digits.head? == some '0' then none
  else (wordOfDigits? digits).filter fun index => index < size

end ItemStore.Pointer
