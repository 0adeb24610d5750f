import ItemStore.Json.Basic
import ItemStore.Text.Blank

/-!
# Reading JSON text

A text is cut into tokens, and a pushdown reader assembles the tokens into a value. The reader keeps
the open arrays and objects on a stack, so a bound on nesting is a bound on the length of that
stack: `Json.parse?` accepts at most 127 nested arrays and objects, the bound that clients and
servers share.

- `Token.ofChars?` cuts the text; it takes exactly the blanks, literals, strings and numbers of the
  JSON grammar, and refuses a number whose binary64 value would be infinite.
- `Reader.step` takes one token.
- `Json.parseWithin?` and `Json.parse?` read a whole text.
-/

namespace ItemStore

/-! ## Numbers -/

/-- A number's text in parts: sign, digits before and after the point, and the exponent. -/
structure NumberParts where
  negative : Bool
  whole : List Char
  fraction : List Char
  exponent : Int
  /-- The text has neither point nor exponent. -/
  plain : Bool
deriving DecidableEq, Repr

namespace NumberParts

/-- The value of a list of decimal digits. -/
def natOfDigits (digits : List Char) : Nat :=
  digits.foldl (fun n c => 10 * n + (c.toNat - '0'.toNat)) 0

/-- Reads the exponent that may end a number. -/
def exponentOf? : List Char → Option (Int × Bool)
  | [] => some (0, true)
  | mark :: rest =>
    if mark = 'e' ∨ mark = 'E' then
      let (negative, digits) := match rest with
        | '-' :: ds => (true, ds)
        | '+' :: ds => (false, ds)
        | ds => (false, ds)
      if digits.isEmpty ∨ !digits.all Char.isDigit then none
      else
        let n : Int := natOfDigits digits
        some (if negative then -n else n, false)
    else none

/-- Reads the unsigned part of a number. A leading zero stands alone, and a point needs a digit on
each side. -/
def ofUnsigned? (negative : Bool) (cs : List Char) : Option NumberParts :=
  let whole := cs.takeWhile Char.isDigit
  let rest := cs.dropWhile Char.isDigit
  if whole.isEmpty ∨ (whole.head? = some '0' ∧ 1 < whole.length) then none
  else match rest with
    | '.' :: more =>
      let fraction := more.takeWhile Char.isDigit
      if fraction.isEmpty then none
      else (exponentOf? (more.dropWhile Char.isDigit)).map fun (e, _) =>
        ⟨negative, whole, fraction, e, false⟩
    | other => (exponentOf? other).map fun (e, plain) => ⟨negative, whole, [], e, plain⟩

/-- Reads a number's text. -/
def ofChars? : List Char → Option NumberParts
  | '-' :: rest => ofUnsigned? true rest
  | cs => ofUnsigned? false cs

/-- Takes digits behind a number as long as it stays within 64 bits, and leaves the others. -/
def takeDigits (n : Nat) : List Char → Nat × List Char
  | [] => (n, [])
  | c :: rest => (Text.appendDigit? n c).elim (n, c :: rest) fun next => takeDigits next rest

/-- The significant digits as an unsigned 64-bit integer, and the exponent of the power of ten that
belongs to it. Before the point the digits that are left are counted, behind it those that are
taken. -/
def significand (p : NumberParts) : Nat × Int :=
  let (whole, left) := takeDigits 0 p.whole
  let (n, left') := takeDigits whole p.fraction
  (n, p.exponent + left.length - (p.fraction.length - left'.length : Nat))

/-- The binary64 number nearest to a power of ten. -/
def tenTo (places : Nat) : Float :=
  Float.ofScientific 1 false places

/-- Divides by a power of ten, in steps of the greatest one that is finite. -/
def shrink (x : Float) (places : Nat) : Float :=
  if places ≤ 308 then x / tenTo places
  else if x == 0 then x
  else shrink (x / tenTo 308) (places - 308)
termination_by places

/-- Multiplies by a power of ten. Only zero can be multiplied by one that is not finite. -/
def scale? (x : Float) : Int → Option Float
  | .ofNat places =>
    if places ≤ 308 then some (x * tenTo places) else if x == 0 then some x else none
  | .negSucc places => some (shrink x (places + 1))

/-- The binary64 number of the text, none if that is infinite. The significand is rounded first, and
its product with the power of ten once more, so the outcome need not be the number nearest to the
text. -/
def double? (p : NumberParts) : Option Double :=
  let (n, exponent) := p.significand
  (scale? (Float.ofNat n) exponent).bind fun x => Double.ofFloat? (if p.negative then -x else x)

/-- The number that the text denotes. A text without point and exponent is an integer if that fits;
minus zero is a binary64 number. -/
def number? (p : NumberParts) : Option Number :=
  let n : Int := natOfDigits p.whole
  if p.plain then
    if p.negative then
      if n = 0 ∨ 0x8000000000000000 < n then p.double?.map .double else Number.ofInt? (-n)
    else (Number.ofInt? n).or (p.double?.map .double)
  else p.double?.map .double

end NumberParts

/-! ## Tokens -/

/-- A token of JSON text. -/
inductive Token where
  | arrayOpen
  | arrayClose
  | objectOpen
  | objectClose
  | comma
  | colon
  | scalar (v : Json)
  | text (s : String)
deriving DecidableEq, Repr

namespace Token

/-- The value of a hexadecimal digit. -/
def hexValue? (c : Char) : Option Nat :=
  if '0' ≤ c ∧ c ≤ '9' then some (c.toNat - 48)
  else if 'a' ≤ c ∧ c ≤ 'f' then some (c.toNat - 87)
  else if 'A' ≤ c ∧ c ≤ 'F' then some (c.toNat - 55)
  else none

/-- The value of four hexadecimal digits. -/
def unit? (a b c d : Char) : Option Nat :=
  match hexValue? a, hexValue? b, hexValue? c, hexValue? d with
  | some a, some b, some c, some d => some (((a * 16 + b) * 16 + c) * 16 + d)
  | _, _, _, _ => none

/-- The character of a one-letter escape. -/
def escape? (c : Char) : Option Char :=
  match c with
  | '"' => some '"'
  | '\\' => some '\\'
  | '/' => some '/'
  | 'b' => some '\x08'
  | 'f' => some '\x0c'
  | 'n' => some '\n'
  | 'r' => some '\r'
  | 't' => some '\t'
  | _ => none

/-- Reads the rest of a string after its opening quote: the characters and what follows the closing
quote. Control characters must be escaped, and surrogates must come in pairs. -/
def readText? : List Char → Option (List Char × List Char)
  | [] => none
  | '"' :: rest => some ([], rest)
  | '\\' :: 'u' :: a :: b :: c :: d :: rest =>
    match unit? a b c d with
    | none => none
    | some high =>
      -- a low surrogate cannot come first, and a high one needs its partner
      if 0xDC00 ≤ high ∧ high < 0xE000 then none
      else if 0xD800 ≤ high ∧ high < 0xDC00 then
        match rest with
        | '\\' :: 'u' :: e :: f :: g :: h :: rest' =>
          match unit? e f g h with
          | none => none
          | some low =>
            if 0xDC00 ≤ low ∧ low < 0xE000 then
              let c := Char.ofNat (0x10000 + (high - 0xD800) * 0x400 + (low - 0xDC00))
              (readText? rest').map fun (cs, after) => (c :: cs, after)
            else none
        | _ => none
      else (readText? rest).map fun (cs, after) => (Char.ofNat high :: cs, after)
  | '\\' :: e :: rest =>
    match escape? e with
    | none => none
    | some c => (readText? rest).map fun (cs, after) => (c :: cs, after)
  | c :: rest =>
    if c.toNat < 32 ∨ c = '\\' then none
    else (readText? rest).map fun (cs, after) => (c :: cs, after)

/-- A character is added in front of a text, which leaves alone what follows. -/
private theorem length_of_map_cons {read : Option (List Char × List Char)} {n : Nat}
    (ih : ∀ found, read = some found → found.2.length ≤ n) (c : Char)
    (found : List Char × List Char)
    (h : (read.map fun (cs, after) => (c :: cs, after)) = some found) : found.2.length ≤ n := by
  cases read with
  | none => cases h
  | some found' =>
    cases h
    exact ih found' rfl

private theorem length_of_readText?_aux (cs : List Char) :
    ∀ found, readText? cs = some found → found.2.length ≤ cs.length := by
  fun_induction readText? cs
  all_goals intro found h
  all_goals first
    -- a character was read, and then the rest
    | (have hrest := length_of_map_cons (by assumption) _ found h
       simp only [List.length_cons]
       omega)
    -- the text has ended, or there is none
    | (cases h
       done)
    | (cases h
       exact Nat.le_succ _)

/-- What is left after a string is no longer than the text it was read from. -/
theorem length_of_readText? {cs text after : List Char} (h : readText? cs = some (text, after)) :
    after.length ≤ cs.length :=
  length_of_readText?_aux cs _ h

/-- Characters that a number can hold. A longest run of them is read as one number. -/
def isNumberChar (c : Char) : Bool :=
  c.isDigit || c = '-' || c = '+' || c = '.' || c = 'e' || c = 'E'

/-- The punctuation tokens. -/
def punctuation? (c : Char) : Option Token :=
  match c with
  | '[' => some .arrayOpen
  | ']' => some .arrayClose
  | '\x7b' => some .objectOpen
  | '\x7d' => some .objectClose
  | ',' => some .comma
  | ':' => some .colon
  | _ => none

/-- Blanks between tokens. -/
def isBlank (c : Char) : Bool :=
  c = ' ' || c = '\n' || c = '\t' || c = '\r'

/-- Cuts a text into tokens. -/
def ofChars? : List Char → Option (List Token)
  | [] => some []
  | 't' :: 'r' :: 'u' :: 'e' :: rest => (ofChars? rest).map (.scalar (.bool true) :: ·)
  | 'f' :: 'a' :: 'l' :: 's' :: 'e' :: rest => (ofChars? rest).map (.scalar (.bool false) :: ·)
  | 'n' :: 'u' :: 'l' :: 'l' :: rest => (ofChars? rest).map (.scalar .null :: ·)
  | c :: rest =>
    if isBlank c then ofChars? rest
    else if c = '"' then
      match h : readText? rest with
      | none => none
      | some (chars, after) =>
        have := length_of_readText? h
        (ofChars? after).map (.text (String.ofList chars) :: ·)
    else if c.isDigit || c = '-' then
      have := (List.dropWhile_suffix (p := isNumberChar) (l := rest)).length_le
      ((NumberParts.ofChars? (c :: rest.takeWhile isNumberChar)).bind NumberParts.number?).bind
        fun n => (ofChars? (rest.dropWhile isNumberChar)).map (.scalar (.num n) :: ·)
    else
      (punctuation? c).bind fun t => (ofChars? rest).map (t :: ·)
termination_by cs => cs.length

end Token

/-! ## The pushdown reader -/

/-- An open array or object: what has been read of it, latest first. An object in the middle of a
member also holds that member's key. -/
inductive Frame where
  | array (items : List Json)
  | object (members : List (String × Json)) (key : Option String)
deriving DecidableEq

/-- What the reader expects next. -/
inductive Expect where
  /-- A value. -/
  | value
  /-- A value, or the end of the array just opened. -/
  | firstItem
  /-- A member's key. -/
  | key
  /-- A member's key, or the end of the object just opened. -/
  | firstKey
  /-- The colon after a key. -/
  | colon
  /-- A comma, or the end of the innermost array or object. -/
  | separator
deriving DecidableEq

/-- The state between two tokens: the open containers, innermost first, what may come next, and the
value once it is complete. -/
structure Reader where
  stack : List Frame
  expect : Expect
  result : Option Json
deriving DecidableEq

namespace Reader

/-- Before the first token. -/
def start : Reader := ⟨[], .value, none⟩

/-- Puts a complete value into the innermost container. -/
def put (v : Json) : List Frame → Option Reader
  | [] => some ⟨[], .separator, some v⟩
  | .array items :: stack => some ⟨.array (v :: items) :: stack, .separator, none⟩
  | .object members (some key) :: stack =>
    some ⟨.object ((key, v) :: members) none :: stack, .separator, none⟩
  | .object _ none :: _ => none

/-- Whether a value may start here. -/
def Expect.allowsValue : Expect → Bool
  | .value | .firstItem => true
  | _ => false

/-- Takes one token, with at most `limit` containers open at a time. -/
def step (limit : Nat) (r : Reader) (t : Token) : Option Reader :=
  if r.result.isSome then none
  else match t, r.stack with
    | .scalar v, stack => if Expect.allowsValue r.expect then put v stack else none
    -- a text is a key where one may stand, and a value elsewhere
    | .text s, stack =>
      match r.expect, stack with
      | .key, .object members none :: stack =>
        some ⟨.object members (some s) :: stack, .colon, none⟩
      | .firstKey, .object members none :: stack =>
        some ⟨.object members (some s) :: stack, .colon, none⟩
      | expect, stack => if Expect.allowsValue expect then put (.str s) stack else none
    | .arrayOpen, stack =>
      if Expect.allowsValue r.expect ∧ stack.length < limit then
        some ⟨.array [] :: stack, .firstItem, none⟩
      else none
    | .objectOpen, stack =>
      if Expect.allowsValue r.expect ∧ stack.length < limit then
        some ⟨.object [] none :: stack, .firstKey, none⟩
      else none
    | .arrayClose, .array items :: stack =>
      if r.expect = .separator ∨ r.expect = .firstItem then put (.arr items.reverse) stack else none
    | .objectClose, .object members none :: stack =>
      if r.expect = .separator ∨ r.expect = .firstKey then
        put (Json.ofPairs members.reverse) stack else none
    | .comma, .array items :: stack =>
      if r.expect = .separator then some ⟨.array items :: stack, .value, none⟩ else none
    | .comma, .object members none :: stack =>
      if r.expect = .separator then some ⟨.object members none :: stack, .key, none⟩ else none
    | .colon, .object members (some key) :: stack =>
      if r.expect = .colon then some ⟨.object members (some key) :: stack, .value, none⟩ else none
    | _, _ => none

/-- Takes a list of tokens. -/
def run (limit : Nat) : Reader → List Token → Option Reader
  | r, [] => some r
  | r, t :: ts => (r.step limit t).bind fun r' => run limit r' ts

end Reader

/-! ## Whole texts -/

namespace Json

/-- Reads a text with at most `limit` nested arrays and objects. Of two members with one key the
later counts. -/
def parseWithin? (limit : Nat) (text : String) : Option Json :=
  (Token.ofChars? text.toList).bind fun tokens =>
    (Reader.run limit Reader.start tokens).bind Reader.result

/-- How many nested arrays and objects a text may have. -/
def depthLimit : Nat := 127

/-- Reads a text. -/
def parse? (text : String) : Option Json :=
  parseWithin? depthLimit text

/-- Reads bytes, which must be valid UTF-8. -/
def ofBytes? (bytes : ByteArray) : Option Json :=
  (String.fromUTF8? bytes).bind parse?

/-- The members that an object's text lists, in order and with repeated keys; none if the text is no
object. -/
def membersOf? (text : String) : Option (List (String × Json)) :=
  (Token.ofChars? text.toList).bind fun tokens =>
    (Reader.run depthLimit Reader.start tokens.dropLast).bind fun r =>
      match r.stack, tokens.getLast? with
      | [.object members none], some .objectClose =>
        (r.step depthLimit .objectClose).bind Reader.result |>.map fun _ => members.reverse
      | _, _ => none

end Json

end ItemStore
