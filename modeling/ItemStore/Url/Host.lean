import ItemStore.Text.Blank
import ItemStore.Text.Inspect
import ItemStore.Text.Percent
import ItemStore.Url.Punycode

/-!
# Hosts of URLs

A host is a domain name, an IPv4 or IPv6 address, or, where the scheme gives hosts no meaning, any
text. The schemes of the web read the last label of a name that is a number as an IPv4 address, with
the short and the octal and hexadecimal spellings. Domain names are compared and written in lower
case.

- `Host.ofDomain` and `Host.ofRaw` read a host, `Host.text` writes it.

Domain names are in ASCII here. A name with other characters has an ASCII form, which is made with
the Unicode tables of internationalised names. These tables are not part of this library: such a
name is refused instead of mapped, and of a label that is marked as an ASCII form only the code is
looked at, not whether the tables allow what it stands for.
-/

namespace ItemStore

/-- Why a text is no URL. -/
inductive UrlError where
  | emptyHost
  | invalidDomain
  | invalidPort
  | invalidIpv4
  | invalidIpv6
  | invalidHostCharacter
  | relativeWithoutBase
  | relativeWithFlatBase
deriving DecidableEq, Repr

/-- The wording of the error. -/
def UrlError.message : UrlError → String
  | .emptyHost => "empty host"
  | .invalidDomain => "invalid international domain name"
  | .invalidPort => "invalid port number"
  | .invalidIpv4 => "invalid IPv4 address"
  | .invalidIpv6 => "invalid IPv6 address"
  | .invalidHostCharacter => "invalid domain character"
  | .relativeWithoutBase => "relative URL without a base"
  | .relativeWithFlatBase => "relative URL with a cannot-be-a-base base"

/-- The host of a URL. -/
inductive Host where
  /-- A domain name in lower case. -/
  | domain (name : String)
  /-- A 32-bit address. -/
  | ipv4 (address : Nat)
  /-- Eight 16-bit pieces. -/
  | ipv6 (pieces : List Nat)
  /-- A text without further meaning, percent-encoded. -/
  | rawName (text : String)
deriving DecidableEq, Repr

namespace Host

/-! ## IPv4 -/

/-- The value of a list of digits in a base. -/
def natInBase (base : Nat) (digits : List Char) : Nat :=
  digits.foldl (fun n c => base * n + (Percent.hexValue? c).getD 0) 0

/-- Whether a character is a digit of a base up to sixteen. -/
def isDigitIn (base : Nat) (c : Char) : Bool :=
  match Percent.hexValue? c with
  | some d => d < base
  | none => false

/-- Reads one number of an IPv4 address: hexadecimal after `0x`, octal after a leading zero, else
decimal. -/
def ipv4Number? (part : List Char) : Option Nat :=
  let read (base : Nat) (digits : List Char) : Option Nat :=
    if digits.all (isDigitIn base) then some (natInBase base digits) else none
  match part with
  | [] => none
  | '0' :: 'x' :: rest => read 16 rest
  | '0' :: 'X' :: rest => read 16 rest
  | '0' :: d :: rest => read 8 (d :: rest)
  | digits => read 10 digits

/-- Whether the last label of a name is a number, so that the name must be an IPv4 address. An empty
label at the very end is not counted. -/
def endsInNumber (name : List Char) : Bool :=
  let labels := (Text.pieces '.' name).reverse
  let last := match labels with
    | [] :: rest => rest.head?
    | label :: _ => some label
    | [] => none
  match last with
  | none => false
  | some label => (!label.isEmpty && label.all Char.isDigit) || (ipv4Number? label).isSome

/-- Reads an IPv4 address of one to four numbers, the last of which fills the remaining bytes. -/
def ipv4? (name : List Char) : Option Nat :=
  let parts := Text.pieces '.' name
  let parts := if parts.getLast? = some [] then parts.dropLast else parts
  match parts.mapM ipv4Number? with
  | none => none
  | some numbers =>
    match numbers.getLast? with
    | none => none
    | some last =>
      let leading := numbers.dropLast
      if 3 < leading.length ∨ Nat.pow 256 (4 - leading.length) ≤ last ∨
        leading.any (255 < ·) then none
      else some (leading.foldr (fun n below => n * 0x1000000 + below / 256) 0 + last)

/-- The four bytes of an address, with points between them. -/
def ipv4Text (address : Nat) : String :=
  Text.join "."
    ([address / 0x1000000 % 256, address / 0x10000 % 256, address / 256 % 256, address % 256].map
      toString)

/-! ## IPv6 -/

/-- Reads a group of one to four hexadecimal digits. -/
def ipv6Group? (group : List Char) : Option Nat :=
  if group.isEmpty ∨ 4 < group.length ∨ !group.all (isDigitIn 16) then none
    else some (natInBase 16 group)

/-- Reads a decimal byte without leading zeros. -/
def ipv6Byte? (part : List Char) : Option Nat :=
  if part.isEmpty ∨ !part.all Char.isDigit ∨ (1 < part.length ∧ part.head? = some '0') then none
  else
    let n := natInBase 10 part
    if n < 256 then some n else none

/-- Reads an address in points as two groups. -/
def ipv6Embedded? (group : List Char) : Option (List Nat) :=
  match (Text.pieces '.' group).mapM ipv6Byte? with
  | some [a, b, c, d] => some [a * 256 + b, c * 256 + d]
  | _ => none

/-- Reads groups between colons; with `final` the last may be an address in points. -/
def ipv6Groups? (final : Bool) : List (List Char) → Option (List Nat)
  | [] => some []
  | [group] =>
    if final && group.contains '.' then ipv6Embedded? group else (ipv6Group? group).map fun n => [n]
  | group :: rest => do
    let n ← ipv6Group? group
    let ns ← ipv6Groups? final rest
    return n :: ns

/-- Reads a list of groups, which may be empty. -/
def ipv6Part? (final : Bool) (cs : List Char) : Option (List Nat) :=
  if cs.isEmpty then some [] else ipv6Groups? final (Text.pieces ':' cs)

/-- Cuts a text at its first double colon. -/
def cutDoubleColon? : List Char → Option (List Char × List Char)
  | [] => none
  | ':' :: ':' :: rest => some ([], rest)
  | c :: rest => (cutDoubleColon? rest).map fun (before, after) => (c :: before, after)

/-- Reads an IPv6 address; a double colon stands for as many zero groups as are missing, at least
one. -/
def ipv6? (cs : List Char) : Option (List Nat) :=
  match cutDoubleColon? cs with
  | some (before, after) => do
    let front ← ipv6Part? false before
    let back ← ipv6Part? true after
    let count := front.length + back.length
    if 7 < count then none else some (front ++ List.replicate (8 - count) 0 ++ back)
  | none => do
    let groups ← ipv6Part? true cs
    if groups.length = 8 then some groups else none

/-- The longest run of zeros, the first of several: where it starts and how long it is. -/
def zeroRun : (position : Nat) → List Nat → Nat × Nat
  | _, [] => (0, 0)
  | position, n :: rest =>
    let here := ((n :: rest).takeWhile (· == 0)).length
    let (start, length) := zeroRun (position + 1) rest
    if 0 < here ∧ length ≤ here then (position, here) else (start, length)

/-- Writes an IPv6 address; the longest run of at least two zero groups becomes a double colon. -/
def ipv6Text (pieces : List Nat) : String :=
  let groups (ns : List Nat) := Text.join ":" (ns.map Text.hexDigits)
  let (start, length) := zeroRun 0 pieces
  if length < 2 then groups pieces
  else groups (pieces.take start) ++ "::" ++ groups (pieces.drop (start + length))

/-! ## Whole hosts -/

/-- Characters that no domain name may hold. -/
def isForbiddenInDomain (c : Char) : Bool :=
  c.toNat ≤ 0x20 || c.toNat = 0x7F || "%#/:<>?@[\\]^|".toList.contains c

/-- Characters that no host may hold. -/
def isForbiddenInHost (c : Char) : Bool :=
  c.toNat = 0 || c.toNat = 9 || c.toNat = 10 || c.toNat = 13 || " #/:<>?@[\\]^|".toList.contains c

/-- Whether a label is marked as the ASCII form of a non-ASCII one, but is not: its code cannot be
read, or brings in no character, or controls and blanks. -/
def isBrokenLabel (label : List Char) : Bool :=
  match label with
  | 'x' :: 'n' :: '-' :: '-' :: code =>
    match Punycode.inserted? code with
    | some inserted => inserted.isEmpty || inserted.any (· ≤ 0xA0)
    | none => true
  | _ => false

/-- Reads what stands between brackets. -/
def ofBracketed (cs : List Char) : Except UrlError Host :=
  if cs.getLast? = some ']' then
    match ipv6? (cs.drop 1).dropLast with
    | some pieces => .ok (.ipv6 pieces)
    | none => .error .invalidIpv6
  else .error .invalidIpv6

/-- Reads the host of a web address, percent signs decoded first. It must be in ASCII. -/
def ofDomain (cs : List Char) : Except UrlError Host :=
  if cs.head? = some '[' then ofBracketed cs
  else
    let name := (Percent.decodeLossy (String.ofList cs)).toList
    if name.any fun c => isForbiddenInDomain c || 0x80 ≤ c.toNat then .error .invalidDomain
    else
      let name := name.map Char.toLower
      if name.isEmpty then .error .emptyHost
      else if (Text.pieces '.' name).any isBrokenLabel then .error .invalidDomain
      else if endsInNumber name then
        match ipv4? name with
        | some address => .ok (.ipv4 address)
        | none => .error .invalidIpv4
      else .ok (.domain (String.ofList name))

/-- Reads a host to which the scheme gives no meaning. -/
def ofRaw (cs : List Char) : Except UrlError Host :=
  if cs.head? = some '[' then ofBracketed cs
  else if cs.any isForbiddenInHost then .error .invalidHostCharacter
  else
    .ok (.rawName
      (String.ofList (Percent.encodeCharsWhere (fun c => c.toNat < 0x20 || 0x7F ≤ c.toNat) cs)))

/-- The text of a host. -/
def text : Host → String
  | .domain name => name
  | .ipv4 address => ipv4Text address
  | .ipv6 pieces => "[" ++ ipv6Text pieces ++ "]"
  | .rawName text => text

end Host

end ItemStore
