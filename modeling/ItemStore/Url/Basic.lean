import ItemStore.Url.Host

/-!
# URLs

A URL in parts, its text, and the two ways in which a client changes one: replacing the path and
replacing the query. Paths are lists of segments, in which dot segments have been resolved; a URL of
a scheme without hierarchy has one opaque path instead. Every part is kept percent-encoded, each
with its own class of encoded characters.
-/

namespace ItemStore

/-- Who is addressed: user information, host and a port other than the default one. -/
structure Authority where
  userInfo : String
  host : Host
  port : Option Nat
deriving DecidableEq, Repr

/-- The path of a URL. -/
inductive UrlPath where
  /-- Segments, each with a slash before it. -/
  | segments (parts : List String)
  /-- A path without structure. -/
  | flat (text : String)
deriving DecidableEq, Repr

/-- A URL. -/
structure Url where
  scheme : String
  authority : Option Authority
  urlPath : UrlPath
  query : Option String
  fragment : Option String
deriving DecidableEq, Repr

namespace Url

/-! ## Schemes -/

/-- The schemes of the web, whose URLs always have a host and a path. -/
def isSpecialScheme (scheme : String) : Bool :=
  ["http", "https", "ws", "wss", "ftp", "file"].contains scheme

/-- The port that a scheme implies. -/
def defaultPort? (scheme : String) : Option Nat :=
  if scheme = "http" ∨ scheme = "ws" then some 80
  else if scheme = "https" ∨ scheme = "wss" then some 443
  else if scheme = "ftp" then some 21
  else none

/-- Whether the URL is of a web scheme. -/
def isSpecial (u : Url) : Bool :=
  isSpecialScheme u.scheme

/-! ## What each part encodes -/

/-- Controls and everything that is not ASCII. -/
def isControlOrWide (c : Char) : Bool :=
  c.toNat < 0x20 || 0x7F ≤ c.toNat

/-- Characters encoded in a fragment. -/
def encodedInFragment (c : Char) : Bool :=
  isControlOrWide c || " \"<>`".toList.contains c

/-- Characters encoded in a path. -/
def encodedInPath (c : Char) : Bool :=
  encodedInFragment c || "#?\x7b\x7d".toList.contains c

/-- Characters encoded in user information. -/
def encodedInUserInfo (c : Char) : Bool :=
  encodedInPath c || "/:;=@[\\]^|".toList.contains c

/-- Characters encoded in a query; web schemes encode the apostrophe too. -/
def encodedInQuery (special : Bool) (c : Char) : Bool :=
  isControlOrWide c || " \"#<>".toList.contains c || (special && c = '\'')

/-! ## Paths -/

/-- Drops tabs and line breaks, which URLs never hold. -/
def dropBreaks (cs : List Char) : List Char :=
  cs.filter fun c => !(c = '\t' || c = '\n' || c = '\r')

/-- Cuts the text of a path into segments; web schemes take a backslash for a slash. -/
def rawSegments (special : Bool) (cs : List Char) : List (List Char) :=
  Text.pieces '/' (if special then cs.map fun c => if c = '\\' then '/' else c else cs)

/-- A segment with `%2e` read as a point. -/
def readDots : List Char → List Char
  | '%' :: '2' :: 'e' :: rest => '.' :: readDots rest
  | '%' :: '2' :: 'E' :: rest => '.' :: readDots rest
  | c :: rest => c :: readDots rest
  | [] => []

/-- Whether a segment stands for the segment itself. -/
def isSingleDot (segment : List Char) : Bool :=
  readDots segment = ['.']

/-- Whether a segment stands for the one above. -/
def isDoubleDot (segment : List Char) : Bool :=
  readDots segment = ['.', '.']

/-- Whether a segment is a drive letter, which no double dot removes. -/
def isDriveLetter (segment : List Char) : Bool :=
  match segment with
  | [letter, mark] => letter.isAlpha && (mark = ':' || mark = '|')
  | _ => false

/-- Removes the last of some segments, which are listed latest first. -/
def popSegment : List String → List String
  | [] => []
  | segment :: below => if isDriveLetter segment.toList then segment :: below else below

/-- Resolves dot segments and encodes the others, on top of segments listed latest first. A dot
segment at the end leaves an empty segment, so that the path still ends in a slash. -/
def resolveSegments : (above : List String) → List (List Char) → List String
  | above, [] => above
  | above, [last] =>
    if isDoubleDot last then "" :: popSegment above
    else if isSingleDot last then "" :: above
    else String.ofList (Percent.encodeCharsWhere encodedInPath last) :: above
  | above, segment :: rest =>
    if isDoubleDot segment then resolveSegments (popSegment above) rest
    else if isSingleDot segment then resolveSegments above rest
    else resolveSegments
      (String.ofList (Percent.encodeCharsWhere encodedInPath segment) :: above) rest

/-- The segments of a path's text, which starts behind the first slash, on top of other segments. -/
def segmentsOf (special : Bool) (above : List String) (cs : List Char) : List String :=
  (resolveSegments above.reverse (rawSegments special cs)).reverse

/-- The text of segments. -/
def segmentsText (parts : List String) : String :=
  String.join (parts.map fun part => "/" ++ part)

/-! ## Texts -/

/-- The path as text. -/
def path (u : Url) : String :=
  match u.urlPath with
  | .segments parts => segmentsText parts
  | .flat text => text

/-- The host as text, if there is an authority. -/
def hostText? (u : Url) : Option String :=
  u.authority.map fun a => a.host.text

/-- The port, unless it is the default one. -/
def port? (u : Url) : Option Nat :=
  u.authority.bind Authority.port

/-- The text of an authority. -/
def authorityText (a : Authority) : String :=
  (if a.userInfo.isEmpty then "" else a.userInfo ++ "@") ++ a.host.text
    ++ (match a.port with
      | some port => ":" ++ toString port
      | none => "")

/-- The text of a URL. -/
def text (u : Url) : String :=
  u.scheme ++ ":"
    ++ (match u.authority with
      | some a => "//" ++ authorityText a
      | none =>
        if "//".toList.isPrefixOf u.path.toList && u.urlPath ≠ .flat u.path then "/." else "")
    ++ u.path
    ++ (match u.query with
      | some query => "?" ++ query
      | none => "")
    ++ (match u.fragment with
      | some fragment => "#" ++ fragment
      | none => "")

/-! ## Changing parts -/

/-- The URL of a web scheme with another path. Question and number signs in it are data; the first
slash is optional. -/
def withPath (u : Url) (path : String) : Url :=
  let cs := dropBreaks path.toList
  let cs := match cs with
    | '/' :: rest => rest
    | '\\' :: rest => rest
    | cs => cs
  { u with urlPath := .segments (segmentsOf true [] cs) }

/-- The encoded text of a query. -/
def encodeQuery (special : Bool) (cs : List Char) : String :=
  String.ofList (Percent.encodeCharsWhere (encodedInQuery special) cs)

/-- The URL with another query. -/
def withQuery (u : Url) (query : Option String) : Url :=
  { u with query := query.map fun q => encodeQuery u.isSpecial (dropBreaks q.toList) }

/-- The URL without a fragment. -/
def withoutFragment (u : Url) : Url :=
  { u with fragment := none }

end Url

end ItemStore
