import ItemStore.Url.Basic

/-!
# Reading URLs

`Url.parse` reads an absolute URL and `Url.join` a reference relative to another URL, both by the
rules of the web: blanks around the text and line breaks inside it are dropped, the schemes of the
web take backslashes for slashes and do not care how many slashes precede the host, and a reference
takes from its base what it does not state itself.
-/

namespace ItemStore.Url

/-! ## Parts of a text -/

/-- Drops controls and blanks around the text, and line breaks inside it. -/
def clean (text : String) : List Char :=
  let trimmed := text.toList.dropWhile (fun c => c.toNat ≤ 0x20)
  dropBreaks (trimmed.reverse.dropWhile (fun c => c.toNat ≤ 0x20)).reverse

/-- Characters of a scheme after its first letter. -/
def isSchemeChar (c : Char) : Bool :=
  c.isAlphanum || c = '+' || c = '-' || c = '.'

/-- The scheme of an absolute URL in lower case, and what follows its colon. -/
def scheme? (cs : List Char) : Option (String × List Char) :=
  match cs with
  | first :: _ =>
    if first.isAlpha then
      match cs.dropWhile isSchemeChar with
      | ':' :: rest => some (String.ofList ((cs.takeWhile isSchemeChar).map Char.toLower), rest)
      | _ => none
    else none
  | [] => none

/-- A slash, or a backslash in its place. -/
def isSlash (c : Char) : Bool :=
  c = '/' || c = '\\'

/-- The path of a text, before its query and fragment. -/
def pathPart (cs : List Char) : List Char :=
  cs.takeWhile fun c => !(c = '?' || c = '#')

/-- Adds the query and the fragment that end a text. -/
def withTail (u : Url) (cs : List Char) : Url :=
  let beforeFragment := cs.takeWhile (· ≠ '#')
  let query := match beforeFragment.dropWhile (· ≠ '?') with
    | [] => none
    | _ :: q => some (encodeQuery u.isSpecial q)
  let fragment := match cs.dropWhile (· ≠ '#') with
    | [] => none
    | _ :: f => some (String.ofList (Percent.encodeCharsWhere encodedInFragment f))
  { u with query, fragment }

/-! ## The authority -/

/-- The encoded user information: a name and, after a colon, a password unless that is empty. -/
def userInfoText (cs : List Char) : String :=
  let encoded (part : List Char) := String.ofList (Percent.encodeCharsWhere encodedInUserInfo part)
  let name := cs.takeWhile (· ≠ ':')
  let password := (cs.dropWhile (· ≠ ':')).drop 1
  encoded name ++ (if password.isEmpty then "" else ":" ++ encoded password)

/-- Whether a character ends the authority. -/
def endsAuthority (special : Bool) (c : Char) : Bool :=
  c = '/' || c = '?' || c = '#' || (special && c = '\\')

/-- Cuts a text behind its last at sign. -/
def cutAtSign (cs : List Char) : Option (List Char × List Char) :=
  if cs.contains '@' then
    -- at signs before the last one belong to the user information
    let behind := (cs.reverse.takeWhile (· ≠ '@')).reverse
    some (cs.take (cs.length - behind.length - 1), behind)
  else none

/-- How many characters of a text belong to its host: all up to a colon outside brackets. -/
def hostLength : (bracketed : Bool) → List Char → Nat
  | _, [] => 0
  | bracketed, c :: rest =>
    if c = ':' && !bracketed then 0
    else hostLength (if c = '[' then true else if c = ']' then false else bracketed) rest + 1

/-- Reads a port; the default one counts as none. -/
def portOf (scheme : String) (digits : List Char) : Except UrlError (Option Nat) :=
  if !digits.all Char.isDigit then .error .invalidPort
  else
    let port := Host.natInBase 10 digits
    if 65535 < port then .error .invalidPort
    else .ok (if digits.isEmpty ∨ defaultPort? scheme = some port then none else some port)

/-- Reads an authority, the text up to the path. -/
def authorityOf (scheme : String) (cs : List Char) : Except UrlError Authority :=
  let special := isSpecialScheme scheme
  let (user, rest) := match cutAtSign cs with
    | some (before, behind) => (userInfoText before, behind)
    | none => ("", cs)
  let n := hostLength false rest
  let name := rest.take n
  do
    if special && name.isEmpty then throw .emptyHost
    let host ← if special then Host.ofDomain name else Host.ofRaw name
    let behind := rest.drop n
    if name.isEmpty && (!behind.isEmpty || !user.isEmpty) then throw .emptyHost
    let port ← match behind with
      | [] => pure none
      | _ :: digits => portOf scheme (digits.takeWhile (· ≠ '\\'))
    return ⟨user, host, port⟩

/-- Reads what follows the double slash. -/
def afterSlashes (scheme : String) (cs : List Char) : Except UrlError Url := do
  let special := isSpecialScheme scheme
  let inAuthority := cs.takeWhile (fun c => !endsAuthority special c)
  -- nothing stands behind a lone at sign, so there is no host
  if inAuthority = ['@'] && 1 < cs.length then throw .emptyHost
  let authority ← authorityOf scheme inAuthority
  let rest := cs.drop inAuthority.length
  let parts := match pathPart rest with
    | [] => if special then [""] else []
    | c :: more =>
      segmentsOf special [] (if c = '/' || (special && c = '\\') then more else c :: more)
  return withTail ⟨scheme, some authority, .segments parts, none, none⟩ rest

/-! ## Files -/

/-- A file URL with this path; empty segments at the front are dropped. -/
def fileUrl (host : Host) (path : List Char) (tail : List Char) : Url :=
  let parts := (segmentsOf true [] path).dropWhile (· = "")
  withTail ⟨"file", some ⟨"", host, none⟩, .segments (if parts.isEmpty then [""] else parts),
    none, none⟩ tail

/-- Reads a file URL behind its colon. -/
def fileOf (cs : List Char) : Except UrlError Url :=
  let noHost := Host.rawName ""
  match cs with
  | a :: b :: rest =>
    if isSlash a && isSlash b then
      let name := rest.takeWhile fun c => !(isSlash c || c = '?' || c = '#')
      if name.isEmpty || isDriveLetter name then .ok (fileUrl noHost (pathPart rest) rest)
      else do
        let host ← Host.ofDomain name
        let behind := rest.drop name.length
        return fileUrl (if host = .domain "localhost" then noHost else host)
          (pathPart behind) behind
    else .ok (fileUrl noHost (pathPart cs) cs)
  | _ => .ok (fileUrl noHost (pathPart cs) cs)

/-! ## References -/

/-- Reads a reference of the kind that states no scheme, relative to a URL with a hierarchical
path. -/
def relativeTo (base : Url) (above : List String) (cs : List Char) : Except UrlError Url :=
  let special := base.isSpecial
  match cs with
  | [] => .ok { base with fragment := none }
  | '?' :: _ => .ok (withTail base cs)
  | '#' :: _ => .ok { withTail base cs with query := base.query }
  | c :: rest =>
    if isSlash c then
      let slashes := cs.takeWhile isSlash
      if 2 ≤ slashes.length then
        afterSlashes base.scheme
          (if "//".toList.isPrefixOf cs then cs.drop 2 else cs.drop slashes.length)
      else .ok
        (withTail { base with urlPath := .segments (segmentsOf special [] (pathPart rest)) } rest)
    else
      .ok (withTail
        { base with urlPath := .segments (segmentsOf special above.dropLast (pathPart cs)) } cs)

/-- Reads what follows the scheme's colon. -/
def afterScheme (base : Option Url) (scheme : String) (cs : List Char) : Except UrlError Url :=
  if scheme = "file" then fileOf cs
  else if isSpecialScheme scheme then
    let slashes := (cs.takeWhile isSlash).length
    match base with
    | some b =>
      match b.urlPath with
      | .segments above =>
        -- the scheme of the base without an authority is as good as no scheme
        if slashes < 2 && b.scheme = scheme then relativeTo b above cs
          else afterSlashes scheme (cs.drop slashes)
      | .flat _ => afterSlashes scheme (cs.drop slashes)
    | none => afterSlashes scheme (cs.drop slashes)
  else
    match cs with
    | '/' :: '/' :: rest => afterSlashes scheme rest
    | '/' :: rest =>
      .ok (withTail ⟨scheme, none, .segments (segmentsOf false [] (pathPart rest)), none, none⟩
        rest)
    | _ =>
      let path := String.ofList (Percent.encodeCharsWhere isControlOrWide (pathPart cs))
      .ok (withTail ⟨scheme, none, .flat path, none, none⟩ cs)

/-- Reads an absolute URL. -/
def parse (text : String) : Except UrlError Url :=
  match scheme? (clean text) with
  | some (scheme, rest) => afterScheme none scheme rest
  | none => .error .relativeWithoutBase

/-- Reads a reference relative to a base. -/
def join (base : Url) (text : String) : Except UrlError Url :=
  let cs := clean text
  match scheme? cs with
  | some (scheme, rest) => afterScheme (some base) scheme rest
  | none =>
    match base.urlPath with
    | .segments above => relativeTo base above cs
    | .flat _ => if cs.head? = some '#' then .ok { withTail base cs with query := base.query }
      else .error .relativeWithFlatBase

end ItemStore.Url
