import ItemStore.Error.Basic
import ItemStore.Url.Parser

/-!
# Endpoints

An endpoint is the address of a service: a URL without path, and the base path under which every
request goes. `Endpoint.resolve` addresses a path; one that lies under the base path already is
taken as it is.
-/

namespace ItemStore

/-- The address of a service. -/
structure Endpoint where
  /-- Scheme, user information, host and port; the path is the root. -/
  url : Url
  /-- Empty, or a slash and more without a slash at the end. -/
  basePath : String
deriving DecidableEq, Repr

namespace Endpoint

/-- The base path of an address that names none. -/
def defaultBasePath : String := "/v0"

/-- Whether a character is a slash. -/
def isSlash (c : Char) : Bool := c = '/'

/-- Reads an address. Its path becomes the base path; query and fragment are dropped. -/
def parse (text : String) : Except StoreError Endpoint :=
  match Url.parse text with
  | .error e => .error (.ofUrlError e)
  | .ok u =>
    if u.scheme ≠ "http" ∧ u.scheme ≠ "https" then
      .error { kind := .configuration,
               message := "unsupported endpoint scheme " ++ Text.quoted u.scheme }
    else if (u.hostText?.getD "").isEmpty then
      .error { kind := .configuration, message := "endpoint URL has no host" }
    else
      let path := Text.trimEndWhere isSlash u.path
      .ok ⟨((u.withPath "").withQuery none).withoutFragment, if path = "" then
        defaultBasePath else path⟩

/-- The endpoint with another base path; slashes around it do not count. -/
def withBasePath (e : Endpoint) (path : String) : Endpoint :=
  let trimmed := Text.trimWhere isSlash path
  { e with basePath := if trimmed = "" then "" else "/" ++ trimmed }

/-- Whether the connection is secured. -/
def isSecure (e : Endpoint) : Bool :=
  e.url.scheme = "https"

/-- The value of the `Host` header: the host, and the port unless it is the default one. -/
def hostHeader (e : Endpoint) : String :=
  e.url.hostText?.getD "" ++ (match e.url.port? with
    | some port => ":" ++ toString port
    | none => "")

/-- Whether a path is the base path or continues it by a slash. -/
def isBased (e : Endpoint) (path : String) : Bool :=
  e.basePath ≠ "" && (path = e.basePath || (e.basePath ++ "/").toList.isPrefixOf path.toList)

/-- The full path of a request. -/
def fullPath (e : Endpoint) (path : String) : String :=
  if e.isBased path then path else e.basePath ++ "/" ++ Text.trimStartWhere isSlash path

/-- The URL of a request. -/
def resolve (e : Endpoint) (path query : String) : Url :=
  (e.url.withPath (e.fullPath path)).withQuery (if query = "" then none else some query)

/-- The text of an endpoint. -/
def text (e : Endpoint) : String :=
  Text.trimEndWhere isSlash e.url.text ++ e.basePath

end Endpoint

end ItemStore
