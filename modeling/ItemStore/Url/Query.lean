import ItemStore.Url.Basic

/-!
# Query parameters

A query is a list of named values. `Query.encode` writes the list with every reserved character
percent-encoded, and `Query.decode` reads it back as forms do: parts between ampersands, a plus sign
for a blank, and empty parts dropped.
-/

namespace ItemStore.Query

/-- The text of one parameter. -/
def encodePair (pair : String × String) : String :=
  Percent.encode pair.1 ++ "=" ++ Percent.encode pair.2

/-- The text of a list of parameters. -/
def encode (pairs : List (String × String)) : String :=
  Text.join "&" (pairs.map encodePair)

/-- Reads a name or a value. -/
def decodePart (cs : List Char) : String :=
  Percent.decodeLossy (String.ofList (cs.map fun c => if c = '+' then ' ' else c))

/-- Reads one parameter; without an equals sign the value is empty. -/
def decodePair (part : List Char) : String × String :=
  (decodePart (part.takeWhile (· ≠ '=')), decodePart ((part.dropWhile (· ≠ '=')).drop 1))

/-- Reads a list of parameters. -/
def decode (query : String) : List (String × String) :=
  ((Text.pieces '&' query.toList).filter fun part => !part.isEmpty).map decodePair

end ItemStore.Query

namespace ItemStore

/-- The parameters in the query of a URL. -/
def Url.queryPairs (u : Url) : List (String × String) :=
  Query.decode (u.query.getD "")

end ItemStore
