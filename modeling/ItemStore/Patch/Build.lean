import ItemStore.Patch.Basic

/-!
# Writing patch documents

One function for each kind of operation, which puts the operation at the end of a document.
Documents are written by chaining them from the empty one.
-/

namespace ItemStore.PatchDocument

/-- The document without operations. -/
def empty : PatchDocument := []

/-- Puts an operation at the end. -/
def push (doc : PatchDocument) (op : PatchOp) : PatchDocument := doc ++ [op]

/-- Adds a value. -/
def add (doc : PatchDocument) (path : String) (value : Json) : PatchDocument :=
  doc.push (.add path value)

/-- Removes a value. -/
def remove (doc : PatchDocument) (path : String) : PatchDocument := doc.push (.remove path)

/-- Overwrites a value. -/
def replace (doc : PatchDocument) (path : String) (value : Json) : PatchDocument :=
  doc.push (.replace path value)

/-- Moves a value. -/
def move (doc : PatchDocument) (source path : String) : PatchDocument :=
  doc.push (.move source path)

/-- Copies a value. -/
def copy (doc : PatchDocument) (source path : String) : PatchDocument :=
  doc.push (.copy source path)

/-- Adds one to a number. -/
def inc (doc : PatchDocument) (path : String) : PatchDocument := doc.push (.inc path none)

/-- Adds an amount to a number. -/
def incBy (doc : PatchDocument) (path : String) (amount : Number) : PatchDocument :=
  doc.push (.inc path (some amount))

/-- Adds a value where there is none. -/
def init (doc : PatchDocument) (path : String) (value : Json) : PatchDocument :=
  doc.push (.init path value)

/-- Merges a value into another. -/
def merge (doc : PatchDocument) (path : String) (value : Json) : PatchDocument :=
  doc.push (.merge path value)

/-- Asserts that a place holds a value. -/
def test (doc : PatchDocument) (path : String) (value : Json) : PatchDocument :=
  doc.push (.test path (.equals value) false)

/-- Asserts that a place does not hold a value. -/
def testNot (doc : PatchDocument) (path : String) (value : Json) : PatchDocument :=
  doc.push (.test path (.equals value) true)

/-- Asserts that a place holds some value. -/
def testPresent (doc : PatchDocument) (path : String) : PatchDocument :=
  doc.push (.test path .present false)

/-- Asserts that a place holds no value. -/
def testMissing (doc : PatchDocument) (path : String) : PatchDocument :=
  doc.push (.test path .present true)

/-- Runs a nested document on the value at a place. -/
def nested (doc : PatchDocument) (path : String) (ops : PatchDocument) (conditional : Bool) :
    PatchDocument :=
  doc.push (.patch path ops conditional)

end ItemStore.PatchDocument
