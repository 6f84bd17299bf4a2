/-
Paths of files.

A path is kept in its normal form: the slashes it starts with, of which one is as good as three but two are not, and its parts,
without those that are empty or stay where they are. Parts that go up are kept, since where they lead depends on the files.
-/
import LetScript.Text.Surrogate
import LetScript.Text.Split

namespace LetScript

/-- a path in normal form -/
structure Path where
  root : String
  parts : List String
  deriving DecidableEq

namespace Path

/-- the slashes that a path keeps at its start: none, one, or exactly two -/
def rootOf : List Char → String
  | '/' :: '/' :: '/' :: _ => "/"
  | '/' :: '/' :: _ => "//"
  | '/' :: _ => "/"
  | _ => ""

/-- the path that a text spells -/
def ofText (text : String) : Path where
  root := rootOf text.toList
  parts := ((Text.split '/' text.toList).map String.ofList).filter fun part => !part.isEmpty && part ≠ "."

/-- a path as text; the one that leads nowhere is a point -/
def text (path : Path) : String :=
  let joined := path.root ++ "/".intercalate path.parts
  if joined.isEmpty then "." else joined

/-- the path of the file beside a file whose name goes on with the given ending -/
def extend (path : Path) (ending : String) : Path :=
  match path.parts.reverse with
  | [] => path
  | last :: before => { path with parts := ((last ++ ending) :: before).reverse }

/-- the most bytes that a part has -/
def partLimit : Nat := 255

/-- the bytes from which on a path is too long as a whole -/
def lengthLimit : Nat := 4096

/-- whether a part is longer than the name of a file can be -/
def isTooLong (part : String) : Bool := partLimit < part.utf8ByteSize

/-- whether a path can be looked up at all: it has an encoding and holds no null character -/
def isUsable (path : Path) : Bool := Text.isEncodable path.text && !path.text.toList.contains (Char.ofNat 0)

end Path

end LetScript
