/-
Writing JSON text.

`compact` puts a document on one line without spaces. `indented` puts every item and field on a line of its own, two
spaces deeper than the brackets around it, with `[]` and an empty pair of braces for what has none. Both write characters
beyond ASCII as they are and escape only the double quote, the backslash and control characters.
-/
import LetScript.Json

namespace LetScript.Json

/-! ## Leaves -/

/-- one character of a text -/
def escapedChar (c : Char) : List Char :=
  if c = '"' then ['\\', '"']
  else if c = '\\' then ['\\', '\\']
  else if c = '\n' then ['\\', 'n']
  else if c = '\r' then ['\\', 'r']
  else if c = '\t' then ['\\', 't']
  else if c.toNat = 0x08 then ['\\', 'b']
  else if c.toNat = 0x0c then ['\\', 'f']
  else if c.toNat < 0x20 then '\\' :: 'u' :: Text.hexDigits 4 c.toNat
  else [c]

/-- a text between double quotes -/
def writtenText (s : String) : List Char := '"' :: s.toList.flatMap escapedChar ++ ['"']

/-- a number that is not an integer; infinities and what is not a number have their names -/
def writtenFloat (x : Binary64) : List Char :=
  match x with
  | .nan => "NaN".toList
  | .infinite negative => if negative then "-Infinity".toList else "Infinity".toList
  | .finite negative units => (Binary64.text (.finite negative units)).toList

/-! ## On one line -/

mutual

/-- a document on one line -/
def compactChars : Json → List Char
  | .null => "null".toList
  | .bool b => if b then "true".toList else "false".toList
  | .int n => (Numeral.text n).toList
  | .float x => writtenFloat x
  | .text s => writtenText s
  | .list items => '[' :: compactItems items ++ [']']
  | .object fields => '\x7b' :: compactFields fields ++ ['\x7d']

/-- items with commas between them -/
def compactItems : List Json → List Char
  | [] => []
  | [item] => compactChars item
  | item :: rest => compactChars item ++ ',' :: compactItems rest

/-- fields with commas between them -/
def compactFields : List (String × Json) → List Char
  | [] => []
  | [(name, value)] => writtenText name ++ ':' :: compactChars value
  | (name, value) :: rest => writtenText name ++ ':' :: compactChars value ++ ',' :: compactFields rest

end

/-- a document on one line -/
def compact (document : Json) : String := String.ofList (compactChars document)

/-! ## Indented -/

/-- a line break and the spaces of a depth -/
def newLine (depth : Nat) : List Char := '\n' :: List.replicate (2 * depth) ' '

mutual

/-- a document whose brackets stand at the given depth -/
def indentedChars (depth : Nat) : Json → List Char
  | .null => "null".toList
  | .bool b => if b then "true".toList else "false".toList
  | .int n => (Numeral.text n).toList
  | .float x => writtenFloat x
  | .text s => writtenText s
  | .list [] => ['[', ']']
  | .list (item :: rest) => '[' :: indentedItems (depth + 1) (item :: rest) ++ newLine depth ++ [']']
  | .object [] => ['\x7b', '\x7d']
  | .object (field :: rest) => '\x7b' :: indentedFields (depth + 1) (field :: rest) ++ newLine depth ++ ['\x7d']

/-- items, each on a new line, with commas between them -/
def indentedItems (depth : Nat) : List Json → List Char
  | [] => []
  | [item] => newLine depth ++ indentedChars depth item
  | item :: rest => newLine depth ++ indentedChars depth item ++ ',' :: indentedItems depth rest

/-- fields, each on a new line, with commas between them -/
def indentedFields (depth : Nat) : List (String × Json) → List Char
  | [] => []
  | [(name, value)] => newLine depth ++ writtenText name ++ ':' :: ' ' :: indentedChars depth value
  | (name, value) :: rest =>
    newLine depth ++ writtenText name ++ ':' :: ' ' :: indentedChars depth value ++ ',' :: indentedFields depth rest

end

/-- a document with every item and field on a line of its own -/
def indented (document : Json) : String := String.ofList (indentedChars 0 document)

end LetScript.Json
