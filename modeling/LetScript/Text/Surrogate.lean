/-
Halves of surrogate pairs.

A JSON text may name one half of a surrogate pair alone. Such a half is no character, but it is kept apart from every other
half and counts as one place of the text. It is carried by a stand-in, the character that many places up in a plane without
characters; a stand-in has no encoding, so a text that holds one cannot be written to a file.

This assumes that no text holds a code point from U+DD800 to U+DDFFF of its own. These are the places of the stand-ins, in a plane
to which no characters are assigned; they have an encoding, and a text that holds one is taken for one that holds the half.
-/

namespace LetScript.Text

/-- how far above a half its stand-in lies -/
def standInOffset : Nat := 0xd0000

/-- the stand-in of a half -/
def standIn (half : Nat) : Char := Char.ofNat (standInOffset + half)

/-- the half that a character stands in for -/
def half? (c : Char) : Option Nat :=
  if standInOffset + 0xd800 ≤ c.toNat && c.toNat < standInOffset + 0xe000 then some (c.toNat - standInOffset) else none

/-- whether a text holds no halves -/
def isEncodable (text : String) : Bool := text.toList.all fun c => (half? c).isNone

end LetScript.Text
