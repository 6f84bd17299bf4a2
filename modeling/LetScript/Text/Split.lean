/-
Cutting text at a character.

The pieces are what stands between the places where the character occurs, so there is always one more piece than there are
such places, and no piece holds the character.
-/

namespace LetScript.Text

/-- the pieces of a text between the occurrences of a character; there is always at least one -/
def split (separator : Char) : List Char → List (List Char)
  | [] => [[]]
  | c :: rest =>
    match split separator rest with
    | [] => [[c]]
    | piece :: others => if c = separator then [] :: piece :: others else (c :: piece) :: others

end LetScript.Text
