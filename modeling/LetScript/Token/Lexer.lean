/-
Lexing: source text to tokens.

At every place the first rule that applies wins:
- a blank (space, tab, carriage return, line feed) is skipped;
- a keyword that no further word character follows;
- a run of decimal digits;
- a comment, `--` up to the end of the line, is skipped;
- the symbols backslash and semicolon;
- a two-character operator, then a one-character operator;
- a parenthesis or brace;
- an identifier, a run of word characters;
- any other character alone is a symbol, for the parser to refuse.

`lead` decides what stands at the front of a text and how long it is; `scan` walks the text with it. There is no error:
every text has a token list.
-/
import LetScript.Token

namespace LetScript.Token

/-! ## Character classes -/

def isBlank (c : Char) : Bool := c = ' ' || c = '\t' || c = '\r' || c = '\n'

def isLineBreak (c : Char) : Bool := c = '\r' || c = '\n'

def isDigit (c : Char) : Bool := '0' ≤ c ∧ c ≤ '9'

/-- ASCII letters, digits and the underscore -/
def isWordChar (c : Char) : Bool :=
  ('a' ≤ c ∧ c ≤ 'z') || ('A' ≤ c ∧ c ≤ 'Z') || isDigit c || c = '_'

def keywords : List String := ["let", "if", "then", "else", "loop"]

def symbolChars : List Char := ['\\', ';']

def operatorPairs : List (Char × Char) := [('-', '>'), (':', '='), ('<', '='), ('>', '='), ('!', '=')]

def operatorChars : List Char := ['=', '+', '-', '*', '/', '<', '>']

def parenChars : List Char := ['(', ')', '\x7b', '\x7d']

/-! ## The front of a text -/

/-- what stands at the front of a text, and how many characters it takes -/
inductive Lead where
  | gap (length : Nat)
  | token (kind : TokenKind) (length : Nat)
  deriving DecidableEq

/-- whether a keyword stands at the front, with no word character after it -/
def startsWithKeyword (text : List Char) (keyword : String) : Bool :=
  keyword.toList.isPrefixOf text && !((text.drop keyword.length).head?.any isWordChar)

/-- whether a comment starts at the front -/
def startsComment : List Char → Bool
  | '-' :: '-' :: _ => true
  | _ => false

/-- whether a two-character operator stands at the front -/
def startsWithPair : List Char → Bool
  | c :: d :: _ => operatorPairs.contains (c, d)
  | _ => false

/-- what a text that starts with `c` and goes on with `rest` has at its front -/
def lead (c : Char) (rest : List Char) : Lead :=
  if isBlank c then .gap 1
  else
    match keywords.find? (startsWithKeyword (c :: rest)) with
    | some keyword => .token .keyword keyword.length
    | none =>
      if isDigit c then .token .number ((c :: rest).takeWhile isDigit).length
      else if startsComment (c :: rest) then .gap ((c :: rest).takeWhile (!isLineBreak ·)).length
      else if symbolChars.contains c then .token .symbol 1
      else if startsWithPair (c :: rest) then .token .operator 2
      else if operatorChars.contains c then .token .operator 1
      else if parenChars.contains c then .token .paren 1
      else if isWordChar c then .token .identifier ((c :: rest).takeWhile isWordChar).length
      else .token .symbol 1

/-! ## The whole text -/

/-- the tokens of a text that starts at the given offset; the first `skip` characters belong to what stands before -/
def scan (skip : Nat) (offset : Nat) : List Char → List Token
  | [] => []
  | c :: rest =>
    match skip with
    | skip + 1 => scan skip (offset + 1) rest
    | 0 =>
      match lead c rest with
      | .gap length => scan (length - 1) (offset + 1) rest
      | .token kind length =>
        ⟨kind, String.ofList ((c :: rest).take length), offset⟩ :: scan (length - 1) (offset + 1) rest

/-- the tokens of a source text -/
def tokenize (source : String) : List Token := scan 0 0 source.toList

end LetScript.Token
