/-
Diagnostics: what went wrong, where, and how it is shown.

A diagnostic knows only an offset into the source. `locate` turns the offset into a line and a column, both from one;
carriage returns take no column. `render` shows the message, a rule, the line before, the line itself, a caret under the
column, and the line after. Lines are numbered with at least three digits, and a line that does not exist is left empty.

With colour the message and the caret are painted. How that is done is not decided here: it is a function of a text that
whoever shows the diagnostic chooses, since it depends on the terminal as well. `emphasised` is that of a terminal with colours.
-/
import LetScript.Text.Quoted
import LetScript.Text.Split
import LetScript.Binary64.Decimal

namespace LetScript

/-! ## Kinds -/

/-- the kinds of things that go wrong in a program -/
inductive DiagnosticKind where
  | general
  | badGrammar
  | unboundVariable
  | arityMismatch
  | notCallable
  | typeMismatch
  | divisionByZero
  | unknownOperator
  | unexpectedNode
  | numericOverflow
  deriving DecidableEq

namespace DiagnosticKind

/-- the short name of a kind -/
def label : DiagnosticKind → String
  | .general => "Error"
  | .badGrammar => "SyntaxError"
  | .unboundVariable => "UnboundVariable"
  | .arityMismatch => "ArityMismatch"
  | .notCallable => "NotCallable"
  | .typeMismatch => "TypeMismatch"
  | .divisionByZero => "DivisionByZero"
  | .unknownOperator => "UnknownOperator"
  | .unexpectedNode => "UnexpectedNode"
  | .numericOverflow => "NumericOverflow"

/-- the full name of a kind: the two most general ones say that they are about the language -/
def title : DiagnosticKind → String
  | .general => "LangError"
  | .badGrammar => "LangSyntaxError"
  | kind => kind.label

/-- all kinds -/
def all : List DiagnosticKind :=
  [.general, .badGrammar, .unboundVariable, .arityMismatch, .notCallable, .typeMismatch, .divisionByZero,
    .unknownOperator, .unexpectedNode, .numericOverflow]

/-- the kind with the given full name -/
def ofTitle? (name : String) : Option DiagnosticKind := all.find? fun kind => kind.title = name

end DiagnosticKind

/-- something that went wrong at a position -/
structure Diagnostic where
  kind : DiagnosticKind
  message : String
  position : Int
  deriving DecidableEq

namespace Diagnostic

/-- a diagnostic on one line: its full kind, the quoted message and the position -/
def described (diagnostic : Diagnostic) : String :=
  diagnostic.kind.title ++ "(" ++ Text.quoted diagnostic.message ++ ", position=" ++
    Numeral.text diagnostic.position ++ ")"

/-! ## Places -/

/-- the characters before a position; a negative one counts from the end -/
def before (chars : List Char) (position : Int) : List Char :=
  match position with
  | .ofNat n => chars.take n
  | .negSucc n => chars.take (chars.length - (n + 1))

/-- moves a line and a column, both from zero, over one character -/
def moveOver (place : Nat × Nat) (c : Char) : Nat × Nat :=
  if c = '\n' then (place.1 + 1, 0) else if c = '\r' then place else (place.1, place.2 + 1)

/-- the line and the column of a position, both from one -/
def locate (source : String) (position : Int) : Nat × Nat :=
  let place := (before source.toList position).foldl moveOver (0, 0)
  (place.1 + 1, place.2 + 1)

/-! ## Lines -/

/-- the lines of a source as they are shown, without carriage returns -/
def shownLines (source : String) : List (List Char) :=
  Text.split '\n' (source.toList.filter (· ≠ '\r'))

/-- a line with its number in front, lines being counted from one; nothing when there is no such line -/
def numbered (lines : List (List Char)) (number : Nat) : List Char :=
  match number with
  | 0 => []
  | index + 1 =>
    match lines[index]? with
    | some line => Binary64.padZeros 3 (Nat.repr number).toList ++ ':' :: line
    | none => []

/-! ## Rendering -/

/-- the line between the message and the source -/
def rule : String := String.ofList (List.replicate 44 '-')

/-- bold red on a terminal with colours -/
def emphasised (text : String) : String := "\x1b[1m\x1b[31m" ++ text ++ "\x1b[0m"

/-- a text, painted if colour is on -/
def painted (paint : String → String) (color : Bool) (text : String) : String := if color then paint text else text

/-- the message with the source around the position -/
def render (diagnostic : Diagnostic) (source : String) (color : Bool) (paint : String → String := emphasised) : String :=
  let (line, column) := locate source diagnostic.position
  let lines := shownLines source
  let header := diagnostic.message ++ ": (line: " ++ Nat.repr line ++ ", column: " ++ Nat.repr column ++ ")"
  "\n".intercalate [
    painted paint color header,
    rule,
    String.ofList (numbered lines (line - 1)),
    String.ofList (numbered lines line),
    String.ofList (List.replicate (4 + (column - 1)) ' ') ++ painted paint color "^",
    String.ofList (numbered lines (line + 1))]

/-- what is written to the error channel: the rendering between empty lines -/
def report (diagnostic : Diagnostic) (source : String) (color : Bool) (paint : String → String := emphasised) : String :=
  "\n" ++ diagnostic.render source color paint ++ "\n\n"

end Diagnostic

end LetScript
