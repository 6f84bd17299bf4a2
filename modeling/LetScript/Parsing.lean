/-
Parsing whole programs.

A program must take all tokens. When it does not, the complaint reported is the one that got furthest into the input, which
may come from an argument that was tried and given up; of two at one position the later one counts.
-/
import LetScript.Parsing.Grammar

namespace LetScript.Parsing

/-- why a token list is not a program -/
inductive ParseError where
  | complaint (complaint : Complaint)
  | unreadable (token : Token)

/-- statements up to the end of the input -/
def wholeInput (gather : Gather) : Parser Node := do
  let body ← statements (expression gather) 0
  if ← look (!·.atEnd) then
    let _ ← expect .symbol [";"]
    return body
  else return body

/-- a program; its complaint is the furthest one remembered -/
def program (gather : Gather) : Parser Node := fun cursor =>
  match wholeInput gather cursor with
  | .fail complaint next =>
    let settled := next.remember complaint
    .fail (settled.furthest.getD complaint) settled
  | reply => reply

/-- the tree of a program, with the given way to gather arguments -/
def parseWith (gather : Gather) (tokens : List Token) : Except ParseError Node :=
  match program gather (Cursor.start tokens) with
  | .ok tree _ => .ok tree
  | .fail complaint _ => .error (.complaint complaint)
  | .unreadable token _ => .error (.unreadable token)

/-- the tree of a program -/
def parse (tokens : List Token) : Except ParseError Node := parseWith speculative tokens

/-- the tree of a source text -/
def parseSource (source : String) : Except ParseError Node := parse (Token.tokenize source)

end LetScript.Parsing
