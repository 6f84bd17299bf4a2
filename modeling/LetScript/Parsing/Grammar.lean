/-
The grammar, loosest binding first:

    program     := statement {";" statement}, a last ";" being optional
    statement   := "print" expr | "let" IDENT ":=" expr | expr
    expr        := "\" lambda | "if" conditional | equality
    conditional := equality "then" expr "else" expr
    lambda      := IDENT* "->" expr
    equality    := relational [("=" | "!=") relational]
    relational  := additive [(">" | "<" | ">=" | "<=") additive]
    additive    := term {("+" | "-") term}
    term        := factor {("*" | "/") factor}
    factor      := "(" expr ")" | block | "loop" count expr | IDENT expr* | NUMBER
    count       := NUMBER | IDENT | "(" expr ")"

where a block is a program in braces. Every rule below is a parser that takes the parser for a nested expression, so none
calls itself; `expression` ties the knot, with the number of tokens left as the bound of nesting. How the arguments after
an identifier are gathered is a parameter too: `speculative` tries one expression after the other and goes back before
the first that fails, `predictive` goes on while the next token can start an expression.
-/
import LetScript.Parsing.Cursor
import LetScript.Tree

namespace LetScript.Parsing

/-- how the arguments of a call are gathered, given the parser for one of them -/
abbrev Gather := Parser Node → Parser (List Node)

def equalityOperators : List String := ["=", "!="]
def relationalOperators : List String := [">", "<", ">=", "<="]
def additiveOperators : List String := ["+", "-"]
def multiplicativeOperators : List String := ["*", "/"]

/-- the mode of statements that are a loop -/
def loopMode : String := "loop"

/-! ## Numbers, groups and loops -/

/-- an integer literal -/
def number : Parser Node := do
  let token ← expectKind .number
  match Numeral.read token.lexeme with
  | some n => return .literal token.position (.int n)
  | none => refuse token

/-- an expression in parentheses -/
def group (expr : Parser Node) : Parser Node := do
  let _ ← expect .paren ["("]
  let inner ← expr
  let _ ← expect .paren [")"]
  return inner

/-- how often a loop runs -/
def loopCount (expr : Parser Node) : Parser Node := do
  if ← look (·.seesKind .identifier) then
    let name ← advance
    return .reference name.position (.text name.lexeme)
  else if ← look (·.sees .paren ["("]) then group expr
  else number

/-- a loop, from its keyword on -/
def loop (expr : Parser Node) : Parser Node := do
  let keyword ← advance
  let count ← loopCount expr
  let body ← expr
  return .statements keyword.position (.text loopMode) [count, body]

/-! ## Statements -/

/-- a binding, from the word `let` on -/
def letBinding (expr : Parser Node) : Parser Node := do
  let _ ← advance
  let name ← expectKind .identifier
  let _ ← expect .operator [":="]
  let bound ← expr
  return .assign name.position (.text name.lexeme) bound

/-- one statement; the word `let` may be a keyword or, in a list put together by hand, an identifier -/
def statement (expr : Parser Node) : Parser Node := do
  if ← look (·.sees .identifier ["print"]) then
    let word ← advance
    let shown ← expr
    return .call word.position (.text "print") [shown]
  else if ← look (fun c => c.sees .identifier ["let"] || c.sees .keyword ["let"]) then letBinding expr
  else expr

/-- statements with semicolons between them, up to a closing brace, the end, or a statement with no semicolon after it;
at most as many as the bound says -/
def statementRun (expr : Parser Node) : Nat → Parser (List Node)
  | 0 => return []
  | bound + 1 => do
    if ← look (fun c => c.atEnd || c.sees .paren ["\x7d"]) then return []
    else
      let first ← statement expr
      if ← look (·.sees .symbol [";"]) then
        let _ ← advance
        let others ← statementRun expr bound
        return first :: others
      else return [first]

/-- the position of a program or block: that of its first token, or the given one when it is empty -/
def openingPosition (position : Int) (cursor : Cursor) : Int :=
  match cursor.rest with
  | token :: _ => if token.isOneOf .paren ["\x7d"] then position else token.position
  | [] => position

/-- a program or the inside of a block -/
def statements (expr : Parser Node) (position : Int) : Parser Node := do
  let opening ← look (openingPosition position)
  let bound ← look (·.rest.length)
  let body ← statementRun expr bound
  return .statements opening (.text "") body

/-- a block, from its opening brace on -/
def block (expr : Parser Node) : Parser Node := do
  let brace ← advance
  let body ← statements expr brace.position
  let _ ← expect .paren ["\x7d"]
  return body

/-! ## Expressions -/

/-- an identifier with its arguments: a reference when there are none, else a call -/
def application (gather : Gather) (expr : Parser Node) : Parser Node := do
  let name ← advance
  let args ← gather expr
  if args.isEmpty then return .reference name.position (.text name.lexeme)
  else return .call name.position (.text name.lexeme) args

/-- what binds tightest -/
def factor (gather : Gather) (expr : Parser Node) : Parser Node := do
  if ← look (·.sees .paren ["("]) then group expr
  else if ← look (·.sees .keyword ["loop"]) then loop expr
  else if ← look (·.sees .paren ["\x7b"]) then block expr
  else if ← look (·.seesKind .identifier) then application gather expr
  else number

/-- more operands after the first, grouped to the left; at most as many as the bound says -/
def operandRun (operators : List String) (operand : Parser Node) : Nat → Node → Parser Node
  | 0, left => return left
  | bound + 1, left => do
    if ← look (·.sees .operator operators) then
      let operator ← advance
      let right ← operand
      operandRun operators operand bound (.operation operator.position (.text operator.lexeme) left right)
    else return left

/-- operands with operators between them, grouped to the left -/
def leftChain (operators : List String) (operand : Parser Node) : Parser Node := do
  let first ← operand
  let bound ← look (·.rest.length)
  operandRun operators operand bound first

/-- one operand, or two with an operator between them -/
def atMostOnce (operators : List String) (operand : Parser Node) : Parser Node := do
  let left ← operand
  if ← look (·.sees .operator operators) then
    let operator ← advance
    let right ← operand
    return .operation operator.position (.text operator.lexeme) left right
  else return left

def term (gather : Gather) (expr : Parser Node) : Parser Node :=
  leftChain multiplicativeOperators (factor gather expr)

def additive (gather : Gather) (expr : Parser Node) : Parser Node :=
  leftChain additiveOperators (term gather expr)

def relational (gather : Gather) (expr : Parser Node) : Parser Node :=
  atMostOnce relationalOperators (additive gather expr)

def equality (gather : Gather) (expr : Parser Node) : Parser Node :=
  atMostOnce equalityOperators (relational gather expr)

/-- parameter names, as many as stand there; at most as many as the bound says -/
def parameterRun : Nat → Parser (List Json)
  | 0 => return []
  | bound + 1 => do
    if ← look (·.seesKind .identifier) then
      let name ← advance
      let others ← parameterRun bound
      return .text name.lexeme :: others
    else return []

/-- a function, from its backslash on -/
def lambda (expr : Parser Node) : Parser Node := do
  let backslash ← expect .symbol ["\\"]
  let bound ← look (·.rest.length)
  let params ← parameterRun bound
  let _ ← expect .operator ["->"]
  let body ← expr
  return .lambda backslash.position params body

/-- a conditional, from the word `if` on; it stands where its condition stands -/
def conditional (gather : Gather) (expr : Parser Node) : Parser Node := do
  let _ ← expect .keyword ["if"]
  let condition ← equality gather expr
  let _ ← expect .keyword ["then"]
  let consequent ← expr
  let _ ← expect .keyword ["else"]
  let alternative ← expr
  return .conditional condition.position condition consequent alternative

/-- an expression, given the parser for the expressions inside it -/
def expressionStep (gather : Gather) (expr : Parser Node) : Parser Node := do
  if ← look (·.sees .symbol ["\\"]) then lambda expr
  else if ← look (·.sees .keyword ["if"]) then conditional gather expr
  else equality gather expr

/-- an expression nested at most as deep as the bound says. With no nesting left only a number can follow, and where no
token is left it is a number whose absence is complained about. -/
def expressionWithin (gather : Gather) : Nat → Parser Node
  | 0 => number
  | bound + 1 => expressionStep gather (expressionWithin gather bound)

/-- an expression: every nested one stands behind a token of its own, so the tokens left bound the nesting -/
def expression (gather : Gather) : Parser Node := fun cursor =>
  expressionWithin gather cursor.rest.length cursor

/-! ## Gathering arguments -/

/-- one expression after the other up to a semicolon, the end, or the first that fails, before which the cursor goes
back; the failure is remembered -/
def attempts (expr : Parser Node) : Nat → Parser (List Node)
  | 0 => return []
  | bound + 1 => fun cursor =>
    if cursor.atEnd || cursor.sees .symbol [";"] then .ok [] cursor
    else
      match expr cursor with
      | .ok first next =>
        match attempts expr bound next with
        | .ok others last => .ok (first :: others) last
        | .fail complaint last => .fail complaint last
        | .unreadable token last => .unreadable token last
      | .fail complaint next => .ok [] { (next.remember complaint) with rest := cursor.rest }
      | .unreadable token next => .unreadable token next

/-- gathers arguments by trying -/
def speculative : Gather := fun expr cursor => attempts expr cursor.rest.length cursor

/-- whether the next token can start an expression -/
def startsExpression (cursor : Cursor) : Bool :=
  cursor.sees .symbol ["\\"] || cursor.sees .keyword ["if", "loop"] || cursor.sees .paren ["(", "\x7b"] ||
    cursor.seesKind .identifier || cursor.seesKind .number

/-- expressions as long as the next token can start one; at most as many as the bound says -/
def expressionRun (expr : Parser Node) : Nat → Parser (List Node)
  | 0 => return []
  | bound + 1 => do
    if ← look startsExpression then
      let first ← expr
      let others ← expressionRun expr bound
      return first :: others
    else return []

/-- gathers arguments by looking one token ahead -/
def predictive : Gather := fun expr cursor => expressionRun expr cursor.rest.length cursor

end LetScript.Parsing
