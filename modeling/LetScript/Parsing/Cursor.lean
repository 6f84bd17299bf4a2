/-
Token cursors and the parsers that move them.

A cursor holds the tokens that are left, the position where the whole list ends, and the complaint that got furthest so
far. A parser takes a cursor and gives a reply: a result, a complaint about a token, or word of a number token that is no
readable integer. Every reply holds the cursor it left behind. Only the bookkeeping of `remember` reads the furthest
complaint; no parser decides by it.
-/
import LetScript.Token.Lexer
import LetScript.Diagnostic

namespace LetScript.Parsing

/-! ## Complaints -/

/-- what a parser wanted to see -/
inductive Wanted where
  | kind (kind : TokenKind)
  | oneOf (lexemes : List String)
  | more
  deriving DecidableEq

/-- a syntax error: the token that was found, or none at the end of the input, and what was wanted instead -/
structure Complaint where
  found : Option Token
  wanted : Wanted
  position : Int
  deriving DecidableEq

def Wanted.message : Wanted → String
  | .kind wanted => "should be a " ++ wanted.label
  | .oneOf lexemes => "should be one of " ++ ", ".intercalate lexemes
  | .more => "unexpected end of input"

def Complaint.message (complaint : Complaint) : String :=
  match complaint.found with
  | some token => "\"" ++ token.lexeme ++ "(" ++ token.kind.label ++ ")\" " ++ complaint.wanted.message
  | none => "end of input " ++ complaint.wanted.message

/-- a complaint in words -/
def Complaint.diagnostic (complaint : Complaint) : Diagnostic :=
  ⟨.badGrammar, complaint.message, complaint.position⟩

/-! ## Cursors -/

/-- a place in a token list -/
structure Cursor where
  rest : List Token
  /-- the position just after the last token of the whole list -/
  stop : Int
  furthest : Option Complaint

namespace Cursor

/-- where a token list ends: after its last token, and at zero when there is none -/
def stopOf (tokens : List Token) : Int :=
  match tokens.getLast? with
  | some token => token.stop
  | none => 0

/-- the cursor before the first token -/
def start (tokens : List Token) : Cursor := ⟨tokens, stopOf tokens, none⟩

/-- the tokens from an index on. An index below zero counts from the end, and the whole list follows the tokens there; none
where it goes back beyond the first token. -/
def tokensFrom? (tokens : List Token) : Int → Option (List Token)
  | .ofNat index => some (tokens.drop index)
  | .negSucc back =>
    if back < tokens.length then some (tokens.drop (tokens.length - (back + 1)) ++ tokens) else none

def atEnd (cursor : Cursor) : Bool := cursor.rest.isEmpty

/-- whether the next token has the given kind -/
def seesKind (kind : TokenKind) (cursor : Cursor) : Bool :=
  match cursor.rest with
  | token :: _ => token.kind = kind
  | [] => false

/-- whether the next token has the given kind and one of the given lexemes -/
def sees (kind : TokenKind) (lexemes : List String) (cursor : Cursor) : Bool :=
  match cursor.rest with
  | token :: _ => token.isOneOf kind lexemes
  | [] => false

/-- the complaint that the next token, or the end, is not what was wanted -/
def complaint (wanted : Wanted) (cursor : Cursor) : Complaint :=
  match cursor.rest with
  | token :: _ => ⟨some token, wanted, token.position⟩
  | [] => ⟨none, wanted, cursor.stop⟩

/-- keeps a complaint unless an earlier one stands further on -/
def remember (complaint : Complaint) (cursor : Cursor) : Cursor :=
  match cursor.furthest with
  | none => { cursor with furthest := some complaint }
  | some old => if old.position ≤ complaint.position then { cursor with furthest := some complaint } else cursor

end Cursor

/-! ## Parsers -/

/-- the answer of a parser, with the cursor it left behind -/
inductive Reply (α : Type) where
  | ok (result : α) (next : Cursor)
  | fail (complaint : Complaint) (next : Cursor)
  /-- a number token that is not the text of an integer of readable length -/
  | unreadable (token : Token) (next : Cursor)

/-- moves a cursor and answers -/
def Parser (α : Type) := Cursor → Reply α

/-- the cursor that a reply left behind -/
def Reply.next {α : Type} : Reply α → Cursor
  | .ok _ next => next
  | .fail _ next => next
  | .unreadable _ next => next

namespace Parser

/-- answers without moving -/
def pure {α : Type} (result : α) : Parser α := fun cursor => .ok result cursor

/-- goes on with the result, or stops at the first answer that is none -/
def bind {α β : Type} (parser : Parser α) (go : α → Parser β) : Parser β := fun cursor =>
  match parser cursor with
  | .ok result next => go result next
  | .fail complaint next => .fail complaint next
  | .unreadable token next => .unreadable token next

instance : Monad Parser where
  pure := Parser.pure
  bind := Parser.bind

end Parser

/-- asks something about the cursor without moving it -/
def look {α : Type} (question : Cursor → α) : Parser α := fun cursor => .ok (question cursor) cursor

/-- stops because a number token cannot be read -/
def refuse {α : Type} (token : Token) : Parser α := fun cursor => .unreadable token cursor

/-- takes the next token, whatever it is -/
def advance : Parser Token := fun cursor =>
  match cursor.rest with
  | token :: rest => .ok token { cursor with rest := rest }
  | [] => .fail (cursor.complaint .more) cursor

/-- takes a token of the given kind -/
def expectKind (kind : TokenKind) : Parser Token := fun cursor =>
  match cursor.rest with
  | token :: rest =>
    if token.kind = kind then .ok token { cursor with rest := rest } else .fail (cursor.complaint (.kind kind)) cursor
  | [] => .fail (cursor.complaint (.kind kind)) cursor

/-- takes a token of the given kind with one of the given lexemes; a wrong kind is complained about first -/
def expect (kind : TokenKind) (lexemes : List String) : Parser Token := fun cursor =>
  match cursor.rest with
  | token :: rest =>
    if token.kind ≠ kind then .fail (cursor.complaint (.kind kind)) cursor
    else if lexemes.contains token.lexeme then .ok token { cursor with rest := rest }
    else .fail (cursor.complaint (.oneOf lexemes)) cursor
  | [] => .fail (cursor.complaint (.kind kind)) cursor

end LetScript.Parsing
