/-
Tokens: the words of a program with their kinds and places.

A position counts characters from the start of the source text. Positions are integers because token lists may also be
put together by hand.
-/
import LetScript.Text.Quoted
import LetScript.Numeral

namespace LetScript

/-- the kinds of words -/
inductive TokenKind where
  | operator
  | number
  | paren
  | identifier
  | symbol
  | keyword
  deriving DecidableEq

namespace TokenKind

/-- the name of a kind in messages and listings -/
def label : TokenKind → String
  | .operator => "OP"
  | .number => "NUM"
  | .paren => "PAREN"
  | .identifier => "IDENT"
  | .symbol => "SYMBOL"
  | .keyword => "KEYWORD"

/-- all kinds -/
def all : List TokenKind := [.operator, .number, .paren, .identifier, .symbol, .keyword]

/-- the kind with the given name -/
def ofLabel? (name : String) : Option TokenKind := all.find? fun kind => kind.label = name

end TokenKind

/-- a word of a program -/
structure Token where
  kind : TokenKind
  lexeme : String
  position : Int
  deriving DecidableEq

namespace Token

/-- the position just after a token -/
def stop (token : Token) : Int := token.position + token.lexeme.length

/-- whether a token has the given kind and one of the given lexemes -/
def isOneOf (kind : TokenKind) (lexemes : List String) (token : Token) : Bool :=
  token.kind = kind && lexemes.contains token.lexeme

/-- a token as a line of a listing: kind, quoted lexeme, position -/
def listed (token : Token) : String :=
  token.kind.label ++ " " ++ Text.quoted token.lexeme ++ " @" ++ Numeral.text token.position

end Token

end LetScript
