/-
Program trees and the values they compute.

A node records the position it came from. Names, operators, modes and parameters are JSON values, because a tree read from
a file may hold anything there; a tree made from program text holds texts. Values and nodes refer to each other: a literal
holds a value, and a function value holds its body.

Beside its own fields a node has a uniform view (`kind`, `position`, `payload`, `children`), which the interchange format
is written in.
-/
import LetScript.Json

namespace LetScript

/-! ## Nodes and values -/

mutual

/-- a part of a program -/
inductive Node where
  /-- a program, a block, or with the mode `loop` a count and a body -/
  | statements (position : Int) (mode : Json) (children : List Node)
  | operation (position : Int) (operator : Json) (left right : Node)
  | literal (position : Int) (value : Value)
  | reference (position : Int) (name : Json)
  | assign (position : Int) (name : Json) (expression : Node)
  | lambda (position : Int) (params : List Json) (body : Node)
  | call (position : Int) (name : Json) (args : List Node)
  | conditional (position : Int) (condition consequent alternative : Node)
  /-- a node that stands for nothing, only for its position -/
  | blank (position : Int)

/-- what evaluation yields -/
inductive Value where
  | null
  | bool (b : Bool)
  | int (n : Int)
  | float (x : Binary64)
  | text (s : String)
  | list (items : List Value)
  /-- an object of a stored tree -/
  | record (fields : List (String × Json))
  | function (params : List Json) (body : Node)
  | builtin (name : String)

end

instance : Inhabited Node := ⟨.blank 0⟩
instance : Inhabited Value := ⟨.null⟩

namespace Value

mutual

/-- the value that a JSON literal stands for -/
def ofJson : Json → Value
  | .null => .null
  | .bool b => .bool b
  | .int n => .int n
  | .float x => .float x
  | .text s => .text s
  | .list items => .list (ofJsonItems items)
  | .object fields => .record fields

/-- the values that a list of JSON literals stands for -/
def ofJsonItems : List Json → List Value
  | [] => []
  | item :: rest => ofJson item :: ofJsonItems rest

end

end Value

/-! ## Kinds of nodes -/

/-- the kinds of nodes that programs are made of -/
inductive NodeKind where
  | statements
  | operation
  | literal
  | reference
  | assign
  | lambda
  | call
  | conditional
  deriving DecidableEq

namespace NodeKind

/-- the name of a kind in the interchange format -/
def label : NodeKind → String
  | .statements => "STATEMENTS"
  | .operation => "OP"
  | .literal => "VALUE"
  | .reference => "REF"
  | .assign => "ASSIGN"
  | .lambda => "LAMBDA"
  | .call => "CALL"
  | .conditional => "COND"

/-- how many children a node of a kind has, when the number is fixed -/
def arity? : NodeKind → Option Nat
  | .statements => none
  | .operation => some 2
  | .literal => some 0
  | .reference => some 0
  | .assign => some 1
  | .lambda => some 1
  | .call => none
  | .conditional => some 3

/-- all kinds, in the order of their names -/
def all : List NodeKind :=
  [.assign, .call, .conditional, .lambda, .operation, .reference, .statements, .literal]

/-- the kind with the given name -/
def ofLabel? (name : String) : Option NodeKind := all.find? fun kind => kind.label = name

end NodeKind

/-! ## The uniform view -/

namespace Node

def position : Node → Int
  | .statements p _ _ => p
  | .operation p _ _ _ => p
  | .literal p _ => p
  | .reference p _ => p
  | .assign p _ _ => p
  | .lambda p _ _ => p
  | .call p _ _ => p
  | .conditional p _ _ _ => p
  | .blank p => p

/-- the kind of a node, if it has one -/
def kind? : Node → Option NodeKind
  | .statements .. => some .statements
  | .operation .. => some .operation
  | .literal .. => some .literal
  | .reference .. => some .reference
  | .assign .. => some .assign
  | .lambda .. => some .lambda
  | .call .. => some .call
  | .conditional .. => some .conditional
  | .blank _ => none

/-- the name of the kind, also for a node that has none -/
def label (node : Node) : String :=
  match node.kind? with
  | some kind => kind.label
  | none => "NODE"

/-- the part of a node that is no node -/
def payload : Node → Value
  | .statements _ mode _ => .ofJson mode
  | .operation _ operator _ _ => .ofJson operator
  | .literal _ value => value
  | .reference _ name => .ofJson name
  | .assign _ name _ => .ofJson name
  | .lambda _ params _ => .list (Value.ofJsonItems params)
  | .call _ name _ => .ofJson name
  | .conditional .. => .null
  | .blank _ => .null

/-- the parts of a node that are nodes, in order -/
def children : Node → List Node
  | .statements _ _ nodes => nodes
  | .operation _ _ left right => [left, right]
  | .literal .. => []
  | .reference .. => []
  | .assign _ _ expression => [expression]
  | .lambda _ _ body => [body]
  | .call _ _ args => args
  | .conditional _ condition consequent alternative => [condition, consequent, alternative]
  | .blank _ => []

end Node

/-! ## Equality -/

mutual

/-- structural equality of nodes, positions included -/
def Node.same : Node → Node → Bool
  | .statements p m as, .statements q n bs => p = q && m.same n && Node.sameAll as bs
  | .operation p o a b, .operation q o' c d => p = q && o.same o' && Node.same a c && Node.same b d
  | .literal p v, .literal q w => p = q && Value.same v w
  | .reference p n, .reference q m => p = q && n.same m
  | .assign p n a, .assign q m b => p = q && n.same m && Node.same a b
  | .lambda p ps a, .lambda q qs b => p = q && Json.sameItems ps qs && Node.same a b
  | .call p n as, .call q m bs => p = q && n.same m && Node.sameAll as bs
  | .conditional p a b c, .conditional q d e f => p = q && Node.same a d && Node.same b e && Node.same c f
  | .blank p, .blank q => p = q
  | _, _ => false

/-- structural equality of lists of nodes -/
def Node.sameAll : List Node → List Node → Bool
  | [], [] => true
  | a :: as, b :: bs => Node.same a b && Node.sameAll as bs
  | _, _ => false

/-- structural equality of values -/
def Value.same : Value → Value → Bool
  | .null, .null => true
  | .bool a, .bool b => a = b
  | .int a, .int b => a = b
  | .float a, .float b => a = b
  | .text a, .text b => a = b
  | .list as, .list bs => Value.sameAll as bs
  | .record as, .record bs => Json.sameFields as bs
  | .function ps a, .function qs b => Json.sameItems ps qs && Node.same a b
  | .builtin a, .builtin b => a = b
  | _, _ => false

/-- structural equality of lists of values -/
def Value.sameAll : List Value → List Value → Bool
  | [], [] => true
  | a :: as, b :: bs => Value.same a b && Value.sameAll as bs
  | _, _ => false

end

end LetScript
