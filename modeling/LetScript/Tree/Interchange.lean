/-
Trees as JSON documents.

A node is an object with the fields `kind`, `position`, `value` and `nodes`. Writing fails only for literals that are no
scalars and for nodes of no kind. Reading is lenient about what can be missing: no position is zero, and children that are
missing or empty in any way are none. It checks, in this order: that there is an object, its kind, its children, how many
there are, its position, and its payload. A position may also be a truth value, a number, of which the integer part
counts, or the text of an integer.
-/
import LetScript.Tree

namespace LetScript.Interchange

/-! ## Refusals -/

/-- why a document is not read as a tree, or a tree not written -/
inductive Refusal where
  | notAnObject
  /-- the kind is a list or an object -/
  | unusableKind
  | unknownKind (kind : Json)
  | wrongCount (kind : NodeKind) (expected given : Nat)
  /-- the children are a number or a truth value -/
  | childrenNotListed
  /-- the position is null, a list or an object -/
  | positionNotNumeric
  /-- the position is a text that is no integer, or not a number -/
  | positionUnreadable
  | positionInfinite
  /-- the parameters are null, a number or a truth value -/
  | parametersNotListed
  | unwritableLiteral (type : String)
  | unwritableNode (type : String)

/-- what is said about a refusal, where something is -/
def Refusal.message? : Refusal → Option String
  | .notAnObject => some "Invalid AST object"
  | .unknownKind kind => some ("Unknown AST node kind: " ++ kind.spelled)
  | .wrongCount kind expected given =>
    some (kind.label ++ " node expects " ++ Nat.repr expected ++ " children, got " ++ Nat.repr given)
  | .unwritableLiteral type => some ("Unsupported literal for serialization: " ++ type)
  | .unwritableNode type => some ("Unsupported node for serialization: " ++ type)
  | _ => none

/-- the name of a value's type in refusals to write it -/
def storageType : Value → String
  | .null => "NoneType"
  | .bool _ => "bool"
  | .int _ => "int"
  | .float _ => "float"
  | .text _ => "str"
  | .list _ => "list"
  | .record _ => "dict"
  | .function .. => "FunctionValue"
  | .builtin _ => "BuiltinFunction"

/-! ## Writing -/

/-- a literal that can be written -/
def scalar? : Value → Option Json
  | .null => some .null
  | .bool b => some (.bool b)
  | .int n => some (.int n)
  | .float x => some (.float x)
  | .text s => some (.text s)
  | _ => none

/-- the object of a node -/
def nodeObject (kind : NodeKind) (position : Int) (payload : Json) (nodes : List Json) : Json :=
  .object [("kind", .text kind.label), ("position", .int position), ("value", payload), ("nodes", .list nodes)]

mutual

/-- writes a tree; of several things that cannot be written the first in reading order is reported -/
def write : Node → Except Refusal Json
  | .statements p mode nodes => (writeAll nodes).map (nodeObject .statements p mode)
  | .operation p operator left right =>
    match write left with
    | .error refusal => .error refusal
    | .ok l => (write right).map fun r => nodeObject .operation p operator [l, r]
  | .literal p value =>
    match scalar? value with
    | some payload => .ok (nodeObject .literal p payload [])
    | none => .error (.unwritableLiteral (storageType value))
  | .reference p name => .ok (nodeObject .reference p name [])
  | .assign p name expression => (write expression).map fun e => nodeObject .assign p name [e]
  | .lambda p params body => (write body).map fun b => nodeObject .lambda p (.list params) [b]
  | .call p name args => (writeAll args).map (nodeObject .call p name)
  | .conditional p condition consequent alternative =>
    match write condition with
    | .error refusal => .error refusal
    | .ok c =>
      match write consequent with
      | .error refusal => .error refusal
      | .ok t => (write alternative).map fun e => nodeObject .conditional p .null [c, t, e]
  | .blank _ => .error (.unwritableNode "Node")

/-- writes nodes in order -/
def writeAll : List Node → Except Refusal (List Json)
  | [] => .ok []
  | node :: rest =>
    match write node with
    | .error refusal => .error refusal
    | .ok first => (writeAll rest).map (first :: ·)

end

/-- the refusal to write a value where a node belongs -/
def refuseValue (value : Value) : Refusal := .unwritableNode (storageType value)

/-! ## Reading -/

/-- the kind that a field names; no field is null -/
def kindOf (kind : Json) : Except Refusal NodeKind :=
  match kind with
  | .list _ => .error .unusableKind
  | .object _ => .error .unusableKind
  | .text name =>
    match NodeKind.ofLabel? name with
    | some known => .ok known
    | none => .error (.unknownKind kind)
  | _ => .error (.unknownKind kind)

/-- the position that a field gives -/
def positionOf : Json → Except Refusal Int
  | .int n => .ok n
  | .bool b => .ok (if b then 1 else 0)
  | .float x =>
    match x with
    | .nan => .error .positionUnreadable
    | .infinite _ => .error .positionInfinite
    | .finite negative units => .ok (Binary64.signed negative (units / Binary64.unitsPerOne))
  | .text s =>
    match Numeral.read s with
    | some n => .ok n
    | none => .error .positionUnreadable
  | _ => .error .positionNotNumeric

/-- the parameters that a payload lists: its items, its characters, or the names of its fields -/
def parametersOf : Json → Except Refusal (List Json)
  | .list items => .ok items
  | .text s => .ok (s.toList.map fun c => .text (String.singleton c))
  | .object fields => .ok (fields.map fun field => .text field.1)
  | _ => .error .parametersNotListed

/-- whether a number of children fits a kind -/
def countFits (kind : NodeKind) (given : Nat) : Except Refusal Unit :=
  match kind.arity? with
  | none => .ok ()
  | some expected => if given = expected then .ok () else .error (.wrongCount kind expected given)

/-- the node of a kind with the given parts. Statements with an empty payload have the empty mode, and a conditional drops
its payload. -/
def assemble (kind : NodeKind) (position : Int) (payload : Json) (nodes : List Node) : Except Refusal Node :=
  match kind, nodes with
  | .statements, _ => .ok (.statements position (if payload.isPresent then payload else .text "") nodes)
  | .operation, [left, right] => .ok (.operation position payload left right)
  | .literal, [] => .ok (.literal position (Value.ofJson payload))
  | .reference, [] => .ok (.reference position payload)
  | .assign, [expression] => .ok (.assign position payload expression)
  | .lambda, [body] => (parametersOf payload).map fun params => .lambda position params body
  | .call, _ => .ok (.call position payload nodes)
  | .conditional, [condition, consequent, alternative] =>
    .ok (.conditional position condition consequent alternative)
  | _, _ => .error (.wrongCount kind (kind.arity?.getD 0) nodes.length)

/-- the node of an object, given what its children are read as -/
def build (fields : List (String × Json)) (children : Except Refusal (List Node)) : Except Refusal Node := do
  let kind ← kindOf ((Json.field? "kind" fields).getD .null)
  let nodes ← children
  countFits kind nodes.length
  let position ← positionOf ((Json.field? "position" fields).getD (.int 0))
  assemble kind position ((Json.field? "value" fields).getD .null) nodes

mutual

/-- reads a tree -/
def read : Json → Except Refusal Node
  | .object fields => build fields (childrenIn fields)
  | _ => .error .notAnObject

/-- the children of the object with the given fields -/
def childrenIn : List (String × Json) → Except Refusal (List Node)
  | [] => .ok []
  | (name, value) :: rest => if name = "nodes" then childrenFrom value else childrenIn rest

/-- the children that a field lists. Anything empty lists none; a text or an object lists texts, which are no nodes. -/
def childrenFrom : Json → Except Refusal (List Node)
  | .list items => readAll items
  | .text s => if s.isEmpty then .ok [] else .error .notAnObject
  | .object fields => if fields.isEmpty then .ok [] else .error .notAnObject
  | .null => .ok []
  | .bool b => if b then .error .childrenNotListed else .ok []
  | .int n => if n = 0 then .ok [] else .error .childrenNotListed
  | .float x => if x.isZero then .ok [] else .error .childrenNotListed

/-- reads trees in order -/
def readAll : List Json → Except Refusal (List Node)
  | [] => .ok []
  | item :: rest =>
    match read item with
    | .error refusal => .error refusal
    | .ok first =>
      match readAll rest with
      | .ok others => .ok (first :: others)
      | .error refusal => .error refusal

end

end LetScript.Interchange
