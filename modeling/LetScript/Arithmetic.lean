/-
Operators on numbers.

Integers are unbounded. An integer beside a double-precision number is converted, and is too large if its nearest such
number is infinite; comparisons convert nothing and are exact. A quotient of integers is exact when the divisor divides, and
else the double-precision number nearest to it; a quotient that comes out whole is an integer again. Dividing by zero, of
either type and sign, is an error.
-/
import LetScript.Value

namespace LetScript

/-- the operators of the language -/
inductive Operator where
  | add
  | sub
  | mul
  | div
  | greater
  | less
  | greaterEqual
  | lessEqual
  | equal
  | notEqual
  deriving DecidableEq

namespace Operator

def label : Operator → String
  | .add => "+"
  | .sub => "-"
  | .mul => "*"
  | .div => "/"
  | .greater => ">"
  | .less => "<"
  | .greaterEqual => ">="
  | .lessEqual => "<="
  | .equal => "="
  | .notEqual => "!="

/-- all operators -/
def all : List Operator :=
  [.add, .sub, .mul, .div, .greater, .less, .greaterEqual, .lessEqual, .equal, .notEqual]

/-- the operator with the given spelling -/
def ofLabel? (spelling : String) : Option Operator := all.find? fun operator => operator.label = spelling

end Operator

/-- a number: an integer or a double-precision number -/
inductive Number where
  | int (n : Int)
  | float (x : Binary64)
  deriving DecidableEq

namespace Number

/-- the number in a value -/
def ofValue? : Value → Option Number
  | .int n => some (.int n)
  | .float x => some (.float x)
  | _ => none

def toValue : Number → Value
  | .int n => .int n
  | .float x => .float x

def isZero : Number → Bool
  | .int n => n = 0
  | .float x => x.isZero

/-- the nearest double-precision number, unless it is infinite though the number is not -/
def toFloat? : Number → Option Binary64
  | .int n => Binary64.ofInt? n
  | .float x => some x

/-! ## Comparison -/

/-- the exact order of two numbers; none when one of them is not a number -/
def order? : Number → Number → Option Ordering
  | .int a, .int b => some (compare a b)
  | .int a, .float y => Binary64.orderOfInt? a y
  | .float x, .int b => (Binary64.orderOfInt? b x).map Ordering.swap
  | .float x, .float y => Binary64.order? x y

/-! ## Arithmetic -/

/-- a double-precision result, as an integer when it is whole -/
def integral (x : Binary64) : Number :=
  match x.truncate? with
  | some n => if x.isWhole then .int n else .float x
  | none => .float x

/-- an operation on two double-precision numbers, after conversion -/
def viaFloat (operation : Binary64 → Binary64 → Binary64) (a b : Number) : Option Binary64 :=
  match a.toFloat?, b.toFloat? with
  | some x, some y => some (operation x y)
  | _, _ => none

def add : Number → Number → Option Number
  | .int a, .int b => some (.int (a + b))
  | a, b => (viaFloat Binary64.add a b).map .float

def sub : Number → Number → Option Number
  | .int a, .int b => some (.int (a - b))
  | a, b => (viaFloat Binary64.sub a b).map .float

def mul : Number → Number → Option Number
  | .int a, .int b => some (.int (a * b))
  | a, b => (viaFloat Binary64.mul a b).map .float

/-- the quotient by a divisor that is not zero -/
def div : Number → Number → Option Number
  | .int a, .int b => if a % b = 0 then some (.int (a / b)) else (Binary64.quotient? a b).map integral
  | a, b => (viaFloat Binary64.div a b).map integral

end Number

namespace Operator

/-- what a comparison says of two numbers in the given order -/
def holds (order : Option Ordering) : Operator → Bool
  | .greater => order = some .gt
  | .less => order = some .lt
  | .greaterEqual => order = some .gt || order = some .eq
  | .lessEqual => order = some .lt || order = some .eq
  | .equal => order = some .eq
  | .notEqual => order ≠ some .eq
  | _ => false

/-- an operator on two numbers; the fault is for the position of the operation -/
def onNumbers (operator : Operator) (position : Int) (a b : Number) : Except Fault Value :=
  let checked (result : Option Number) : Except Fault Value :=
    match result with
    | some number => .ok number.toValue
    | none => .error (.overflow operator.label position)
  match operator with
  | .add => checked (a.add b)
  | .sub => checked (a.sub b)
  | .mul => checked (a.mul b)
  | .div => if b.isZero then .error (.divisionByZero position) else checked (a.div b)
  | comparison => .ok (.bool (comparison.holds (a.order? b)))

/-- an operator on two values, which must be numbers -/
def onValues (operator : Operator) (position : Int) (left right : Value) : Except Fault Value :=
  match Number.ofValue? left, Number.ofValue? right with
  | some a, some b => operator.onNumbers position a b
  | _, _ => .error (.operands operator.label left.typeName right.typeName position)

/-- an operation of a tree: its operator must be a scalar, and one that is known -/
def operate (position : Int) (operator : Json) (left right : Value) : Except Stop Value :=
  match operator with
  | .list _ => .error (.abort .unusableName)
  | .object _ => .error (.abort .unusableName)
  | .text spelling =>
    match ofLabel? spelling with
    | some known => (known.onValues position left right).mapError .fault
    | none => .error (.fault (.unknownOperator operator position))
  | _ => .error (.fault (.unknownOperator operator position))

end Operator

end LetScript
