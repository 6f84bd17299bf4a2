/-
Why a run stops without a value.

A `Fault` is an error of the program, with everything its message says; `Fault.diagnostic` words it. An `Abort` is an
error the language has no words for: it comes from numbers too long to write, and from stored trees whose parts do not fit.
Beside these a run may use up its depth budget.
-/
import LetScript.Json
import LetScript.Diagnostic

namespace LetScript

/-- an error of the program -/
inductive Fault where
  | unbound (name : Json) (position : Int)
  | arity (name : Json) (expected given : Int) (position : Int)
  | notCallable (name : Json) (found : String) (position : Int)
  | operands (operator : String) (left right : String) (position : Int)
  | loopCount (found shown : String) (position : Int)
  | divisionByZero (position : Int)
  | overflow (operator : String) (position : Int)
  | unknownOperator (operator : Json) (position : Int)
  | unexpectedNode (position : Int)

namespace Fault

def position : Fault → Int
  | .unbound _ p => p
  | .arity _ _ _ p => p
  | .notCallable _ _ p => p
  | .operands _ _ _ p => p
  | .loopCount _ _ p => p
  | .divisionByZero p => p
  | .overflow _ p => p
  | .unknownOperator _ p => p
  | .unexpectedNode p => p

def kind : Fault → DiagnosticKind
  | .unbound .. => .unboundVariable
  | .arity .. => .arityMismatch
  | .notCallable .. => .notCallable
  | .operands .. => .typeMismatch
  | .loopCount .. => .typeMismatch
  | .divisionByZero _ => .divisionByZero
  | .overflow .. => .numericOverflow
  | .unknownOperator .. => .unknownOperator
  | .unexpectedNode _ => .unexpectedNode

def message : Fault → String
  | .unbound name _ => "variable " ++ name.spelled ++ " hasn't been bound to any value"
  | .arity name expected given _ =>
    "Arity of \"" ++ name.spelled ++ "\" is " ++ Numeral.text expected ++ ", but " ++ Numeral.text given ++ " given"
  | .notCallable name found _ => "\"" ++ name.spelled ++ "\" is not a function but a " ++ found
  | .operands operator left right _ =>
    "operator " ++ operator ++ " expects numbers, got " ++ left ++ " and " ++ right
  | .loopCount found shown _ => "loop count must be a non-negative integer, got " ++ found ++ " " ++ shown
  | .divisionByZero _ => "division by zero"
  | .overflow operator _ => "result of " ++ operator ++ " is too large"
  | .unknownOperator operator _ => "Unexpected operator " ++ operator.spelled
  | .unexpectedNode _ => "Unexpected Node Node"

/-- a fault in words -/
def diagnostic (fault : Fault) : Diagnostic := ⟨fault.kind, fault.message, fault.position⟩

end Fault

/-- an error that is not one of the program's own -/
inductive Abort where
  /-- an integer has more digits than are read or written -/
  | numeralTooLong
  /-- a loop does not have exactly a count and a body -/
  | malformedLoop
  /-- a list or an object stands for a name or an operator -/
  | unusableName
  /-- a parameter that is no text would have to be shown -/
  | unnamedParameter
  /-- a scope is closed though none is open -/
  | noOpenScope
  /-- a trace line holds half of a surrogate pair, which the trace file cannot -/
  | unencodable
  deriving DecidableEq

/-- why a run stops without a value -/
inductive Stop where
  | fault (fault : Fault)
  | abort (abort : Abort)
  /-- the depth budget is used up -/
  | exhausted

end LetScript
