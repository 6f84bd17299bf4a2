/-
What values are called, which of them are true, and how they read.

A value's text is what `print` shows. A number that is whole is written as an integer, whatever its type. The items of
a list are joined by commas, and a null item leaves its place empty. An integer of too many digits has no text, and neither
has a value that holds one.
-/
import LetScript.Tree
import LetScript.Fault

namespace LetScript.Value

/-- the name of a value's type in messages -/
def typeName : Value → String
  | .null => "Null"
  | .bool _ => "Boolean"
  | .int _ => "Number"
  | .float _ => "Number"
  | .text _ => "String"
  | .list _ => "Sequence"
  | .record _ => "dict"
  | .function .. => "Function"
  | .builtin _ => "BuiltinFunction"

/-- whether a value counts as true; lists and functions always do, even when empty -/
def isTruthy : Value → Bool
  | .null => false
  | .bool b => b
  | .int n => n ≠ 0
  | .float x => !x.isZero
  | .text s => !s.isEmpty
  | _ => true

def isNumber : Value → Bool
  | .int _ => true
  | .float _ => true
  | _ => false

/-! ## Text -/

/-- the names of parameters, all of which must be texts -/
def parameterNames : List Json → Except Abort (List String)
  | [] => .ok []
  | .text name :: rest =>
    match parameterNames rest with
    | .ok names => .ok (name :: names)
    | .error abort => .error abort
  | _ :: _ => .error .unnamedParameter

/-- the parameters with spaces between them -/
def parameterList (params : List Json) : Except Abort String :=
  match parameterNames params with
  | .ok names => .ok (" ".intercalate names)
  | .error abort => .error abort

/-- the digits of an integer -/
def integerText (n : Int) : Except Abort String :=
  match Numeral.write n with
  | some digits => .ok digits
  | none => .error .numeralTooLong

/-- a double-precision number: as an integer when it is whole -/
def floatText (x : Binary64) : String :=
  match x.truncate? with
  | some n => if x.isWhole then Numeral.text n else x.text
  | none => x.text

mutual

/-- the text of a value, as `print` shows it -/
def shown : Value → Except Abort String
  | .null => .ok "null"
  | .bool b => .ok (if b then "true" else "false")
  | .int n => integerText n
  | .float x => .ok (floatText x)
  | .text s => .ok s
  | .list items =>
    match itemTexts items with
    | .ok texts => .ok (",".intercalate texts)
    | .error abort => .error abort
  | .record fields =>
    if Json.fieldsWritable fields then .ok (Json.inspect (.object fields)) else .error .numeralTooLong
  | .function [] _ => .ok "<fn>"
  | .function (first :: rest) _ =>
    match parameterList (first :: rest) with
    | .ok names => .ok ("<fn " ++ names ++ ">")
    | .error abort => .error abort
  | .builtin name => .ok ("<builtin " ++ name ++ ">")

/-- the texts of the items of a list; a null item is empty -/
def itemTexts : List Value → Except Abort (List String)
  | [] => .ok []
  | .null :: rest =>
    match itemTexts rest with
    | .ok texts => .ok ("" :: texts)
    | .error abort => .error abort
  | item :: rest =>
    match shown item with
    | .error abort => .error abort
    | .ok first =>
      match itemTexts rest with
      | .ok texts => .ok (first :: texts)
      | .error abort => .error abort

end

end LetScript.Value
