/-
JSON documents.

Integers and decimals are kept apart, an object keeps its fields in order, and no name occurs twice in it. Besides the
type this module holds what the interchange format needs of a document: a field of an object, whether a value counts
as empty, and how a value reads inside a message (`spelled`) or as an item of a larger value (`inspect`).
-/
import LetScript.Binary64.Decimal
import LetScript.Text.Quoted

namespace LetScript

/-- a JSON document -/
inductive Json where
  | null
  | bool (b : Bool)
  | int (n : Int)
  | float (x : Binary64)
  | text (s : String)
  | list (items : List Json)
  | object (fields : List (String × Json))

namespace Json

instance : Inhabited Json := ⟨.null⟩

/-! ## Fields and emptiness -/

/-- the value of the named field -/
def field? (name : String) : List (String × Json) → Option Json
  | [] => none
  | (key, value) :: rest => if key = name then some value else field? name rest

/-- whether a value stands for something: not null, false, a zero, or an empty text, list or object -/
def isPresent : Json → Bool
  | .null => false
  | .bool b => b
  | .int n => n ≠ 0
  | .float x => !x.isZero
  | .text s => !s.isEmpty
  | .list items => !items.isEmpty
  | .object fields => !fields.isEmpty

/-! ## Equality -/

mutual

/-- structural equality -/
def same : Json → Json → Bool
  | .null, .null => true
  | .bool a, .bool b => a = b
  | .int a, .int b => a = b
  | .float a, .float b => a = b
  | .text a, .text b => a = b
  | .list a, .list b => sameItems a b
  | .object a, .object b => sameFields a b
  | _, _ => false

/-- structural equality of lists of values -/
def sameItems : List Json → List Json → Bool
  | [], [] => true
  | a :: as, b :: bs => same a b && sameItems as bs
  | _, _ => false

/-- structural equality of lists of fields, in order -/
def sameFields : List (String × Json) → List (String × Json) → Bool
  | [], [] => true
  | (k, a) :: as, (l, b) :: bs => k = l && same a b && sameFields as bs
  | _, _ => false

end

/-! ## As text -/

mutual

/-- a value as an item of a larger one: texts are quoted, lists and objects in brackets -/
def inspect : Json → String
  | .null => "None"
  | .bool b => if b then "True" else "False"
  | .int n => Numeral.text n
  | .float x => x.text
  | .text s => Text.quoted s
  | .list items => "[" ++ ", ".intercalate (inspectItems items) ++ "]"
  | .object fields => "\x7b" ++ ", ".intercalate (inspectFields fields) ++ "\x7d"

/-- the items of a list, each as text -/
def inspectItems : List Json → List String
  | [] => []
  | item :: rest => inspect item :: inspectItems rest

/-- the fields of an object, each as text -/
def inspectFields : List (String × Json) → List String
  | [] => []
  | (key, value) :: rest => (Text.quoted key ++ ": " ++ inspect value) :: inspectFields rest

end

mutual

/-- whether no integer in a value has more digits than are written -/
def isWritable : Json → Bool
  | .int n => (Numeral.write n).isSome
  | .list items => areWritable items
  | .object fields => fieldsWritable fields
  | _ => true

/-- whether this holds for all items of a list -/
def areWritable : List Json → Bool
  | [] => true
  | item :: rest => isWritable item && areWritable rest

/-- whether this holds for all fields of an object -/
def fieldsWritable : List (String × Json) → Bool
  | [] => true
  | (_, value) :: rest => isWritable value && fieldsWritable rest

end

/-- a value inside a message: a text as it is, anything else as `inspect` shows it -/
def spelled : Json → String
  | .text s => s
  | other => inspect other

end Json

end LetScript
