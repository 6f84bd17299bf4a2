/-
Variable scopes: a stack of frames that bind names to nodes.

Opening a scope puts the current frame on the stack and starts an empty one; closing it brings the frame back as it was.
A name is looked up in the current frame, then in the frames on the stack from the newest to the oldest. Binding changes
the current frame only.

Names are compared as keys: every scalar of a stored tree has one, and numbers of equal value have the same key whatever
their type, with true and false as one and zero. Lists and objects have none. A binding keeps the spelling that its name had
when it was first bound in the frame.
-/
import LetScript.Tree
import LetScript.Fault

namespace LetScript

/-! ## Keys -/

/-- what a name is looked up by -/
inductive Key where
  | null
  | whole (n : Int)
  | fraction (x : Binary64)
  | text (s : String)
  deriving DecidableEq

namespace Key

/-- the key of a number -/
def ofFloat (x : Binary64) : Key :=
  match x.truncate? with
  | some n => if x.isWhole then .whole n else .fraction x
  | none => .fraction x

/-- the key of a name; lists and objects have none -/
def ofJson? : Json → Option Key
  | .null => some .null
  | .bool b => some (.whole (if b then 1 else 0))
  | .int n => some (.whole n)
  | .float x => some (ofFloat x)
  | .text s => some (.text s)
  | .list _ => none
  | .object _ => none

/-- the order of two keys: numbers by value, texts by their characters; none between different sorts of keys -/
def order? : Key → Key → Option Ordering
  | .null, .null => some .eq
  | .whole m, .whole n => some (compare m n)
  | .whole m, .fraction y => Binary64.orderOfInt? m y
  | .fraction x, .whole n => (Binary64.orderOfInt? n x).map Ordering.swap
  | .fraction x, .fraction y => Binary64.order? x y
  | .text s, .text t => some (compare s t)
  | _, _ => none

/-- whether a key may stand before another in a listing -/
def precedes (a b : Key) : Bool := a.order? b ≠ some .gt

end Key

/-! ## Names -/

/-- a name: how it is spelled, and what it is looked up by -/
structure Name where
  spelling : Json
  key : Key

namespace Name

/-- the name that a part of a stored tree is, unless it is a list or an object -/
def ofJson? (spelling : Json) : Option Name := (Key.ofJson? spelling).map fun key => ⟨spelling, key⟩

/-- the name with the given text -/
def ofText (text : String) : Name := ⟨.text text, .text text⟩

end Name

/-! ## Frames -/

/-- bindings in the order in which their names were first bound -/
abbrev Frame := List (Name × Node)

namespace Frame

/-- the node a key is bound to -/
def get? (key : Key) : Frame → Option Node
  | [] => none
  | (bound, node) :: rest => if bound.key = key then some node else get? key rest

/-- binds a name, in the place of an earlier binding of its key and under the spelling of that -/
def set (name : Name) (node : Node) : Frame → Frame
  | [] => [(name, node)]
  | (bound, old) :: rest =>
    if bound.key = name.key then (bound, node) :: rest else (bound, old) :: set name node rest

/-- the bindings in the order of their names -/
def sorted (frame : Frame) : Frame := frame.mergeSort fun a b => a.1.key.precedes b.1.key

end Frame

/-! ## Scopes -/

/-- the current frame and the frames under it, newest first -/
structure Scope where
  frames : List Frame
  current : Frame

namespace Scope

def empty : Scope := ⟨[], []⟩

/-- how many scopes are open -/
def depth (scope : Scope) : Nat := scope.frames.length

/-- opens a scope -/
def push (scope : Scope) : Scope := ⟨scope.current :: scope.frames, []⟩

/-- closes the newest scope, if one is open -/
def pop? (scope : Scope) : Option Scope :=
  match scope.frames with
  | frame :: rest => some ⟨rest, frame⟩
  | [] => none

/-- binds a name in the current frame -/
def assign (name : Name) (node : Node) (scope : Scope) : Scope :=
  { scope with current := scope.current.set name node }

/-- the node a key is bound to in the newest frame that binds it -/
def lookup? (key : Key) : List Frame → Option Node
  | [] => none
  | frame :: rest =>
    match frame.get? key with
    | some node => some node
    | none => lookup? key rest

/-- the node a key is bound to -/
def fetch? (key : Key) (scope : Scope) : Option Node := lookup? key (scope.current :: scope.frames)

/-- the node a name is bound to; the fault is for the position of the name -/
def fetch (name : Json) (position : Int) (scope : Scope) : Except Stop Node :=
  match Key.ofJson? name with
  | none => .error (.abort .unusableName)
  | some key =>
    match scope.fetch? key with
    | some node => .ok node
    | none => .error (.fault (.unbound name position))

/-- all frames, oldest first and the current one last -/
def listing (scope : Scope) : List Frame := (scope.current :: scope.frames).reverse

end Scope

end LetScript
