/-
Evaluation of trees.

A variable is bound to a node, not to a value: reading it evaluates the node again. A function is bound unevaluated and
called by name; its body runs in a scope of its own on top of the scopes open at the call, whatever happens inside it. The
arguments are all evaluated, in that scope, before a parameter is bound.

A run works on a machine, the scope together with a journal of what was printed and traced, and ends in a value or in the
reason why there is none; either way the machine it leaves counts. `step` says what one node does given how its parts are
evaluated, and `evaluate` ties the knot with a budget for the depth of nesting.

What is left of the budget is the room of a step. Its parts take it up one by one as they nest; opening the scope of a call
and tracing the call nest a few levels deeper than that, for a moment, and there the budget may be used up as well.

The level of the tracing decides which steps are traced: calls from 1, bindings from 2, conditions and loops from 3. Tracing
is part of the run: a line that cannot be put together or that the trace does not take ends it. A call is announced when its
scope has been opened and before anything sees to it that the scope is closed, so a call that cannot be announced, because
the trace does not take the line or because there is no room for it, leaves its scope open.
-/
import LetScript.Scope
import LetScript.Arithmetic
import LetScript.Text.Surrogate

namespace LetScript.Evaluation

/-! ## Machines and runs -/

/-- something a run shows: a printed line, or a line of the trace about a call, its end, or anything else -/
inductive Event where
  | printed (line : String)
  | called (name : String) (given depth : Nat)
  | returned (name : String) (depth : Nat)
  | noted (line : String)
  deriving DecidableEq

/-- the line that an event shows -/
def Event.line : Event → String
  | .printed line => line
  | .called name given depth =>
    "call " ++ name ++ "/" ++ Nat.repr given ++ " (depth " ++ Nat.repr depth ++ ")"
  | .returned name depth => "return from " ++ name ++ " (depth " ++ Nat.repr depth ++ ")"
  | .noted line => line

/-- whether an event belongs to the trace -/
def Event.isTraced : Event → Bool
  | .printed _ => false
  | _ => true

/-- how much is traced, and whether the trace takes only lines that have an encoding; a level by itself is for a trace that
takes every line -/
structure Tracing where
  level : Nat
  encoded : Bool

instance (level : Nat) : OfNat Tracing level := ⟨⟨level, false⟩⟩

/-- what a run works on -/
structure Machine where
  scope : Scope
  /-- what was shown, latest first -/
  journal : List Event

/-- a computation on a machine -/
def Run (α : Type) := Machine → Except Stop α × Machine

namespace Run

/-- ends in a value at once -/
def pure {α : Type} (value : α) : Run α := fun machine => (.ok value, machine)

/-- goes on with the value, if there is one -/
def bind {α β : Type} (run : Run α) (go : α → Run β) : Run β := fun machine =>
  match run machine with
  | (.ok value, next) => go value next
  | (.error stop, next) => (.error stop, next)

instance : Monad Run where
  pure := Run.pure
  bind := Run.bind

/-- ends without a value -/
def halt {α : Type} (stop : Stop) : Run α := fun machine => (.error stop, machine)

/-- ends as a computation without machine did -/
def lift {α : Type} (outcome : Except Stop α) : Run α := fun machine => (outcome, machine)

/-- ends as a computation that can only abort did -/
def orAbort {α : Type} (outcome : Except Abort α) : Run α := lift (outcome.mapError .abort)

/-- adds to the journal -/
def emit (event : Event) : Run Unit := fun machine =>
  (.ok (), { machine with journal := event :: machine.journal })

/-- asks something about the scope -/
def ask {α : Type} (question : Scope → α) : Run α := fun machine => (.ok (question machine.scope), machine)

/-- adds an event to the trace, if the trace takes its line -/
def record (tracing : Tracing) (event : Event) : Run Unit :=
  if tracing.encoded && !Text.isEncodable event.line then halt (.abort .unencodable) else emit event

/-- adds a line to the trace, which is put together only if the level reaches the threshold -/
def trace (tracing : Tracing) (threshold : Nat) (line : Unit → Except Abort String) : Run Unit :=
  if threshold ≤ tracing.level then do
    let text ← orAbort (line ())
    record tracing (.noted text)
  else pure ()

/-- goes on where there is room to nest so much deeper -/
def reserve (room depth : Nat) : Run Unit := if depth ≤ room then pure () else halt .exhausted

/-- how deep a call nests to open its scope -/
def openingDepth : Nat := 2

/-- how deep a call nests to put a line into the trace -/
def lineDepth : Nat := 4

/-- how deep a call nests to pass on a line that is in the trace -/
def passingDepth : Nat := 5

/-- adds to the trace what is to be said about a call at the depth reached, if the level asks for it; the room may be used up
before the line is in the trace, or after that -/
def traceCall (tracing : Tracing) (room : Nat) (event : Nat → Event) : Run Unit :=
  if 1 ≤ tracing.level then do
    reserve room lineDepth
    let depth ← ask Scope.depth
    record tracing (event depth)
    reserve room passingDepth
  else pure ()

/-- the node a name is bound to -/
def fetch (name : Json) (position : Int) : Run Node := fun machine => (machine.scope.fetch name position, machine)

/-- binds a name in the current frame -/
def assign (name : Json) (node : Node) : Run Unit := fun machine =>
  match Name.ofJson? name with
  | some name => (.ok (), { machine with scope := machine.scope.assign name node })
  | none => (.error (.abort .unusableName), machine)

/-- opens a scope -/
def enter : Run Unit := fun machine => (.ok (), { machine with scope := machine.scope.push })

/-- closes the newest scope -/
def leave : Run Unit := fun machine =>
  match machine.scope.pop? with
  | some outer => (.ok (), { machine with scope := outer })
  | none => (.error (.abort .noOpenScope), machine)

/-- runs, and afterwards does something else, however the run ended -/
def andFinally {α : Type} (run : Run α) (after : Run Unit) : Run α := fun machine =>
  let (outcome, inner) := run machine
  match after inner with
  | (.ok (), last) => (outcome, last)
  | (.error stop, last) => (.error stop, last)

/-- runs in a scope of its own, as the call of a name: announces it, and from then on closes the scope and says so, however
the run ends -/
def inCall {α : Type} (tracing : Tracing) (room : Nat) (name : String) (given : Nat) (run : Run α) : Run α := do
  reserve room openingDepth
  enter
  traceCall tracing room (.called name given)
  andFinally run do
    leave
    traceCall tracing room (.returned name)

/-- runs a number of times and collects the values; `done` holds the earlier ones, latest first -/
def repeated {α : Type} (run : Run α) : Nat → List α → Run (List α)
  | 0, done => fun machine => (.ok done.reverse, machine)
  | times + 1, done => fun machine =>
    match run machine with
    | (.ok value, next) => repeated run times (value :: done) next
    | (.error stop, next) => (.error stop, next)

end Run

open Run

/-! ## One step -/

/-- evaluates nodes in order -/
def evaluateAll (eval : Node → Run Value) : List Node → Run (List Value)
  | [] => return []
  | node :: rest => do
    let first ← eval node
    let others ← evaluateAll eval rest
    return first :: others

/-- whether a mode marks a loop -/
def isLoop : Json → Bool
  | .text mode => mode = "loop"
  | _ => false

/-- a loop: the count once, then the body as often as it says -/
def runLoop (tracing : Tracing) (eval : Node → Run Value) : List Node → Run Value
  | [count, body] => do
    match ← eval count with
    | .int (.ofNat times) =>
      trace tracing 3 fun _ => (Value.integerText times).map ("loop x" ++ ·)
      return .list (← repeated (eval body) times [])
    | other =>
      let shown ← orAbort other.shown
      halt (.fault (.loopCount other.typeName shown count.position))
  | _ => halt (.abort .malformedLoop)

/-- binds a name to an expression. A function is bound as it is; anything else is evaluated first, for its value. -/
def runAssign (tracing : Tracing) (eval : Node → Run Value) (name : Json) (expression : Node) : Run Value :=
  match expression with
  | .lambda _ params _ => do
    assign name expression
    trace tracing 2 fun _ =>
      (Value.parameterList params).map fun names => "assign " ++ name.spelled ++ " := <fn " ++ names ++ ">"
    return .text "fn"
  | _ => do
    let value ← eval expression
    assign name expression
    trace tracing 2 fun _ => value.shown.map fun shown => "assign " ++ name.spelled ++ " := " ++ shown
    return value

/-- shows a value on a line of its own; the value of that is the text -/
def runPrint (eval : Node → Run Value) (position : Int) (args : List Node) : Run Value :=
  match args with
  | [arg] => do
    let value ← eval arg
    let shown ← orAbort value.shown
    emit (.printed shown)
    return .text shown
  | _ => halt (.fault (.arity (.text "print") 1 args.length position))

/-- binds parameters to literals, each at the position of its argument -/
def bindAll : List Json → List Node → List Value → Run Unit
  | param :: params, arg :: args, value :: values => do
    assign param (.literal arg.position value)
    bindAll params args values
  | _, _, _ => return ()

/-- a call of a function by name, inside the scope of the call -/
def applyNamed (eval : Node → Run Value) (position : Int) (name : Json) (args : List Node) : Run Value := do
  let callee ← fetch name position
  match ← eval callee with
  | .function params body =>
    if params.length ≠ args.length then halt (.fault (.arity name params.length args.length position))
    else
      let values ← evaluateAll eval args
      bindAll params args values
      eval body
  | other => halt (.fault (.notCallable name other.typeName position))

/-- a call of a function by name, in a scope of its own -/
def runNamed (tracing : Tracing) (room : Nat) (eval : Node → Run Value) (position : Int) (name : Json) (args : List Node) :
    Run Value :=
  inCall tracing room name.spelled args.length (applyNamed eval position name args)

/-- a call: the name `print` is built in, any other is looked up -/
def runCall (tracing : Tracing) (room : Nat) (eval : Node → Run Value) (position : Int) (name : Json) (args : List Node) :
    Run Value :=
  match Key.ofJson? name with
  | none => halt (.abort .unusableName)
  | some key => if key = .text "print" then runPrint eval position args else runNamed tracing room eval position name args

/-- a conditional -/
def runConditional (tracing : Tracing) (eval : Node → Run Value) (condition consequent alternative : Node) :
    Run Value := do
  let value ← eval condition
  trace tracing 3 fun _ => value.shown.map fun shown =>
    "if condition " ++ shown ++ " -> " ++ (if value.isTruthy then "True" else "False")
  if value.isTruthy then eval consequent else eval alternative

/-- what a node does, given the room and how nodes are evaluated in it -/
def step (tracing : Tracing) (room : Nat) (eval : Node → Run Value) : Node → Run Value
  | .statements _ mode nodes =>
    if isLoop mode then runLoop tracing eval nodes
    else do return .list (← evaluateAll eval nodes)
  | .operation position operator left right => do
    let a ← eval left
    let b ← eval right
    lift (Operator.operate position operator a b)
  | .literal _ value => return value
  | .reference position name => do
    let node ← fetch name position
    eval node
  | .assign _ name expression => runAssign tracing eval name expression
  | .lambda _ params body => return .function params body
  | .call position name args => runCall tracing room eval position name args
  | .conditional _ condition consequent alternative => runConditional tracing eval condition consequent alternative
  | .blank position => halt (.fault (.unexpectedNode position))

/-! ## Evaluation -/

/-- evaluates a node with a budget for the depth of nesting -/
def evaluate (tracing : Tracing) : Nat → Node → Run Value
  | 0, _ => halt .exhausted
  | budget + 1, node => step tracing budget (evaluate tracing budget) node

/-- the budget of ordinary runs -/
def defaultBudget : Nat := 10000

end LetScript.Evaluation
