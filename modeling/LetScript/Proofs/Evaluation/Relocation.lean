/-
A run does not depend on where its nodes stand, nor on what was shown before it.

`Node.relocate f` puts every position in a node through `f`, those in the values and functions it holds included; values,
stops and scopes are relocated with it. `Moves f events run run'` says that the second run, from the relocated machine with
`events` in its journal from before, ends as the first does, relocated, with the same lines added to the journal. It holds of
every action and is passed on by sequences and calls, so it holds of evaluation: `evaluate_moves`.
-/
import LetScript.Proofs.Arithmetic
import LetScript.Proofs.Evaluation.Composition

namespace LetScript

/-! ## Trees and values -/

mutual

/-- a node with its positions put through a function -/
def Node.relocate (f : Int → Int) : Node → Node
  | .statements p mode nodes => .statements (f p) mode (Node.relocateAll f nodes)
  | .operation p operator left right => .operation (f p) operator (left.relocate f) (right.relocate f)
  | .literal p value => .literal (f p) (value.relocate f)
  | .reference p name => .reference (f p) name
  | .assign p name expression => .assign (f p) name (expression.relocate f)
  | .lambda p params body => .lambda (f p) params (body.relocate f)
  | .call p name args => .call (f p) name (Node.relocateAll f args)
  | .conditional p condition consequent alternative =>
    .conditional (f p) (condition.relocate f) (consequent.relocate f) (alternative.relocate f)
  | .blank p => .blank (f p)

/-- nodes with their positions put through a function -/
def Node.relocateAll (f : Int → Int) : List Node → List Node
  | [] => []
  | node :: rest => node.relocate f :: Node.relocateAll f rest

/-- a value with the positions of the functions in it put through a function -/
def Value.relocate (f : Int → Int) : Value → Value
  | .list items => .list (Value.relocateAll f items)
  | .function params body => .function params (body.relocate f)
  | value => value

/-- values with the positions of the functions in them put through a function -/
def Value.relocateAll (f : Int → Int) : List Value → List Value
  | [] => []
  | value :: rest => value.relocate f :: Value.relocateAll f rest

end

@[simp] theorem Node.relocateAll_eq (f : Int → Int) (nodes : List Node) :
    Node.relocateAll f nodes = nodes.map (·.relocate f) := by
  induction nodes with
  | nil => rfl
  | cons node rest ih => rw [Node.relocateAll, ih, List.map_cons]

@[simp] theorem Value.relocateAll_eq (f : Int → Int) (values : List Value) :
    Value.relocateAll f values = values.map (·.relocate f) := by
  induction values with
  | nil => rfl
  | cons value rest ih => rw [Value.relocateAll, ih, List.map_cons]

mutual

theorem Node.relocate_id : (node : Node) → node.relocate id = node
  | .statements p mode nodes => by rw [Node.relocate, Node.relocateAll_id nodes, id]
  | .operation p operator left right => by rw [Node.relocate, left.relocate_id, right.relocate_id, id]
  | .literal p value => by rw [Node.relocate, value.relocate_id, id]
  | .reference p name => rfl
  | .assign p name expression => by rw [Node.relocate, expression.relocate_id, id]
  | .lambda p params body => by rw [Node.relocate, body.relocate_id, id]
  | .call p name args => by rw [Node.relocate, Node.relocateAll_id args, id]
  | .conditional p condition consequent alternative => by
    rw [Node.relocate, condition.relocate_id, consequent.relocate_id, alternative.relocate_id, id]
  | .blank p => rfl

theorem Node.relocateAll_id : (nodes : List Node) → Node.relocateAll id nodes = nodes
  | [] => rfl
  | node :: rest => by rw [Node.relocateAll, node.relocate_id, Node.relocateAll_id rest]

theorem Value.relocate_id : (value : Value) → value.relocate id = value
  | .list items => by rw [Value.relocate, Value.relocateAll_id items]
  | .function params body => by rw [Value.relocate, body.relocate_id]
  | .null => rfl
  | .bool _ => rfl
  | .int _ => rfl
  | .float _ => rfl
  | .text _ => rfl
  | .record _ => rfl
  | .builtin _ => rfl

theorem Value.relocateAll_id : (values : List Value) → Value.relocateAll id values = values
  | [] => rfl
  | value :: rest => by rw [Value.relocateAll, value.relocate_id, Value.relocateAll_id rest]

end

section

variable (f g : Int → Int)

mutual

theorem Node.relocate_relocate : (node : Node) → (node.relocate f).relocate g = node.relocate (g ∘ f)
  | .statements p mode nodes => by rw [Node.relocate, Node.relocate, Node.relocate, Node.relocateAll_relocateAll nodes]; rfl
  | .operation p operator left right => by
    rw [Node.relocate, Node.relocate, Node.relocate, left.relocate_relocate, right.relocate_relocate]; rfl
  | .literal p value => by rw [Node.relocate, Node.relocate, Node.relocate, value.relocate_relocate]; rfl
  | .reference p name => rfl
  | .assign p name expression => by rw [Node.relocate, Node.relocate, Node.relocate, expression.relocate_relocate]; rfl
  | .lambda p params body => by rw [Node.relocate, Node.relocate, Node.relocate, body.relocate_relocate]; rfl
  | .call p name args => by rw [Node.relocate, Node.relocate, Node.relocate, Node.relocateAll_relocateAll args]; rfl
  | .conditional p condition consequent alternative => by
    rw [Node.relocate, Node.relocate, Node.relocate, condition.relocate_relocate, consequent.relocate_relocate,
      alternative.relocate_relocate]
    rfl
  | .blank p => rfl

theorem Node.relocateAll_relocateAll : (nodes : List Node) →
    Node.relocateAll g (Node.relocateAll f nodes) = Node.relocateAll (g ∘ f) nodes
  | [] => rfl
  | node :: rest => by
    rw [Node.relocateAll, Node.relocateAll, Node.relocateAll, node.relocate_relocate, Node.relocateAll_relocateAll rest]

theorem Value.relocate_relocate : (value : Value) → (value.relocate f).relocate g = value.relocate (g ∘ f)
  | .list items => by rw [Value.relocate, Value.relocate, Value.relocate, Value.relocateAll_relocateAll items]
  | .function params body => by rw [Value.relocate, Value.relocate, Value.relocate, body.relocate_relocate]
  | .null => rfl
  | .bool _ => rfl
  | .int _ => rfl
  | .float _ => rfl
  | .text _ => rfl
  | .record _ => rfl
  | .builtin _ => rfl

theorem Value.relocateAll_relocateAll : (values : List Value) →
    Value.relocateAll g (Value.relocateAll f values) = Value.relocateAll (g ∘ f) values
  | [] => rfl
  | value :: rest => by
    rw [Value.relocateAll, Value.relocateAll, Value.relocateAll, value.relocate_relocate, Value.relocateAll_relocateAll rest]

end

end

/-! ## What does not change -/

@[simp] theorem Node.position_relocate (f : Int → Int) (node : Node) : (node.relocate f).position = f node.position := by
  cases node <;> rfl

namespace Value

variable (f : Int → Int)

@[simp] theorem typeName_relocate (value : Value) : (value.relocate f).typeName = value.typeName := by
  cases value <;> rfl

@[simp] theorem isTruthy_relocate (value : Value) : (value.relocate f).isTruthy = value.isTruthy := by
  cases value <;> rfl

@[simp] theorem ofValue?_relocate (value : Value) : Number.ofValue? (value.relocate f) = Number.ofValue? value := by
  cases value <;> rfl

@[simp] theorem relocate_toValue (number : Number) : number.toValue.relocate f = number.toValue := by
  cases number <;> rfl

mutual

theorem shown_relocate : (value : Value) → (value.relocate f).shown = value.shown
  | .list items => by rw [relocate, shown, shown, itemTexts_relocate items]
  | .function [] body => rfl
  | .function (first :: rest) body => rfl
  | .null => rfl
  | .bool _ => rfl
  | .int _ => rfl
  | .float _ => rfl
  | .text _ => rfl
  | .record _ => rfl
  | .builtin _ => rfl

theorem itemTexts_relocate : (items : List Value) → itemTexts (relocateAll f items) = itemTexts items
  | [] => rfl
  | item :: rest => by
    have hitem := shown_relocate item
    have hrest := itemTexts_relocate rest
    cases item <;> simp only [relocateAll, relocate, itemTexts, hrest] at hitem ⊢ <;> simp only [hitem]

end

end Value

/-! ## Stops and outcomes -/

/-- a fault with its position put through a function -/
def Fault.relocate (f : Int → Int) : Fault → Fault
  | .unbound name p => .unbound name (f p)
  | .arity name expected given p => .arity name expected given (f p)
  | .notCallable name found p => .notCallable name found (f p)
  | .operands operator left right p => .operands operator left right (f p)
  | .loopCount found shown p => .loopCount found shown (f p)
  | .divisionByZero p => .divisionByZero (f p)
  | .overflow operator p => .overflow operator (f p)
  | .unknownOperator operator p => .unknownOperator operator (f p)
  | .unexpectedNode p => .unexpectedNode (f p)

/-- a relocated fault reads the same, at another position -/
theorem Fault.diagnostic_relocate (f : Int → Int) (fault : Fault) :
    (fault.relocate f).diagnostic = { fault.diagnostic with position := f fault.position } := by
  cases fault <;> rfl

/-- a stop with its position, if it has one, put through a function -/
def Stop.relocate (f : Int → Int) : Stop → Stop
  | .fault cause => .fault (cause.relocate f)
  | stop => stop

namespace Evaluation

/-- an outcome that is relocated, values by `move` -/
def relocateOutcome {α : Type} (f : Int → Int) (move : α → α) : Except Stop α → Except Stop α
  | .ok a => .ok (move a)
  | .error stop => .error (stop.relocate f)

theorem onNumbers_relocate (f : Int → Int) (operator : Operator) (position : Int) (a b : Number) :
    (operator.onNumbers (f position) a b).mapError Stop.fault =
      relocateOutcome f (·.relocate f) ((operator.onNumbers position a b).mapError .fault) := by
  obtain ⟨finding, hfinding⟩ := operator.onNumbers_finds a b
  rw [hfinding, hfinding]
  cases finding with
  | number result => simp only [Operator.Finding.outcome, Except.mapError, relocateOutcome, Value.relocate_toValue]
  | answer truth => rfl
  | overflow => rfl
  | divisionByZero => rfl

/-- an operation on relocated values stands where it is relocated to -/
theorem operate_relocate (f : Int → Int) (position : Int) (operator : Json) (left right : Value) :
    Operator.operate (f position) operator (left.relocate f) (right.relocate f) =
      relocateOutcome f (·.relocate f) (Operator.operate position operator left right) := by
  cases operator with
  | text spelling =>
    simp only [Operator.operate]
    cases Operator.ofLabel? spelling with
    | none => rfl
    | some known =>
      simp only [Operator.onValues, Value.ofValue?_relocate, Value.typeName_relocate]
      split
      · exact onNumbers_relocate f known position _ _
      · rfl
  | _ => rfl

theorem countStop_relocate (f : Int → Int) (value : Value) (position : Int) :
    countStop (value.relocate f) (f position) = (countStop value position).relocate f := by
  unfold countStop
  rw [Value.shown_relocate, Value.typeName_relocate]
  cases value.shown with
  | ok shown => rfl
  | error abort => rfl

end Evaluation

/-! ## Scopes -/

/-- a frame with its positions put through a function -/
def Frame.relocate (f : Int → Int) (frame : Frame) : Frame := frame.map fun (name, node) => (name, node.relocate f)

theorem Frame.get?_relocate (f : Int → Int) (key : Key) (frame : Frame) :
    (frame.relocate f).get? key = (frame.get? key).map (·.relocate f) := by
  induction frame with
  | nil => rfl
  | cons binding rest ih =>
    obtain ⟨bound, node⟩ := binding
    simp only [Frame.relocate, List.map_cons, Frame.get?] at ih ⊢
    split_ifs
    · rfl
    · exact ih

theorem Frame.set_relocate (f : Int → Int) (name : Name) (node : Node) (frame : Frame) :
    (frame.relocate f).set name (node.relocate f) = (frame.set name node).relocate f := by
  induction frame with
  | nil => rfl
  | cons binding rest ih =>
    obtain ⟨bound, old⟩ := binding
    simp only [Frame.relocate, List.map_cons, Frame.set] at ih ⊢
    split_ifs
    · rfl
    · rw [ih, List.map_cons]

namespace Scope

/-- a scope with its positions put through a function -/
def relocate (f : Int → Int) (scope : Scope) : Scope := ⟨scope.frames.map (Frame.relocate f), Frame.relocate f scope.current⟩

variable (f : Int → Int) (scope : Scope)

theorem relocate_id : scope.relocate id = scope := by
  have hframe : Frame.relocate id = id := by
    funext frame
    simp only [Frame.relocate, Node.relocate_id, List.map_id', id]
  simp only [relocate, hframe, List.map_id, id]

theorem relocate_relocate (g : Int → Int) : (scope.relocate f).relocate g = scope.relocate (g ∘ f) := by
  have hframe : Frame.relocate g ∘ Frame.relocate f = Frame.relocate (g ∘ f) := by
    funext frame
    simp only [Frame.relocate, Function.comp_apply, List.map_map, Function.comp_def, Node.relocate_relocate]
  simp only [relocate, List.map_map, hframe]
  rw [← hframe]
  rfl

@[simp] theorem depth_relocate : (scope.relocate f).depth = scope.depth := List.length_map _

theorem pop?_relocate : (scope.relocate f).pop? = scope.pop?.map (·.relocate f) := by
  cases scope with
  | mk frames current =>
    cases frames with
    | nil => rfl
    | cons frame rest => rfl

theorem assign_relocate (name : Name) (node : Node) :
    (scope.relocate f).assign name (node.relocate f) = (scope.assign name node).relocate f := by
  simp only [assign, relocate, Frame.set_relocate]

theorem lookup?_relocate (key : Key) (frames : List Frame) :
    lookup? key (frames.map (Frame.relocate f)) = (lookup? key frames).map (·.relocate f) := by
  induction frames with
  | nil => rfl
  | cons frame rest ih =>
    simp only [List.map_cons, lookup?, Frame.get?_relocate]
    cases frame.get? key with
    | some node => rfl
    | none => exact ih

theorem fetch_relocate (name : Json) (position : Int) :
    (scope.relocate f).fetch name (f position) =
      Evaluation.relocateOutcome f (·.relocate f) (scope.fetch name position) := by
  unfold fetch
  cases Key.ofJson? name with
  | none => rfl
  | some key =>
    have hlookup : (scope.relocate f).fetch? key = (scope.fetch? key).map (·.relocate f) :=
      lookup?_relocate f key (scope.current :: scope.frames)
    simp only [hlookup]
    cases scope.fetch? key with
    | some node => rfl
    | none => rfl

end Scope

namespace Evaluation

open Run

variable {α β : Type}

/-! ## Runs -/

/-- a machine with its positions put through a function, and with events in its journal from before -/
def Machine.moved (f : Int → Int) (events : List Event) (m : Machine) : Machine := ⟨m.scope.relocate f, m.journal ++ events⟩

/-- from the moved machine the second run ends as the first does, moved -/
def Moves (f : Int → Int) (events : List Event) (move : α → α) (run run' : Run α) : Prop :=
  ∀ m, run' (m.moved f events) = (relocateOutcome f move (run m).1, (run m).2.moved f events)

namespace Moves

variable {f : Int → Int} {events : List Event} {move : α → α} {run run' : Run α}

theorem pure {a b : α} (h : move a = b) : Moves f events move (Pure.pure a) (Pure.pure b) := fun _ => by rw [← h]; rfl

theorem halt {stop stop' : Stop} (h : stop.relocate f = stop') : Moves f events move (Run.halt stop) (Run.halt stop') :=
  fun _ => by rw [← h]; rfl

theorem bind {move' : β → β} {go go' : α → Run β} (h : Moves f events move run run')
    (hgo : ∀ a, Moves f events move' (go a) (go' (move a))) : Moves f events move' (run >>= go) (run' >>= go') := by
  intro m
  have hm := h m
  rcases hr : run m with ⟨outcome, next⟩
  rw [hr] at hm
  cases outcome with
  | ok a =>
    rw [run_bind_ok hr, run_bind_ok hm]
    exact hgo a next
  | error stop =>
    rw [run_bind_error hr, run_bind_error hm]
    rfl

theorem orAbort (outcome : Except Abort α) : Moves f events id (Run.orAbort outcome) (Run.orAbort outcome) := by
  intro m
  cases outcome with
  | ok a => rfl
  | error abort => rfl

theorem emit (event : Event) : Moves f events id (Run.emit event) (Run.emit event) := fun _ => rfl

theorem record (t : Tracing) (event : Event) : Moves f events id (Run.record t event) (Run.record t event) := by
  unfold Run.record
  split_ifs
  · exact halt rfl
  · exact emit event

theorem trace (t : Tracing) (threshold : ℕ) (line : Unit → Except Abort String) :
    Moves f events id (Run.trace t threshold line) (Run.trace t threshold line) := by
  unfold Run.trace
  split_ifs
  · exact (orAbort _).bind fun text => record t _
  · exact pure rfl

theorem reserve (room depth : ℕ) : Moves f events id (Run.reserve room depth) (Run.reserve room depth) := by
  unfold Run.reserve
  split_ifs
  · exact pure rfl
  · exact halt rfl

theorem traceCall (t : Tracing) (room : ℕ) (event : ℕ → Event) :
    Moves f events id (Run.traceCall t room event) (Run.traceCall t room event) := by
  have hask : Moves f events id (Run.ask Scope.depth) (Run.ask Scope.depth) := by
    intro m
    simp only [Run.ask, Machine.moved, Scope.depth_relocate]
    rfl
  unfold Run.traceCall
  split_ifs
  · exact (reserve room _).bind fun _ => hask.bind fun depth => (record t _).bind fun _ => reserve room _
  · exact pure rfl

theorem fetch (name : Json) (position : Int) :
    Moves f events (·.relocate f) (Run.fetch name position) (Run.fetch name (f position)) := by
  intro m
  simp only [Run.fetch, Machine.moved, Scope.fetch_relocate]

theorem assign (name : Json) {node node' : Node} (h : node.relocate f = node') :
    Moves f events id (Run.assign name node) (Run.assign name node') := by
  intro m
  unfold Run.assign
  cases Name.ofJson? name with
  | none => rfl
  | some bound =>
    simp only [Machine.moved, ← h, Scope.assign_relocate]
    rfl

theorem leave : Moves f events id Run.leave Run.leave := by
  intro m
  simp only [Run.leave, Machine.moved, Scope.pop?_relocate]
  cases m.scope.pop? with
  | none => rfl
  | some outer => rfl

theorem andFinally {after after' : Run Unit} (h : Moves f events move run run') (hafter : Moves f events id after after') :
    Moves f events move (Run.andFinally run after) (Run.andFinally run' after') := by
  intro m
  have hm := h m
  rcases hr : run m with ⟨outcome, inner⟩
  rw [hr] at hm
  have hinner := hafter inner
  rcases ha : after inner with ⟨ended, last⟩
  rw [ha] at hinner
  rw [andFinally_cases hr ha, andFinally_cases hm hinner]
  cases ended with
  | ok _ => rfl
  | error stop => rfl

theorem inCall (h : Moves f events move run run') (t : Tracing) (room : ℕ) (name : String) (given : ℕ) :
    Moves f events move (Run.inCall t room name given run) (Run.inCall t room name given run') := by
  have henter : Moves f events id enter enter := fun _ => rfl
  have hsaid : ∀ event, Moves f events id (Run.traceCall t room event) (Run.traceCall t room event) := traceCall t room
  refine (reserve room _).bind fun _ => henter.bind fun _ => (hsaid _).bind fun _ => h.andFinally ?_
  exact leave.bind fun _ => hsaid _

theorem bindAll (params : List Json) (args : List Node) (values : List Value) :
    Moves f events id (Evaluation.bindAll params args values)
      (Evaluation.bindAll params (args.map (Node.relocate f)) (values.map (Value.relocate f))) := by
  induction params generalizing args values with
  | nil => exact pure rfl
  | cons param params ih =>
    cases args with
    | nil => exact pure rfl
    | cons arg args =>
      cases values with
      | nil => exact pure rfl
      | cons value values =>
        have hliteral : (Node.literal arg.position value).relocate f =
            .literal (arg.relocate f).position (value.relocate f) := by
          rw [Node.relocate, Node.position_relocate]
        exact (assign param hliteral).bind fun _ => ih args values

/-! ### Steps -/

section

variable {eval eval' : Node → Run Value}
  (he : ∀ node, Moves f events (Value.relocate f) (eval node) (eval' (node.relocate f)))

include he

theorem repeated (body : Node) (times : ℕ) (done : List Value) :
    Moves f events (List.map (Value.relocate f)) (Run.repeated (eval body) times done)
      (Run.repeated (eval' (body.relocate f)) times (done.map (Value.relocate f))) := by
  induction times generalizing done with
  | zero => exact pure List.map_reverse
  | succ times ih => exact (he body).bind fun value => ih (value :: done)

theorem evaluateAll (nodes : List Node) :
    Moves f events (List.map (Value.relocate f)) (Evaluation.evaluateAll eval nodes)
      (Evaluation.evaluateAll eval' (nodes.map (Node.relocate f))) := by
  induction nodes with
  | nil => exact pure rfl
  | cons node rest ih => exact (he node).bind fun first => ih.bind fun others => pure rfl

omit he in
/-- a list made of the values of a run -/
theorem list {run run' : Run (List Value)} (h : Moves f events (List.map (Value.relocate f)) run run') :
    Moves f events (Value.relocate f) (run >>= fun values => Pure.pure (.list values))
      (run' >>= fun values => Pure.pure (.list values)) :=
  h.bind fun values => pure (by rw [Value.relocate, Value.relocateAll_eq])

theorem runLoop (t : Tracing) (nodes : List Node) :
    Moves f events (Value.relocate f) (Evaluation.runLoop t eval nodes)
      (Evaluation.runLoop t eval' (nodes.map (Node.relocate f))) := by
  match nodes with
  | [count, body] =>
    have huncounted : ∀ value : Value, Moves f events (Value.relocate f)
        (Run.orAbort value.shown >>= fun shown => Run.halt (.fault (.loopCount value.typeName shown count.position)))
        (Run.orAbort (value.relocate f).shown >>= fun shown =>
          Run.halt (.fault (.loopCount (value.relocate f).typeName shown (count.relocate f).position))) := by
      intro value
      rw [uncounted_eq, uncounted_eq, Node.position_relocate]
      exact halt (countStop_relocate f value count.position).symm
    refine (he count).bind fun value => ?_
    cases value with
    | int n =>
      cases n with
      | ofNat times => exact (trace t 3 _).bind fun _ => list (repeated he body times [])
      | negSucc n => exact huncounted _
    | _ => exact huncounted _
  | [] => exact halt rfl
  | [_] => exact halt rfl
  | _ :: _ :: _ :: _ => exact halt rfl

theorem runAssign (t : Tracing) (name : Json) (expression : Node) :
    Moves f events (Value.relocate f) (Evaluation.runAssign t eval name expression)
      (Evaluation.runAssign t eval' name (expression.relocate f)) := by
  have hvalue : Moves f events (Value.relocate f)
      (eval expression >>= fun value => Run.assign name expression >>= fun _ =>
        Run.trace t 2 (fun _ => value.shown.map fun shown => "assign " ++ name.spelled ++ " := " ++ shown) >>= fun _ =>
          Pure.pure value)
      (eval' (expression.relocate f) >>= fun value => Run.assign name (expression.relocate f) >>= fun _ =>
        Run.trace t 2 (fun _ => value.shown.map fun shown => "assign " ++ name.spelled ++ " := " ++ shown) >>= fun _ =>
          Pure.pure value) := by
    refine (he expression).bind fun value => (assign name rfl).bind fun _ => ?_
    rw [Value.shown_relocate]
    exact (trace t 2 _).bind fun _ => pure rfl
  cases expression with
  | lambda place params body => exact (assign name rfl).bind fun _ => (trace t 2 _).bind fun _ => pure rfl
  | _ => exact hvalue

theorem runPrint (position : Int) (args : List Node) :
    Moves f events (Value.relocate f) (Evaluation.runPrint eval position args)
      (Evaluation.runPrint eval' (f position) (args.map (Node.relocate f))) := by
  have harity : Moves f events (Value.relocate f) (Run.halt (.fault (.arity (.text "print") 1 args.length position)))
      (Run.halt (.fault (.arity (.text "print") 1 (args.map (Node.relocate f)).length (f position)))) :=
    halt (by rw [List.length_map]; rfl)
  match args with
  | [] => exact harity
  | [arg] =>
    refine (he arg).bind fun value => ?_
    rw [Value.shown_relocate]
    exact (orAbort _).bind fun text => (emit _).bind fun _ => pure rfl
  | _ :: _ :: _ => exact harity

theorem applyNamed (position : Int) (name : Json) (args : List Node) :
    Moves f events (Value.relocate f) (Evaluation.applyNamed eval position name args)
      (Evaluation.applyNamed eval' (f position) name (args.map (Node.relocate f))) := by
  refine (fetch name position).bind fun callee => (he callee).bind fun value => ?_
  cases value with
  | function params body =>
    simp only [Value.relocate, List.length_map]
    split_ifs
    · exact halt rfl
    · exact (evaluateAll he args).bind fun values => (bindAll params args values).bind fun _ => he body
  | _ => exact halt rfl

theorem runCall (t : Tracing) (room : ℕ) (position : Int) (name : Json) (args : List Node) :
    Moves f events (Value.relocate f) (Evaluation.runCall t room eval position name args)
      (Evaluation.runCall t room eval' (f position) name (args.map (Node.relocate f))) := by
  unfold Evaluation.runCall
  cases Key.ofJson? name with
  | none => exact halt rfl
  | some key =>
    dsimp only
    split_ifs
    · exact runPrint he position args
    · have hcall := (applyNamed he position name args).inCall t room name.spelled args.length
      simpa only [runNamed, List.length_map] using hcall

theorem runConditional (t : Tracing) (condition consequent alternative : Node) :
    Moves f events (Value.relocate f) (Evaluation.runConditional t eval condition consequent alternative)
      (Evaluation.runConditional t eval' (condition.relocate f) (consequent.relocate f) (alternative.relocate f)) := by
  refine (he condition).bind fun value => ?_
  rw [Value.shown_relocate, Value.isTruthy_relocate]
  refine (trace t 3 _).bind fun _ => ?_
  split_ifs
  · exact he consequent
  · exact he alternative

theorem step (t : Tracing) (room : ℕ) (node : Node) :
    Moves f events (Value.relocate f) (Evaluation.step t room eval node)
      (Evaluation.step t room eval' (node.relocate f)) := by
  cases node with
  | statements position mode nodes =>
    rw [Node.relocate, Node.relocateAll_eq]
    simp only [Evaluation.step]
    split_ifs
    · exact runLoop he t nodes
    · exact list (evaluateAll he nodes)
  | operation position operator left right =>
    refine (he left).bind fun a => (he right).bind fun b m => ?_
    rw [operate_relocate]
    rfl
  | literal position value => exact pure rfl
  | reference position name => exact (fetch name position).bind he
  | assign position name expression => exact runAssign he t name expression
  | lambda position params body => exact pure rfl
  | call position name args =>
    rw [Node.relocate, Node.relocateAll_eq]
    exact runCall he t room position name args
  | conditional position condition consequent alternative => exact runConditional he t condition consequent alternative
  | blank position => exact halt rfl

end

end Moves

/-- **Evaluation moves with its positions**, and adds the same to any journal. -/
theorem evaluate_moves (f : Int → Int) (events : List Event) (t : Tracing) (budget : ℕ) (node : Node) :
    Moves f events (Value.relocate f) (evaluate t budget node) (evaluate t budget (node.relocate f)) := by
  induction budget generalizing node with
  | zero => exact .halt rfl
  | succ budget ih => exact .step ih t budget node

end Evaluation

end LetScript
