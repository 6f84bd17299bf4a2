/-
What holds of the pieces of a run holds of the run.

Evaluation puts runs together in two ways only, one after the other and inside a call; all else are single actions. So a
property that is closed under these (`Composes`) holds of every evaluation, whatever the budget: `Composes.evaluate`. The
property is one of two runs that evaluate the same node, each with its own tracing and room, so that it can compare them. A
property of one run leaves the other out.

What the nodes, values, stops and trace lines met on the way have in common is an `Invariant`, and `Inductive` says that
evaluation does not leave it: the parts of a node have it, and so has whatever a node makes of the values of its parts. Where
nothing in common is needed, a property is `Closed`, and holds of every evaluation: `Closed.evaluate`.
-/
import LetScript.Proofs.Evaluation.Environment

namespace LetScript.Evaluation

open Run

variable {α β : Type}

/-! ## Sequences -/

theorem run_bind_ok {run : Run α} {go : α → Run β} {m next : Machine} {a : α} (h : run m = (.ok a, next)) :
    (run >>= go) m = go a next := by
  change Run.bind run go m = _
  simp only [Run.bind, h]

theorem run_bind_error {run : Run α} {go : α → Run β} {m next : Machine} {stop : Stop} (h : run m = (.error stop, next)) :
    (run >>= go) m = (.error stop, next) := by
  change Run.bind run go m = _
  simp only [Run.bind, h]

/-- what follows depends on how the first part ended only -/
theorem run_bind_congr {run run' : Run α} {m m' : Machine} (go : α → Run β) (h : run m = run' m') :
    (run >>= go) m = (run' >>= go) m' := by
  rcases hr : run' m' with ⟨outcome, next⟩
  cases outcome with
  | ok a => rw [run_bind_ok (h.trans hr), run_bind_ok hr]
  | error stop => rw [run_bind_error (h.trans hr), run_bind_error hr]

instance : LawfulMonad Run :=
  LawfulMonad.mk' Run
    (fun run => by
      funext m
      rcases hr : run m with ⟨outcome, next⟩
      cases outcome with
      | ok a => exact run_bind_ok hr
      | error stop => exact run_bind_error hr)
    (fun _ _ => rfl)
    (fun run go more => by
      funext m
      rcases hr : run m with ⟨outcome, next⟩
      cases outcome with
      | ok a => rw [run_bind_congr more (run_bind_ok hr), run_bind_ok hr]
      | error stop => rw [run_bind_error (run_bind_error hr), run_bind_error hr])

/-- a sequence ends in its second part, or the first part stopped -/
theorem run_bind_cases {run : Run α} {go : α → Run β} {m last : Machine} {outcome : Except Stop β}
    (h : (run >>= go) m = (outcome, last)) :
    (∃ a next, run m = (.ok a, next) ∧ go a next = (outcome, last)) ∨
      ∃ stop, run m = (.error stop, last) ∧ outcome = .error stop := by
  rcases hr : run m with ⟨first, next⟩
  cases first with
  | ok a => exact Or.inl ⟨a, next, rfl, (run_bind_ok hr).symm.trans h⟩
  | error stop =>
    rw [run_bind_error hr] at h
    cases h
    exact Or.inr ⟨stop, rfl, rfl⟩

/-- a run ends as it did, with what is done afterwards added, unless that stops -/
theorem andFinally_cases {run : Run α} {after : Run Unit} {m inner last : Machine} {outcome : Except Stop α}
    {ended : Except Stop Unit} (hrun : run m = (outcome, inner)) (hafter : after inner = (ended, last)) :
    andFinally run after m = (ended.bind fun _ => outcome, last) := by
  simp only [andFinally, hrun, hafter]
  cases ended with
  | ok _ => rfl
  | error stop => rfl

/-! ## Invariants -/

theorem uncounted_eq (value : Value) (position : Int) :
    (orAbort value.shown >>= fun shown => halt (.fault (.loopCount value.typeName shown position)) : Run Value) =
      halt (countStop value position) := by
  unfold countStop
  cases value.shown with
  | ok shown => rfl
  | error abort => rfl

/-- what the nodes, values, stops and trace lines of an evaluation have in common -/
structure Invariant where
  node : Node → Prop
  value : Value → Prop
  stop : Stop → Prop
  line : Except Abort String → Prop

namespace Invariant

variable (I : Invariant)

/-- the outcome is a value that has the invariant, or a stop that has it -/
def Outcome : Except Stop Value → Prop
  | .ok value => I.value value
  | .error stop => I.stop stop

/-- a name can be bound, or stopping there has the invariant -/
def Binds (name : Json) : Prop := Key.ofJson? name = none → I.stop (.abort .unusableName)

/-- looking up a name finds nothing bad but a stop that has the invariant -/
structure Fetches (name : Json) (position : Int) : Prop where
  usable : I.Binds name
  unbound : I.stop (.fault (.unbound name position))

/-- the lines about a call have the invariant -/
structure Announces (name : String) (given : ℕ) : Prop where
  called : ∀ depth, I.line (.ok (Event.called name given depth).line)
  returned : ∀ depth, I.line (.ok (Event.returned name depth).line)

/-- what the call of a bound name needs -/
structure Calls (position : Int) (name : Json) (given : ℕ) : Prop where
  callee : I.Fetches name position
  notCallable : ∀ found, I.stop (.fault (.notCallable name found position))
  arity : ∀ expected, I.stop (.fault (.arity name expected given position))
  announces : I.Announces name.spelled given

/-- what a node needs: its parts have the invariant, and so has whatever it makes of their values -/
def Needs : Node → Prop
  | .statements _ mode nodes =>
    (∀ node ∈ nodes, I.node node) ∧
      (isLoop mode = true → (∀ count body, nodes ≠ [count, body]) → I.stop (.abort .malformedLoop)) ∧
      ∀ count body, isLoop mode = true → nodes = [count, body] → ∀ value, I.value value →
        I.stop (countStop value count.position)
  | .operation position operator left right =>
    I.node left ∧ I.node right ∧ ∀ a b, I.value a → I.value b → I.Outcome (Operator.operate position operator a b)
  | .literal _ value => I.value value
  | .reference position name => I.Fetches name position
  | .assign _ name expression =>
    I.node expression ∧ I.Binds name ∧
      (∀ value, I.value value → I.line (value.shown.map fun shown => "assign " ++ name.spelled ++ " := " ++ shown)) ∧
      ∀ place params body, expression = .lambda place params body → I.line ((Value.parameterList params).map fun names =>
        "assign " ++ name.spelled ++ " := <fn " ++ names ++ ">")
  | .lambda _ params body => I.value (.function params body)
  | .call position name args =>
    (∀ arg ∈ args, I.node arg) ∧
      match Key.ofJson? name with
      | none => I.stop (.abort .unusableName)
      | some key =>
        if key = .text "print" then I.stop (.fault (.arity (.text "print") 1 args.length position))
        else I.Calls position name args.length
  | .conditional _ condition consequent alternative => I.node condition ∧ I.node consequent ∧ I.node alternative
  | .blank position => I.stop (.fault (.unexpectedNode position))

/-- evaluation does not leave the invariant -/
structure Inductive : Prop where
  needs : ∀ {node}, I.node node → I.Needs node
  list : ∀ {values}, (∀ value ∈ values, I.value value) → I.value (.list values)
  marker : I.value (.text "fn")
  shown : ∀ {value text}, I.value value → value.shown = .ok text → I.value (.text text)
  unshown : ∀ {value abort}, I.value value → value.shown = .error abort → I.stop (.abort abort)
  body : ∀ {params body}, I.value (.function params body) → I.node body
  params : ∀ {params body}, I.value (.function params body) → ∀ param ∈ params, I.Binds param
  /-- an argument is bound as a literal in its place -/
  actual : ∀ {arg value}, I.node arg → I.value value → I.node (.literal arg.position value)
  rounds : ∀ times : ℕ, I.line ((Value.integerText times).map ("loop x" ++ ·))
  decided : ∀ {value}, I.value value → I.line (value.shown.map fun shown =>
    "if condition " ++ shown ++ " -> " ++ (if value.isTruthy then "True" else "False"))
  exhausted : I.stop .exhausted

end Invariant

/-! ## Properties -/

/-- a property of two runs, for what is to hold of the values that they end in -/
abbrev Property := (α : Type) → (α → Prop) → Run α → Run α → Prop

/-- nothing is to hold -/
abbrev anything : α → Prop := fun _ => True

/-- a property is closed under single actions, sequences, and calls in the room of each run -/
structure Composes (t t' : Tracing) (room room' : ℕ) (I : Invariant) (P : Property) : Prop where
  pure : ∀ {α : Type} {A : α → Prop} {a : α}, A a → P α A (Pure.pure a) (Pure.pure a)
  bind : ∀ {α β : Type} {A : α → Prop} {B : β → Prop} {run run' : Run α} {go go' : α → Run β}, P α A run run' →
    (∀ a, A a → P β B (go a) (go' a)) → P β B (run >>= go) (run' >>= go')
  halt : ∀ {α : Type} {A : α → Prop} {stop : Stop}, I.stop stop → P α A (Run.halt stop) (Run.halt stop)
  print : ∀ line : String, P Unit anything (emit (.printed line)) (emit (.printed line))
  /-- only what is said about calls is traced from the first level on -/
  trace : ∀ {threshold : ℕ} {line : Unit → Except Abort String}, 2 ≤ threshold → I.line (line ()) →
    P Unit anything (Run.trace t threshold line) (Run.trace t' threshold line)
  fetch : ∀ {name : Json} {position : Int}, I.Fetches name position →
    P Node I.node (Run.fetch name position) (Run.fetch name position)
  assign : ∀ {name : Json} {node : Node}, I.Binds name → I.node node →
    P Unit anything (Run.assign name node) (Run.assign name node)
  /-- there may be no room for a call -/
  call : ∀ {name : String} {given : ℕ} {run run' : Run Value}, I.stop .exhausted → I.Announces name given →
    P Value I.value run run' → P Value I.value (inCall t room name given run) (inCall t' room' name given run')

namespace Composes

variable {t t' : Tracing} {room room' : ℕ} {I : Invariant} {P : Property}

theorem lift (h : Composes t t' room room' I P) {outcome : Except Stop Value} (ho : I.Outcome outcome) :
    P Value I.value (Run.lift outcome) (Run.lift outcome) := by
  cases outcome with
  | ok value => exact h.pure ho
  | error stop => exact h.halt ho

theorem orAbort (h : Composes t t' room room' I P) {A : String → Prop} {outcome : Except Abort String}
    (hok : ∀ text, outcome = .ok text → A text) (herror : ∀ abort, outcome = .error abort → I.stop (.abort abort)) :
    P String A (Run.orAbort outcome) (Run.orAbort outcome) := by
  cases outcome with
  | ok text => exact h.pure (hok text rfl)
  | error abort => exact h.halt (herror abort rfl)

theorem bindAll (h : Composes t t' room room' I P) (hi : I.Inductive) {params : List Json} {args : List Node} {values : List Value}
    (hparams : ∀ param ∈ params, I.Binds param) (hargs : ∀ arg ∈ args, I.node arg)
    (hvalues : ∀ value ∈ values, I.value value) :
    P Unit anything (Evaluation.bindAll params args values) (Evaluation.bindAll params args values) := by
  fun_induction Evaluation.bindAll params args values with
  | case1 param params arg args value values ih =>
    simp only [List.mem_cons, forall_eq_or_imp] at hparams hargs hvalues
    exact h.bind (h.assign hparams.1 (hi.actual hargs.1 hvalues.1)) fun _ _ => ih hparams.2 hargs.2 hvalues.2
  | case2 => exact h.pure trivial

section

variable (h : Composes t t' room room' I P) (hi : I.Inductive) {eval eval' : Node → Run Value}
  (he : ∀ node, I.node node → P Value I.value (eval node) (eval' node))

include h he

theorem repeated {body : Node} (hbody : I.node body) (times : ℕ) {done : List Value}
    (hdone : ∀ value ∈ done, I.value value) :
    P (List Value) (fun values => ∀ value ∈ values, I.value value) (Run.repeated (eval body) times done)
      (Run.repeated (eval' body) times done) := by
  induction times generalizing done with
  | zero => exact h.pure (a := done.reverse) fun value hv => hdone value (List.mem_reverse.1 hv)
  | succ times ih =>
    have hround : ∀ run : Run Value, Run.repeated run (times + 1) done =
        (run >>= fun value => Run.repeated run times (value :: done)) := fun _ => rfl
    rw [hround, hround]
    refine h.bind (he body hbody) fun value hv => ih ?_
    intro other ho
    rcases List.mem_cons.1 ho with rfl | ho
    · exact hv
    · exact hdone other ho

theorem evaluateAll {nodes : List Node} (hnodes : ∀ node ∈ nodes, I.node node) :
    P (List Value) (fun values => ∀ value ∈ values, I.value value) (Evaluation.evaluateAll eval nodes)
      (Evaluation.evaluateAll eval' nodes) := by
  induction nodes with
  | nil => exact h.pure fun value hv => by cases hv
  | cons node rest ih =>
    simp only [List.mem_cons, forall_eq_or_imp] at hnodes
    refine h.bind (he node hnodes.1) fun first hfirst => ?_
    refine h.bind (ih hnodes.2) fun others hothers => h.pure ?_
    simp only [List.mem_cons, forall_eq_or_imp]
    exact ⟨hfirst, hothers⟩

include hi

theorem runLoop {position : Int} {mode : Json} {nodes : List Node} (hneeds : I.Needs (.statements position mode nodes))
    (hloop : isLoop mode = true) :
    P Value I.value (Evaluation.runLoop t eval nodes) (Evaluation.runLoop t' eval' nodes) := by
  obtain ⟨hnodes, hmalformed, hstop⟩ := hneeds
  unfold Evaluation.runLoop
  split
  · next count body =>
    have hcount : I.node count := hnodes count (by simp)
    refine h.bind (he count hcount) fun value hvalue => ?_
    split
    · next times =>
      refine h.bind (h.trace (by decide) (hi.rounds times)) fun _ _ => ?_
      refine h.bind (h.repeated he (hnodes body (by simp)) times fun _ hv => by cases hv) fun values hvalues => ?_
      exact h.pure (hi.list hvalues)
    · rw [uncounted_eq]
      exact h.halt (hstop count body hloop rfl value hvalue)
  · next hpair => exact h.halt (hmalformed hloop fun count body heq => hpair count body heq)

theorem runAssign {position : Int} {name : Json} {expression : Node}
    (hneeds : I.Needs (.assign position name expression)) :
    P Value I.value (Evaluation.runAssign t eval name expression) (Evaluation.runAssign t' eval' name expression) := by
  obtain ⟨hexpression, hname, hline, hdefined⟩ := hneeds
  unfold Evaluation.runAssign
  split
  · next place params body =>
    refine h.bind (h.assign hname hexpression) fun _ _ => ?_
    exact h.bind (h.trace (by decide) (hdefined place params body rfl)) fun _ _ => h.pure hi.marker
  · refine h.bind (he _ hexpression) fun value hvalue => ?_
    refine h.bind (h.assign hname hexpression) fun _ _ => ?_
    exact h.bind (h.trace (by decide) (hline value hvalue)) fun _ _ => h.pure hvalue

theorem runPrint {position : Int} {args : List Node} (hargs : ∀ arg ∈ args, I.node arg)
    (harity : I.stop (.fault (.arity (.text "print") 1 args.length position))) :
    P Value I.value (Evaluation.runPrint eval position args) (Evaluation.runPrint eval' position args) := by
  unfold Evaluation.runPrint
  split
  · next arg =>
    refine h.bind (he arg (hargs arg (by simp))) fun value hvalue => ?_
    refine h.bind (A := fun text => I.value (.text text))
      (h.orAbort (fun text ht => hi.shown hvalue ht) fun abort ha => hi.unshown hvalue ha) fun text htext => ?_
    exact h.bind (h.print text) fun _ _ => h.pure htext
  · exact h.halt harity

theorem applyNamed {position : Int} {name : Json} {args : List Node} (hargs : ∀ arg ∈ args, I.node arg)
    (hcalls : I.Calls position name args.length) :
    P Value I.value (Evaluation.applyNamed eval position name args) (Evaluation.applyNamed eval' position name args) := by
  refine h.bind (h.fetch hcalls.callee) fun callee hcallee => ?_
  refine h.bind (he callee hcallee) fun value hvalue => ?_
  split
  · split_ifs
    · exact h.halt (hcalls.arity _)
    · refine h.bind (h.evaluateAll he hargs) fun values hvalues => ?_
      exact h.bind (h.bindAll hi (hi.params hvalue) hargs hvalues) fun _ _ => he _ (hi.body hvalue)
  · exact h.halt (hcalls.notCallable _)

theorem runCall {position : Int} {name : Json} {args : List Node} (hneeds : I.Needs (.call position name args)) :
    P Value I.value (Evaluation.runCall t room eval position name args)
      (Evaluation.runCall t' room' eval' position name args) := by
  obtain ⟨hargs, hname⟩ := hneeds
  unfold Evaluation.runCall
  split
  · next hkey =>
    rw [hkey] at hname
    exact h.halt hname
  · next key hkey =>
    rw [hkey] at hname
    dsimp only at hname
    split_ifs at hname ⊢ with hprint
    · exact h.runPrint hi he hargs hname
    · exact h.call hi.exhausted hname.announces (h.applyNamed hi he hargs hname)

theorem runConditional {position : Int} {condition consequent alternative : Node}
    (hneeds : I.Needs (.conditional position condition consequent alternative)) :
    P Value I.value (Evaluation.runConditional t eval condition consequent alternative)
      (Evaluation.runConditional t' eval' condition consequent alternative) := by
  obtain ⟨hcondition, hconsequent, halternative⟩ := hneeds
  refine h.bind (he condition hcondition) fun value hvalue => ?_
  refine h.bind (h.trace (by decide) (hi.decided hvalue)) fun _ _ => ?_
  split_ifs
  · exact he consequent hconsequent
  · exact he alternative halternative

/-- what holds of the evaluation of the parts holds of one step -/
theorem step {node : Node} (hnode : I.node node) :
    P Value I.value (Evaluation.step t room eval node) (Evaluation.step t' room' eval' node) := by
  have hneeds := hi.needs hnode
  cases node with
  | statements position mode nodes =>
    simp only [Evaluation.step]
    split_ifs with hloop
    · exact h.runLoop hi he hneeds hloop
    · exact h.bind (h.evaluateAll he hneeds.1) fun values hvalues => h.pure (hi.list hvalues)
  | operation position operator left right =>
    obtain ⟨hleft, hright, hoperate⟩ := hneeds
    refine h.bind (he left hleft) fun a ha => h.bind (he right hright) fun b hb => ?_
    exact h.lift (hoperate a b ha hb)
  | literal position value => exact h.pure hneeds
  | reference position name => exact h.bind (h.fetch hneeds) fun node hn => he node hn
  | assign position name expression => exact h.runAssign hi he hneeds
  | lambda position params body => exact h.pure hneeds
  | call position name args => exact h.runCall hi he hneeds
  | conditional position condition consequent alternative => exact h.runConditional hi he hneeds
  | blank position => exact h.halt hneeds

end

/-- **What is closed under composition, in any room, holds of evaluation.** -/
theorem evaluate (h : ∀ room, Composes t t' room room I P) (hi : I.Inductive) (budget : ℕ) {node : Node}
    (hnode : I.node node) : P Value I.value (Evaluation.evaluate t budget node) (Evaluation.evaluate t' budget node) := by
  induction budget generalizing node with
  | zero => exact (h 0).halt hi.exhausted
  | succ budget ih => exact (h budget).step hi (fun node hn => ih hn) hnode

end Composes

/-! ## No invariant -/

namespace Invariant

/-- nothing in common -/
def nothing : Invariant := ⟨anything, anything, anything, anything⟩

theorem nothing_fetches (name : Json) (position : Int) : nothing.Fetches name position := ⟨fun _ => trivial, trivial⟩

theorem nothing_calls (position : Int) (name : Json) (given : ℕ) : nothing.Calls position name given :=
  ⟨nothing_fetches name position, fun _ => trivial, fun _ => trivial, fun _ => trivial, fun _ => trivial⟩

theorem nothing_needs (node : Node) : nothing.Needs node := by
  cases node with
  | statements => exact ⟨fun _ _ => trivial, fun _ _ => trivial, fun _ _ _ _ _ _ => trivial⟩
  | operation position operator left right =>
    refine ⟨trivial, trivial, fun a b _ _ => ?_⟩
    cases Operator.operate position operator a b with
    | ok value => exact trivial
    | error stop => exact trivial
  | reference position name => exact nothing_fetches name position
  | assign => exact ⟨trivial, fun _ => trivial, fun _ _ => trivial, fun _ _ _ _ => trivial⟩
  | call position name args =>
    refine ⟨fun _ _ => trivial, ?_⟩
    split
    · exact trivial
    · split_ifs
      · exact trivial
      · exact nothing_calls _ _ _
  | conditional => exact ⟨trivial, trivial, trivial⟩
  | literal => exact trivial
  | lambda => exact trivial
  | blank => exact trivial

theorem nothing_inductive : nothing.Inductive where
  needs _ := nothing_needs _
  list _ := trivial
  marker := trivial
  shown _ _ := trivial
  unshown _ _ := trivial
  body _ := trivial
  params _ _ _ := fun _ => trivial
  actual _ _ := trivial
  rounds _ := trivial
  decided _ := trivial
  exhausted := trivial

end Invariant

/-! ## Properties without invariant -/

/-- the values that a run ends in satisfy a predicate -/
def Yields (A : α → Prop) (run : Run α) : Prop := ∀ m a, (run m).1 = .ok a → A a

namespace Yields

variable {A : α → Prop} {run : Run α}

theorem bind {B : β → Prop} {go : α → Run β} (h : Yields A run) (hgo : ∀ a, A a → Yields B (go a)) :
    Yields B (run >>= go) := by
  intro m b hb
  rcases hr : run m with ⟨outcome, next⟩
  cases outcome with
  | ok a =>
    rw [run_bind_ok hr] at hb
    exact hgo a (h m a (by rw [hr])) next b hb
  | error stop =>
    rw [run_bind_error hr] at hb
    cases hb

theorem inCall (h : Yields A run) (t : Tracing) (room : ℕ) (name : String) (given : ℕ) :
    Yields A (Run.inCall t room name given run) := by
  have hclosed : Yields A (Run.andFinally run (leave >>= fun _ => traceCall t room (.returned name))) := by
    intro m a ha
    rcases hr : run m with ⟨outcome, inner⟩
    rcases hf : (leave >>= fun _ => traceCall t room (.returned name)) inner with ⟨ended, last⟩
    rw [andFinally_cases hr hf] at ha
    cases ended with
    | ok _ => exact h m a (by rw [hr]; exact ha)
    | error stop => cases ha
  have hany : ∀ run : Run Unit, Yields anything run := fun _ _ _ _ => trivial
  exact (hany _).bind fun _ _ => (hany _).bind fun _ _ => (hany _).bind fun _ _ => hclosed

end Yields

/-- a property of two runs is closed under single actions, sequences, and calls in the room of each, whatever the nodes and
values are -/
structure Closed (t t' : Tracing) (room room' : ℕ) (Q : (α : Type) → Run α → Run α → Prop) : Prop where
  pure : ∀ {α : Type} (a : α), Q α (Pure.pure a) (Pure.pure a)
  bind : ∀ {α β : Type} {run run' : Run α} {go go' : α → Run β}, Q α run run' →
    (∀ m a, (run m).1 = .ok a → Q β (go a) (go' a)) → Q β (run >>= go) (run' >>= go')
  halt : ∀ {α : Type} (stop : Stop), Q α (Run.halt stop) (Run.halt stop)
  print : ∀ line : String, Q Unit (emit (.printed line)) (emit (.printed line))
  trace : ∀ {threshold : ℕ} (line : Unit → Except Abort String), 2 ≤ threshold →
    Q Unit (Run.trace t threshold line) (Run.trace t' threshold line)
  fetch : ∀ (name : Json) (position : Int), Q Node (Run.fetch name position) (Run.fetch name position)
  assign : ∀ (name : Json) (node : Node), Q Unit (Run.assign name node) (Run.assign name node)
  call : ∀ (name : String) (given : ℕ) {run run' : Run Value}, Q Value run run' →
    Q Value (inCall t room name given run) (inCall t' room' name given run')

namespace Closed

variable {t t' : Tracing} {room room' : ℕ} {Q : (α : Type) → Run α → Run α → Prop}

theorem composes (h : Closed t t' room room' Q) :
    Composes t t' room room' .nothing fun α A run run' => Yields A run ∧ Q α run run' where
  pure ha := ⟨fun _ _ he => Except.ok.inj he ▸ ha, h.pure _⟩
  bind hrun hgo := ⟨hrun.1.bind fun a ha => (hgo a ha).1, h.bind hrun.2 fun m a ha => (hgo a (hrun.1 m a ha)).2⟩
  halt _ := ⟨fun _ _ he => (nomatch he), h.halt _⟩
  print line := ⟨fun _ _ _ => trivial, h.print line⟩
  trace hthreshold _ := ⟨fun _ _ _ => trivial, h.trace _ hthreshold⟩
  fetch _ := ⟨fun _ _ _ => trivial, h.fetch _ _⟩
  assign _ _ := ⟨fun _ _ _ => trivial, h.assign _ _⟩
  call _ _ hrun := ⟨hrun.1.inCall _ _ _ _, h.call _ _ hrun.2⟩

theorem applyNamed (h : Closed t t' room room' Q) (eval eval' : Node → Run Value) (he : ∀ node, Q Value (eval node) (eval' node))
    (position : Int) (name : Json) (args : List Node) :
    Q Value (Evaluation.applyNamed eval position name args) (Evaluation.applyNamed eval' position name args) :=
  (h.composes.applyNamed Invariant.nothing_inductive (fun node _ => ⟨fun _ _ _ => trivial, he node⟩) (fun _ _ => trivial)
    (Invariant.nothing_calls position name args.length)).2

/-- **What is closed, in any room, holds of evaluation.** -/
theorem evaluate (h : ∀ room, Closed t t' room room Q) (budget : ℕ) (node : Node) :
    Q Value (Evaluation.evaluate t budget node) (Evaluation.evaluate t' budget node) :=
  (Composes.evaluate (fun room => (h room).composes) Invariant.nothing_inductive budget trivial).2

end Closed

end LetScript.Evaluation
