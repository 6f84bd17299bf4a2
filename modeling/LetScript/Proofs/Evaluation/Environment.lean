/-
Evaluation by environments: the language without frames.

An environment says for every key what node it is bound to, if any. Rules relate a node in an environment to how its
evaluation ends, the lines it prints, and the environment it leaves:
- a binding adds the expression as it stands, not its value; a reference evaluates the bound node where it is read;
- a call evaluates the node its name is bound to, then the arguments from left to right, each in the environment the one
  before left, binds the parameters to literals, evaluates the body, and leaves the environment from before the call;
- what stops without a value stops everything around it, and what was bound and printed until then counts.

There is no budget here: what does not end has no derivation. `Env.of` reads an environment off a scope; opening a scope does
not change it (`Env.of_push`), and binding in a scope is binding in the environment (`Env.of_assign`).
-/
import Mathlib.Tactic
import LetScript.Evaluation

namespace LetScript.Evaluation

/-! ## Environments -/

/-- what every key is bound to -/
abbrev Env := Key → Option Node

namespace Env

/-- the node a name is bound to, or why there is none -/
def fetch (env : Env) (name : Json) (position : Int) : Except Stop Node :=
  match Key.ofJson? name with
  | none => .error (.abort .unusableName)
  | some key =>
    match env key with
    | some node => .ok node
    | none => .error (.fault (.unbound name position))

/-- the environment with one more binding -/
def bind (env : Env) (name : Json) (node : Node) : Except Stop Env :=
  match Key.ofJson? name with
  | none => .error (.abort .unusableName)
  | some key => .ok (Function.update env key (some node))

/-- the environment with parameters bound to literals, each at the position of its argument -/
def bindAll (env : Env) : List Json → List Node → List Value → Except Stop Env
  | param :: params, arg :: args, value :: values =>
    match env.bind param (.literal arg.position value) with
    | .ok next => bindAll next params args values
    | .error stop => .error stop
  | _, _, _ => .ok env

/-- the environment that a scope stands for -/
def of (scope : Scope) : Env := fun key => scope.fetch? key

end Env

/-! ## Rules -/

/-- why a value is no loop count -/
def countStop (value : Value) (position : Int) : Stop :=
  match value.shown with
  | .ok shown => .fault (.loopCount value.typeName shown position)
  | .error abort => .abort abort

mutual

/-- how a node evaluates: its outcome, the lines printed, and the environment left -/
inductive Evaluates : Env → Node → Except Stop Value → List String → Env → Prop where
  | literal {env : Env} {position : Int} {value : Value} : Evaluates env (.literal position value) (.ok value) [] env
  | lambda {env : Env} {position : Int} {params : List Json} {body : Node} :
      Evaluates env (.lambda position params body) (.ok (.function params body)) [] env
  | blank {env : Env} {position : Int} :
      Evaluates env (.blank position) (.error (.fault (.unexpectedNode position))) [] env
  | reference {env next : Env} {position : Int} {name : Json} {node : Node} {outcome : Except Stop Value}
      {lines : List String} (found : env.fetch name position = .ok node) (read : Evaluates env node outcome lines next) :
      Evaluates env (.reference position name) outcome lines next
  | referenceStops {env : Env} {position : Int} {name : Json} {stop : Stop}
      (missing : env.fetch name position = .error stop) : Evaluates env (.reference position name) (.error stop) [] env
  | define {env next : Env} {position place : Int} {name : Json} {params : List Json} {body : Node}
      (bound : env.bind name (.lambda place params body) = .ok next) :
      Evaluates env (.assign position name (.lambda place params body)) (.ok (.text "fn")) [] next
  | defineStops {env : Env} {position place : Int} {name : Json} {params : List Json} {body : Node} {stop : Stop}
      (unbound : env.bind name (.lambda place params body) = .error stop) :
      Evaluates env (.assign position name (.lambda place params body)) (.error stop) [] env
  | assign {env mid next : Env} {position : Int} {name : Json} {expression : Node} {value : Value} {lines : List String}
      (plain : ∀ place params body, expression ≠ .lambda place params body)
      (first : Evaluates env expression (.ok value) lines mid) (bound : mid.bind name expression = .ok next) :
      Evaluates env (.assign position name expression) (.ok value) lines next
  | assignUnbound {env mid : Env} {position : Int} {name : Json} {expression : Node} {value : Value} {lines : List String}
      {stop : Stop} (plain : ∀ place params body, expression ≠ .lambda place params body)
      (first : Evaluates env expression (.ok value) lines mid) (unbound : mid.bind name expression = .error stop) :
      Evaluates env (.assign position name expression) (.error stop) lines mid
  | assignStops {env mid : Env} {position : Int} {name : Json} {expression : Node} {lines : List String} {stop : Stop}
      (plain : ∀ place params body, expression ≠ .lambda place params body)
      (first : Evaluates env expression (.error stop) lines mid) :
      Evaluates env (.assign position name expression) (.error stop) lines mid
  | operation {env mid next : Env} {position : Int} {operator : Json} {left right : Node} {a b : Value}
      {lines others : List String} (first : Evaluates env left (.ok a) lines mid)
      (second : Evaluates mid right (.ok b) others next) :
      Evaluates env (.operation position operator left right) (Operator.operate position operator a b) (lines ++ others) next
  | leftStops {env mid : Env} {position : Int} {operator : Json} {left right : Node} {lines : List String} {stop : Stop}
      (first : Evaluates env left (.error stop) lines mid) :
      Evaluates env (.operation position operator left right) (.error stop) lines mid
  | rightStops {env mid next : Env} {position : Int} {operator : Json} {left right : Node} {a : Value}
      {lines others : List String} {stop : Stop} (first : Evaluates env left (.ok a) lines mid)
      (second : Evaluates mid right (.error stop) others next) :
      Evaluates env (.operation position operator left right) (.error stop) (lines ++ others) next
  | conditional {env mid next : Env} {position : Int} {condition consequent alternative : Node} {value : Value}
      {outcome : Except Stop Value} {lines others : List String} (test : Evaluates env condition (.ok value) lines mid)
      (branch : Evaluates mid (if value.isTruthy then consequent else alternative) outcome others next) :
      Evaluates env (.conditional position condition consequent alternative) outcome (lines ++ others) next
  | conditionalStops {env mid : Env} {position : Int} {condition consequent alternative : Node} {lines : List String}
      {stop : Stop} (test : Evaluates env condition (.error stop) lines mid) :
      Evaluates env (.conditional position condition consequent alternative) (.error stop) lines mid
  | block {env next : Env} {position : Int} {mode : Json} {nodes : List Node} {outcome : Except Stop (List Value)}
      {lines : List String} (plain : isLoop mode = false) (all : EvaluatesAll env nodes outcome lines next) :
      Evaluates env (.statements position mode nodes) (outcome.map .list) lines next
  | loop {env mid next : Env} {position : Int} {mode : Json} {count body : Node} {times : ℕ}
      {outcome : Except Stop (List Value)} {lines others : List String} (marked : isLoop mode = true)
      (counted : Evaluates env count (.ok (.int times)) lines mid)
      (rounds : EvaluatesAll mid (List.replicate times body) outcome others next) :
      Evaluates env (.statements position mode [count, body]) (outcome.map .list) (lines ++ others) next
  | loopStops {env mid : Env} {position : Int} {mode : Json} {count body : Node} {lines : List String} {stop : Stop}
      (marked : isLoop mode = true) (counted : Evaluates env count (.error stop) lines mid) :
      Evaluates env (.statements position mode [count, body]) (.error stop) lines mid
  | loopUncounted {env mid : Env} {position : Int} {mode : Json} {count body : Node} {value : Value} {lines : List String}
      (marked : isLoop mode = true) (counted : Evaluates env count (.ok value) lines mid)
      (uncounted : ∀ times : ℕ, value ≠ .int times) :
      Evaluates env (.statements position mode [count, body]) (.error (countStop value count.position)) lines mid
  | loopMalformed {env : Env} {position : Int} {mode : Json} {nodes : List Node} (marked : isLoop mode = true)
      (malformed : ∀ count body, nodes ≠ [count, body]) :
      Evaluates env (.statements position mode nodes) (.error (.abort .malformedLoop)) [] env
  | print {env next : Env} {position : Int} {name : Json} {arg : Node} {value : Value} {text : String} {lines : List String}
      (isPrint : Key.ofJson? name = some (.text "print")) (shown : Evaluates env arg (.ok value) lines next)
      (readable : value.shown = .ok text) : Evaluates env (.call position name [arg]) (.ok (.text text)) (lines ++ [text]) next
  | printUnreadable {env next : Env} {position : Int} {name : Json} {arg : Node} {value : Value} {abort : Abort}
      {lines : List String} (isPrint : Key.ofJson? name = some (.text "print"))
      (shown : Evaluates env arg (.ok value) lines next) (unreadable : value.shown = .error abort) :
      Evaluates env (.call position name [arg]) (.error (.abort abort)) lines next
  | printStops {env next : Env} {position : Int} {name : Json} {arg : Node} {lines : List String} {stop : Stop}
      (isPrint : Key.ofJson? name = some (.text "print")) (shown : Evaluates env arg (.error stop) lines next) :
      Evaluates env (.call position name [arg]) (.error stop) lines next
  | printArity {env : Env} {position : Int} {name : Json} {args : List Node}
      (isPrint : Key.ofJson? name = some (.text "print")) (several : ∀ arg, args ≠ [arg]) :
      Evaluates env (.call position name args) (.error (.fault (.arity (.text "print") 1 args.length position))) [] env
  /-- whatever happens in a call, the environment from before it is left -/
  | call {env : Env} {position : Int} {name : Json} {args : List Node} {key : Key} {outcome : Except Stop Value}
      {lines : List String} (named : Key.ofJson? name = some key) (notPrint : key ≠ .text "print")
      (applied : Applies env position name args outcome lines) :
      Evaluates env (.call position name args) outcome lines env
  | callUnusable {env : Env} {position : Int} {name : Json} {args : List Node} (unnamed : Key.ofJson? name = none) :
      Evaluates env (.call position name args) (.error (.abort .unusableName)) [] env

/-- how nodes evaluate from left to right, up to the first that stops -/
inductive EvaluatesAll : Env → List Node → Except Stop (List Value) → List String → Env → Prop where
  | nil {env : Env} : EvaluatesAll env [] (.ok []) [] env
  | cons {env mid next : Env} {node : Node} {nodes : List Node} {value : Value} {outcome : Except Stop (List Value)}
      {lines others : List String} (first : Evaluates env node (.ok value) lines mid)
      (rest : EvaluatesAll mid nodes outcome others next) :
      EvaluatesAll env (node :: nodes) (outcome.map (value :: ·)) (lines ++ others) next
  | stops {env mid : Env} {node : Node} {nodes : List Node} {lines : List String} {stop : Stop}
      (first : Evaluates env node (.error stop) lines mid) : EvaluatesAll env (node :: nodes) (.error stop) lines mid

/-- how a call of a bound name ends, and the lines it prints -/
inductive Applies : Env → Int → Json → List Node → Except Stop Value → List String → Prop where
  | unbound {env : Env} {position : Int} {name : Json} {args : List Node} {stop : Stop}
      (missing : env.fetch name position = .error stop) : Applies env position name args (.error stop) []
  | calleeStops {env mid : Env} {position : Int} {name : Json} {args : List Node} {node : Node} {stop : Stop}
      {lines : List String} (found : env.fetch name position = .ok node)
      (callee : Evaluates env node (.error stop) lines mid) : Applies env position name args (.error stop) lines
  | notCallable {env mid : Env} {position : Int} {name : Json} {args : List Node} {node : Node} {value : Value}
      {lines : List String} (found : env.fetch name position = .ok node)
      (callee : Evaluates env node (.ok value) lines mid) (other : ∀ params body, value ≠ .function params body) :
      Applies env position name args (.error (.fault (.notCallable name value.typeName position))) lines
  | arity {env mid : Env} {position : Int} {name : Json} {args : List Node} {node body : Node} {params : List Json}
      {lines : List String} (found : env.fetch name position = .ok node)
      (callee : Evaluates env node (.ok (.function params body)) lines mid) (wrong : params.length ≠ args.length) :
      Applies env position name args (.error (.fault (.arity name params.length args.length position))) lines
  | argumentStops {env mid last : Env} {position : Int} {name : Json} {args : List Node} {node body : Node}
      {params : List Json} {stop : Stop} {lines others : List String} (found : env.fetch name position = .ok node)
      (callee : Evaluates env node (.ok (.function params body)) lines mid) (right : params.length = args.length)
      (actuals : EvaluatesAll mid args (.error stop) others last) :
      Applies env position name args (.error stop) (lines ++ others)
  | parameterStops {env mid last : Env} {position : Int} {name : Json} {args : List Node} {node body : Node}
      {params : List Json} {values : List Value} {stop : Stop} {lines others : List String}
      (found : env.fetch name position = .ok node)
      (callee : Evaluates env node (.ok (.function params body)) lines mid) (right : params.length = args.length)
      (actuals : EvaluatesAll mid args (.ok values) others last) (unbound : last.bindAll params args values = .error stop) :
      Applies env position name args (.error stop) (lines ++ others)
  | applied {env mid last inner final : Env} {position : Int} {name : Json} {args : List Node} {node body : Node}
      {params : List Json} {values : List Value} {outcome : Except Stop Value} {lines others more : List String}
      (found : env.fetch name position = .ok node)
      (callee : Evaluates env node (.ok (.function params body)) lines mid) (right : params.length = args.length)
      (actuals : EvaluatesAll mid args (.ok values) others last) (bound : last.bindAll params args values = .ok inner)
      (result : Evaluates inner body outcome more final) :
      Applies env position name args outcome (lines ++ others ++ more)

end

/-! ## Scopes as environments -/

namespace Env

theorem of_push (scope : Scope) : of scope.push = of scope := by
  funext key
  simp only [of, Scope.fetch?, Scope.push, Scope.lookup?, Frame.get?]

theorem get?_set (name : Name) (node : Node) (frame : Frame) (key : Key) :
    (frame.set name node).get? key = if key = name.key then some node else frame.get? key := by
  induction frame with
  | nil =>
    simp only [Frame.set, Frame.get?]
    by_cases h : key = name.key
    · rw [if_pos h, if_pos h.symm]
    · rw [if_neg h, if_neg (Ne.symm h)]
  | cons entry rest ih =>
    obtain ⟨bound, old⟩ := entry
    unfold Frame.set
    by_cases hb : bound.key = name.key
    · rw [if_pos hb]
      simp only [Frame.get?, hb]
      by_cases h : key = name.key
      · rw [if_pos h, if_pos h.symm]
      · rw [if_neg h, if_neg (Ne.symm h), if_neg (Ne.symm h)]
    · rw [if_neg hb]
      simp only [Frame.get?, ih]
      by_cases h : key = name.key
      · rw [if_pos h, if_neg (fun he => hb (he.trans h)), if_pos h]
      · rw [if_neg h, if_neg h]

theorem of_assign (name : Name) (node : Node) (scope : Scope) :
    of (scope.assign name node) = Function.update (of scope) name.key (some node) := by
  funext key
  simp only [of, Scope.fetch?, Scope.assign, Scope.lookup?, get?_set, Function.update_apply]
  by_cases h : key = name.key
  · rw [if_pos h, if_pos h]
  · rw [if_neg h, if_neg h]

/-- a name is bound in the environment of the scope, or not at all -/
theorem assign_of (name : Json) (node : Node) (scope : Scope) (journal : List Event) :
    (∃ next, Run.assign name node ⟨scope, journal⟩ = (.ok (), ⟨next, journal⟩) ∧
        (of scope).bind name node = .ok (of next)) ∨
      ∃ stop, Run.assign name node ⟨scope, journal⟩ = (.error stop, ⟨scope, journal⟩) ∧
        (of scope).bind name node = .error stop := by
  unfold Run.assign bind Name.ofJson?
  cases Key.ofJson? name with
  | none => exact Or.inr ⟨_, rfl, rfl⟩
  | some key => exact Or.inl ⟨_, rfl, by rw [of_assign]⟩

end Env

/-- opening a scope changes nothing about what is bound -/
theorem fetch?_push (scope : Scope) (key : Key) : scope.push.fetch? key = scope.fetch? key :=
  congrFun (Env.of_push scope) key

/-- a binding binds its own key and no other -/
theorem fetch?_assign (name : Name) (node : Node) (scope : Scope) (key : Key) :
    (scope.assign name node).fetch? key = if key = name.key then some node else scope.fetch? key := by
  have hof := congrFun (Env.of_assign name node scope) key
  rwa [Function.update_apply] at hof

/-! ## Every derivation ends

The rules never say that a budget is used up. -/

/-- an outcome other than a used up budget -/
def Ends {α : Type} (outcome : Except Stop α) : Prop := outcome ≠ .error .exhausted

theorem Ends.ok {α : Type} (a : α) : Ends (.ok a : Except Stop α) := fun h => by cases h

theorem Ends.map {α β : Type} {outcome : Except Stop α} (h : Ends outcome) (f : α → β) : Ends (outcome.map f) := by
  cases outcome with
  | ok a => exact .ok _
  | error stop => exact fun he => h (by cases he; rfl)

/-- whatever is stopped with, is passed on -/
theorem Ends.error {α β : Type} {stop : Stop} (h : Ends (.error stop : Except Stop α)) : Ends (.error stop : Except Stop β) :=
  fun he => h (by cases he; rfl)

theorem Ends.fault {α : Type} (fault : Fault) : Ends (.error (.fault fault) : Except Stop α) := fun h => by cases h

theorem Ends.abort {α : Type} (abort : Abort) : Ends (.error (.abort abort) : Except Stop α) := fun h => by cases h

namespace Env

theorem fetch_ends (env : Env) (name : Json) (position : Int) : Ends (env.fetch name position) := by
  unfold fetch
  split
  · exact .abort _
  · split
    · exact .ok _
    · exact .fault _

theorem bind_ends (env : Env) (name : Json) (node : Node) : Ends (env.bind name node) := by
  unfold bind
  split
  · exact .abort _
  · exact .ok _

theorem bindAll_ends (env : Env) (params : List Json) (args : List Node) (values : List Value) :
    Ends (env.bindAll params args values) := by
  fun_induction bindAll env params args values with
  | case1 env param params arg args value values next hbind ih => exact ih
  | case2 env param params arg args value values stop hbind => exact hbind ▸ bind_ends env _ _
  | case3 => exact .ok _

end Env

theorem operate_ends (position : Int) (operator : Json) (a b : Value) : Ends (Operator.operate position operator a b) := by
  unfold Operator.operate
  split
  · exact .abort _
  · exact .abort _
  · split
    · next known _ =>
      cases known.onValues position a b with
      | ok value => exact .ok _
      | error fault => exact .fault _
    · exact .fault _
  · exact .fault _

theorem countStop_ends {α : Type} (value : Value) (position : Int) :
    Ends (.error (countStop value position) : Except Stop α) := by
  unfold countStop
  split
  · exact .fault _
  · exact .abort _

mutual

theorem Evaluates.ends {env left : Env} {node : Node} {outcome : Except Stop Value} {lines : List String} :
    Evaluates env node outcome lines left → Ends outcome
  | .literal => .ok _
  | .lambda => .ok _
  | .blank => .fault _
  | .reference _ read => read.ends
  | .referenceStops missing => (missing ▸ Env.fetch_ends _ _ _).error
  | .define _ => .ok _
  | .defineStops unbound => (unbound ▸ Env.bind_ends _ _ _).error
  | .assign _ _ _ => .ok _
  | .assignUnbound _ _ unbound => (unbound ▸ Env.bind_ends _ _ _).error
  | .assignStops _ first => first.ends
  | .operation _ _ => operate_ends _ _ _ _
  | .leftStops first => first.ends
  | .rightStops _ second => second.ends
  | .conditional _ branch => branch.ends
  | .conditionalStops test => test.ends
  | .block _ all => all.ends.map _
  | .loop _ _ rounds => rounds.ends.map _
  | .loopStops _ counted => counted.ends
  | .loopUncounted _ _ _ => countStop_ends _ _
  | .loopMalformed _ _ => .abort _
  | .print _ _ _ => .ok _
  | .printUnreadable _ _ _ => .abort _
  | .printStops _ shown => shown.ends
  | .printArity _ _ => .fault _
  | .call _ _ applied => applied.ends
  | .callUnusable _ => .abort _

theorem EvaluatesAll.ends {env left : Env} {nodes : List Node} {outcome : Except Stop (List Value)} {lines : List String} :
    EvaluatesAll env nodes outcome lines left → Ends outcome
  | .nil => .ok _
  | .cons _ rest => rest.ends.map _
  | .stops first => first.ends.error

theorem Applies.ends {env : Env} {position : Int} {name : Json} {args : List Node} {outcome : Except Stop Value}
    {lines : List String} : Applies env position name args outcome lines → Ends outcome
  | .unbound missing => (missing ▸ Env.fetch_ends _ _ _).error
  | .calleeStops _ callee => callee.ends
  | .notCallable _ _ _ => .fault _
  | .arity _ _ _ => .fault _
  | .argumentStops _ _ _ actuals => actuals.ends.error
  | .parameterStops _ _ _ _ unbound => (unbound ▸ Env.bindAll_ends _ _ _ _).error
  | .applied _ _ _ _ _ result => result.ends

end

end LetScript.Evaluation
