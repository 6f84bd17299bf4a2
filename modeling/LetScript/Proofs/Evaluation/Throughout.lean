/-
What holds of every node a run can meet.

A property of single nodes holds throughout a tree when every node of the tree has it, and every node of the functions that
its literals hold (`Node.Throughout`). Evaluation makes no new nodes but literals: what it binds, reads back and calls are
parts of what it started with. So a property that literals have holds throughout all that is met on the way, and the run
stops only where nodes with the property stop (`Sites`): `throughout_inductive`.

`Stays` says this of a run on a scope, whatever is traced: where the invariant holds of all that is bound, it holds of the
outcome and of all that is bound afterwards. It is closed under the ways in which runs are put together, so
`evaluate_stays`.
-/
import LetScript.Proofs.Arithmetic
import LetScript.Proofs.Tree
import LetScript.Proofs.Evaluation.Frames

namespace LetScript

/-! ## Trees and values -/

mutual

/-- every node of a tree has a property, and so has every node that its literals hold -/
inductive Node.Throughout (P : Node → Prop) : Node → Prop where
  | intro {node : Node} (here : P node) (children : ∀ child ∈ node.children, child.Throughout P)
      (held : ∀ position value, node = .literal position value → value.Throughout P) : Node.Throughout P node

/-- every node of the functions that a value is or holds has a property -/
inductive Value.Throughout (P : Node → Prop) : Value → Prop where
  | intro {value : Value} (items : ∀ items, value = .list items → ∀ item ∈ items, item.Throughout P)
      (body : ∀ params body, value = .function params body → body.Throughout P) : Value.Throughout P value

end

variable {P : Node → Prop}

namespace Node.Throughout

variable {node : Node}

theorem here (h : node.Throughout P) : P node := by
  cases h with
  | intro here _ _ => exact here

theorem children (h : node.Throughout P) : ∀ child ∈ node.children, child.Throughout P := by
  cases h with
  | intro _ children _ => exact children

/-- what holds of all parts of a tree, and throughout the values of its literals, holds throughout the tree -/
theorem of_parts (h : ∀ part, Part part node → P part)
    (hheld : ∀ position value, Part (.literal position value) node → value.Throughout P) : node.Throughout P := by
  induction node using Node.inductionOnChildren with
  | step node ih =>
    refine .intro (h node .self) (fun child hchild => ?_) fun position value heq => hheld position value (heq ▸ .self)
    exact ih child hchild (fun part hpart => h part (.inner hchild hpart))
      fun position value hpart => hheld position value (.inner hchild hpart)

theorem held {position : Int} {value : Value} (h : (Node.literal position value).Throughout P) : value.Throughout P := by
  cases h with
  | intro _ _ held => exact held _ _ rfl

end Node.Throughout

namespace Value.Throughout

theorem body {params : List Json} {body : Node} (h : (Value.function params body).Throughout P) :
    body.Throughout P := by
  cases h with
  | intro _ body => exact body _ _ rfl

theorem list {items : List Value} (h : ∀ item ∈ items, item.Throughout P) : (Value.list items).Throughout P := by
  refine .intro ?_ nofun
  rintro _ ⟨⟩
  exact h

theorem function (params : List Json) {body : Node} (h : body.Throughout P) : (Value.function params body).Throughout P := by
  refine .intro nofun ?_
  rintro _ _ ⟨⟩
  exact h

theorem text (s : String) : (Value.text s).Throughout P := .intro nofun nofun

/-- what an operation gives holds no nodes -/
theorem operate {position : Int} {operator : Json} {a b value : Value}
    (h : Operator.operate position operator a b = .ok value) : value.Throughout P := by
  have hoperated := Operator.operate_operated position operator a b
  rw [h] at hoperated
  cases hoperated with
  | number result =>
    cases result with
    | int n => exact .intro nofun nofun
    | float x => exact .intro nofun nofun
  | answer truth => exact .intro nofun nofun

end Value.Throughout

namespace Evaluation

open Run

/-! ## The invariant -/

/-- what the stops of an evaluation have in common, if all its nodes have a property -/
structure Sites (P : Node → Prop) (stop : Stop → Prop) : Prop where
  /-- literals take the place of arguments -/
  literal : ∀ position value, P (.literal position value)
  abort : ∀ abort, stop (.abort abort)
  exhausted : stop .exhausted
  count : ∀ {position mode count body}, P (.statements position mode [count, body]) → isLoop mode = true →
    ∀ value, stop (countStop value count.position)
  operate : ∀ {position operator left right}, P (.operation position operator left right) → ∀ a b cause,
    Operator.operate position operator a b = .error cause → stop cause
  reference : ∀ {position name}, P (.reference position name) → stop (.fault (.unbound name position))
  callee : ∀ {position name args}, P (.call position name args) → stop (.fault (.unbound name position)) ∧
    ∀ found, stop (.fault (.notCallable name found position))
  arity : ∀ {position name args}, P (.call position name args) → ∀ expected,
    stop (.fault (.arity name expected args.length position))
  print : ∀ {position name args}, P (.call position name args) → Key.ofJson? name = some (.text "print") →
    stop (.fault (.arity (.text "print") 1 args.length position))
  blank : ∀ {position}, P (.blank position) → stop (.fault (.unexpectedNode position))

/-- what all nodes, values and stops have in common -/
def throughout (P : Node → Prop) (stop : Stop → Prop) : Invariant :=
  ⟨Node.Throughout P, Value.Throughout P, stop, anything⟩

variable {stop : Stop → Prop}

theorem throughout_needs (h : Sites P stop) {node : Node} (hnode : node.Throughout P) :
    (throughout P stop).Needs node := by
  have hhere := hnode.here
  have hchildren := hnode.children
  cases node with
  | statements position mode nodes =>
    refine ⟨hchildren, fun _ _ => h.abort _, ?_⟩
    rintro count body hloop rfl value -
    exact h.count hhere hloop value
  | operation position operator left right =>
    refine ⟨hchildren left (by simp [Node.children]), hchildren right (by simp [Node.children]), fun a b _ _ => ?_⟩
    cases hoperate : Operator.operate position operator a b with
    | ok value => exact Value.Throughout.operate hoperate
    | error cause => exact h.operate hhere a b cause hoperate
  | literal position value => exact hnode.held
  | reference position name => exact ⟨fun _ => h.abort _, h.reference hhere⟩
  | assign position name expression =>
    exact ⟨hchildren expression (by simp [Node.children]), fun _ => h.abort _, fun _ _ => trivial, fun _ _ _ _ => trivial⟩
  | lambda position params body => exact .function params (hchildren body (by simp [Node.children]))
  | call position name args =>
    refine ⟨hchildren, ?_⟩
    split
    · exact h.abort _
    · next key hkey =>
      split_ifs with hprint
      · exact h.print hhere (hkey.trans (congrArg some hprint))
      · obtain ⟨hunbound, hnotCallable⟩ := h.callee hhere
        exact ⟨⟨fun _ => h.abort _, hunbound⟩, hnotCallable, fun expected => h.arity hhere expected,
          fun _ => trivial, fun _ => trivial⟩
  | conditional position condition consequent alternative =>
    exact ⟨hchildren condition (by simp [Node.children]), hchildren consequent (by simp [Node.children]),
      hchildren alternative (by simp [Node.children])⟩
  | blank position => exact h.blank hhere

/-- **Evaluation meets only what it started with**, and literals. -/
theorem throughout_inductive (h : Sites P stop) : (throughout P stop).Inductive where
  needs := throughout_needs h
  list := .list
  marker := .text "fn"
  shown _ _ := .text _
  unshown _ _ := h.abort _
  body := Value.Throughout.body
  params _ _ _ := fun _ => h.abort _
  actual {arg value} _ hvalue := .intro (h.literal _ _) nofun (by rintro _ _ ⟨⟩; exact hvalue)
  rounds _ := trivial
  decided _ := trivial
  exhausted := h.exhausted

/-! ## Runs -/

variable {α β : Type} {I : Invariant}

/-- an outcome is a value with a property, or a stop that has the invariant -/
def Invariant.Meets (I : Invariant) (A : α → Prop) : Except Stop α → Prop
  | .ok a => A a
  | .error stop => I.stop stop

/-- where all that is bound has the invariant, the outcome has it and all that is bound afterwards -/
def Stays (I : Invariant) (A : α → Prop) (run : Run α) : Prop :=
  ∀ m, Holds I.node m.scope → I.Meets A (run m).1 ∧ Holds I.node (run m).2.scope

namespace Stays

variable {A : α → Prop} {B : β → Prop} {run : Run α}

theorem bind {go : α → Run β} (h : Stays I A run) (hgo : ∀ a, A a → Stays I B (go a)) : Stays I B (run >>= go) := by
  intro m hm
  obtain ⟨hmeets, hnext⟩ := h m hm
  rcases hr : run m with ⟨outcome, next⟩
  rw [hr] at hmeets hnext
  cases outcome with
  | ok a =>
    rw [run_bind_ok hr]
    exact hgo a hmeets next hnext
  | error stop =>
    rw [run_bind_error hr]
    exact ⟨hmeets, hnext⟩

theorem fetch {name : Json} {position : Int} (h : I.Fetches name position) : Stays I I.node (Run.fetch name position) := by
  intro m hm
  refine ⟨?_, hm⟩
  simp only [Run.fetch, Scope.fetch]
  cases hkey : Key.ofJson? name with
  | none => exact h.usable hkey
  | some key =>
    dsimp only
    cases hfound : m.scope.fetch? key with
    | some node => exact hm.fetch? hfound
    | none => exact h.unbound

theorem assign {name : Json} {node : Node} (h : I.Binds name) (hnode : I.node node) :
    Stays I anything (Run.assign name node) := by
  intro m hm
  unfold Run.assign Name.ofJson?
  cases hkey : Key.ofJson? name with
  | none => exact ⟨h hkey, hm⟩
  | some key => exact ⟨trivial, hm.assign _ hnode⟩

theorem andFinally {after : Run Unit} (h : Stays I A run) (hafter : Stays I anything after) :
    Stays I A (Run.andFinally run after) := by
  intro m hm
  obtain ⟨hmeets, hinner⟩ := h m hm
  rcases hr : run m with ⟨outcome, inner⟩
  rw [hr] at hmeets hinner
  obtain ⟨hended, hlast⟩ := hafter inner hinner
  rcases ha : after inner with ⟨ended, last⟩
  rw [ha] at hended hlast
  rw [andFinally_cases hr ha]
  cases ended with
  | ok _ => exact ⟨hmeets, hlast⟩
  | error stop => exact ⟨hended, hlast⟩

theorem reserve (hexhausted : I.stop .exhausted) (room depth : ℕ) : Stays I anything (Run.reserve room depth) := by
  unfold Run.reserve
  split_ifs
  · exact fun m hm => ⟨trivial, hm⟩
  · exact fun m hm => ⟨hexhausted, hm⟩

section

variable (habort : ∀ abort, I.stop (.abort abort))

include habort

theorem record (t : Tracing) (event : Event) : Stays I anything (Run.record t event) := by
  intro m hm
  unfold Run.record
  split_ifs
  · exact ⟨habort _, hm⟩
  · exact ⟨trivial, hm⟩

theorem trace (t : Tracing) (threshold : ℕ) (line : Unit → Except Abort String) :
    Stays I anything (Run.trace t threshold line) := by
  unfold Run.trace
  split_ifs
  · refine bind (A := anything) (fun m hm => ?_) fun text _ => record habort t _
    cases hl : line () with
    | ok text => exact ⟨trivial, hm⟩
    | error abort => exact ⟨habort abort, hm⟩
  · exact fun m hm => ⟨trivial, hm⟩

theorem traceCall (hexhausted : I.stop .exhausted) (t : Tracing) (room : ℕ) (event : ℕ → Event) :
    Stays I anything (Run.traceCall t room event) := by
  unfold Run.traceCall
  split_ifs
  · have hreserve := reserve hexhausted room
    refine (hreserve lineDepth).bind fun _ _ => bind (A := anything) (fun m hm => ⟨trivial, hm⟩) fun depth _ => ?_
    exact (record habort t _).bind fun _ _ => hreserve passingDepth
  · exact fun m hm => ⟨trivial, hm⟩

theorem leave : Stays I anything Run.leave := by
  intro m hm
  unfold Run.leave
  cases hpop : m.scope.pop? with
  | some outer => exact ⟨trivial, hm.pop hpop⟩
  | none => exact ⟨habort _, hm⟩

theorem inCall (hexhausted : I.stop .exhausted) (t : Tracing) (room : ℕ) (name : String) (given : ℕ) (h : Stays I A run) :
    Stays I A (Run.inCall t room name given run) := by
  have henter : Stays I anything Run.enter := fun m hm => ⟨trivial, hm.push⟩
  have hsaid := traceCall habort hexhausted t room
  refine (reserve hexhausted room _).bind fun _ _ => henter.bind fun _ _ => (hsaid _).bind fun _ _ => h.andFinally ?_
  exact (leave habort).bind fun _ _ => hsaid _

end

end Stays

/-- staying is closed under the ways in which runs are put together -/
theorem stays_composes (habort : ∀ abort, I.stop (.abort abort)) (t : Tracing) (room : ℕ) :
    Composes t t room room I fun _ A run _ => Stays I A run where
  pure ha := fun _ hm => ⟨ha, hm⟩
  bind h hgo := h.bind hgo
  halt hstop := fun _ hm => ⟨hstop, hm⟩
  print _ := fun _ hm => ⟨trivial, hm⟩
  trace _ _ := .trace habort t _ _
  fetch h := .fetch h
  assign h hnode := .assign h hnode
  call hexhausted _ h := h.inCall habort hexhausted t room _ _

/-- **A property of nodes that literals have stays**: where it holds throughout the tree and all that is bound, the run ends
in a value throughout which it holds or stops where such nodes stop, and it holds of all that is bound afterwards. -/
theorem evaluate_stays (h : Sites P stop) (t : Tracing) (budget : ℕ) {node : Node} (hnode : node.Throughout P) :
    Stays (throughout P stop) (Value.Throughout P) (evaluate t budget node) :=
  Composes.evaluate (stays_composes (I := throughout P stop) h.abort t) (throughout_inductive h) budget hnode

end Evaluation

end LetScript
