/-
Trees as the parser makes them, and what evaluation makes of them.

In a well-formed tree loops have a count and a body, operators are known, names are texts that have an encoding, and nothing
stands where a node is missing. A well-formed value is no null, object or built-in function, and holds none. Evaluation stays
among them (`parsed_inductive`), and stops only for reasons that are permitted (`Permitted`).

`evaluate_safe` draws the conclusion: where all that is bound is well-formed, a well-formed tree ends in a well-formed value
or a permitted stop, and leaves all that is bound well-formed. To say that nothing else turns up on the way either, it
compares evaluation with `watched`, which raises an alarm at the first foreign value that anything ends in or that is bound.
-/
import LetScript.Proofs.Evaluation.Containment

namespace LetScript

/-! ## Well-formed trees and values -/

mutual

/-- a tree as the parser makes it -/
inductive Node.WellFormed : Node → Prop where
  | block {position : Int} {nodes : List Node} (all : ∀ node ∈ nodes, node.WellFormed) :
      Node.WellFormed (.statements position (.text "") nodes)
  | loop {position : Int} {count body : Node} (counted : count.WellFormed) (inner : body.WellFormed) :
      Node.WellFormed (.statements position (.text "loop") [count, body])
  | operation {position : Int} {spelling : String} {left right : Node}
      (known : (Operator.ofLabel? spelling).isSome = true) (first : left.WellFormed) (second : right.WellFormed) :
      Node.WellFormed (.operation position (.text spelling) left right)
  | literal {position : Int} {value : Value} (held : value.WellFormed) : Node.WellFormed (.literal position value)
  | reference {position : Int} {name : Json} (named : IsName name) : Node.WellFormed (.reference position name)
  | assign {position : Int} {name : Json} {expression : Node} (named : IsName name) (bound : expression.WellFormed) :
      Node.WellFormed (.assign position name expression)
  | lambda {position : Int} {params : List Json} {body : Node} (named : ∀ param ∈ params, IsName param)
      (inner : body.WellFormed) : Node.WellFormed (.lambda position params body)
  | call {position : Int} {name : Json} {args : List Node} (named : IsName name) (given : ∀ arg ∈ args, arg.WellFormed) :
      Node.WellFormed (.call position name args)
  | conditional {position : Int} {condition consequent alternative : Node} (test : condition.WellFormed)
      (whenTrue : consequent.WellFormed) (whenFalse : alternative.WellFormed) :
      Node.WellFormed (.conditional position condition consequent alternative)

/-- a value that such a tree has -/
inductive Value.WellFormed : Value → Prop where
  | bool (b : Bool) : Value.WellFormed (.bool b)
  | int (n : Int) : Value.WellFormed (.int n)
  | float (x : Binary64) : Value.WellFormed (.float x)
  | text {s : String} (encodable : Text.isEncodable s = true) : Value.WellFormed (.text s)
  | list {items : List Value} (all : ∀ item ∈ items, item.WellFormed) : Value.WellFormed (.list items)
  | function {params : List Json} {body : Node} (named : ∀ param ∈ params, IsName param) (inner : body.WellFormed) :
      Value.WellFormed (.function params body)

end

/-! ## Foreign values -/

/-- whether a value is a null or an object, which only stored trees hold -/
def Value.isForeign : Value → Bool
  | .null => true
  | .record _ => true
  | _ => false

/-- whether a node stands for a foreign value -/
def Node.isForeign : Node → Bool
  | .literal _ value => value.isForeign
  | _ => false

/-- whether a foreign value is bound -/
def Scope.holdsForeign (scope : Scope) : Bool := scope.listing.any fun frame => frame.any fun entry => entry.2.isForeign

theorem Value.WellFormed.isForeign {value : Value} (h : value.WellFormed) : value.isForeign = false := by
  cases h with
  | bool b => rfl
  | int n => rfl
  | float x => rfl
  | text encodable => rfl
  | list all => rfl
  | function named inner => rfl

theorem Node.WellFormed.isForeign {node : Node} (h : node.WellFormed) : node.isForeign = false := by
  cases h with
  | literal held => exact Value.WellFormed.isForeign held
  | _ => rfl

/-! ## Permitted stops -/

/-- the errors that a program may make -/
def permittedKinds : List DiagnosticKind :=
  [.unboundVariable, .arityMismatch, .notCallable, .typeMismatch, .divisionByZero, .numericOverflow]

/-- a stop that a parsed program may come to -/
def Stop.Permitted : Stop → Prop
  | .fault error => error.kind ∈ permittedKinds
  | .abort cause => cause = .numeralTooLong
  | .exhausted => True

/-! ## Texts of well-formed values -/

mutual

/-- all that would be shown of a well-formed value has an encoding -/
theorem Value.WellFormed.encodable : (value : Value) → value.WellFormed → value.Encodable
  | .bool b, _ => .bool b
  | .int n, _ => .int n
  | .float x, _ => .float x
  | .text s, h => by
    cases h with
    | text encodable => exact .text encodable
  | .list items, h => by
    cases h with
    | list all => exact .list (Value.WellFormed.items_encodable items all)
  | .function params body, h => by
    cases h with
    | function named _ => exact .function body named

theorem Value.WellFormed.items_encodable : (items : List Value) → (∀ item ∈ items, item.WellFormed) →
    ∀ item ∈ items, item.Encodable
  | [], _ => nofun
  | item :: rest, h => by
    rw [List.forall_mem_cons] at h
    exact List.forall_mem_cons.2
      ⟨Value.WellFormed.encodable item h.1, Value.WellFormed.items_encodable rest h.2⟩

end

theorem Value.WellFormed.shown_writable (value : Value) (h : value.WellFormed) : Writable value.shown :=
  Value.Encodable.shown_writable value (Value.WellFormed.encodable value h)

/-! ## Operations -/

theorem toValue_wellFormed (number : Number) : number.toValue.WellFormed := by
  cases number with
  | int n => exact .int n
  | float x => exact .float x

/-- a well-formed value, or a fault that a program may make -/
def Computed : Except Fault Value → Prop
  | .ok value => value.WellFormed
  | .error fault => fault.kind ∈ permittedKinds

theorem onNumbers_computed (operator : Operator) (position : Int) (a b : Number) :
    Computed (operator.onNumbers position a b) := by
  obtain ⟨finding, hfinding⟩ := operator.onNumbers_finds a b
  rw [hfinding]
  cases finding with
  | number result => exact toValue_wellFormed result
  | answer truth => exact Value.WellFormed.bool truth
  | overflow => exact show DiagnosticKind.numericOverflow ∈ permittedKinds by decide
  | divisionByZero => exact show DiagnosticKind.divisionByZero ∈ permittedKinds by decide

theorem onValues_computed (operator : Operator) (position : Int) (a b : Value) :
    Computed (operator.onValues position a b) := by
  unfold Operator.onValues
  split
  · exact onNumbers_computed operator position _ _
  · exact show DiagnosticKind.typeMismatch ∈ permittedKinds by decide

namespace Evaluation

open Run

/-! ## The invariant -/

/-- what the trees, values, stops and trace lines of parsed programs have in common -/
def parsed : Invariant := ⟨Node.WellFormed, Value.WellFormed, Stop.Permitted, Writable⟩

theorem parsed_operate (position : Int) {spelling : String} (known : (Operator.ofLabel? spelling).isSome = true)
    (a b : Value) : parsed.Outcome (Operator.operate position (.text spelling) a b) := by
  obtain ⟨operator, hop⟩ := Option.isSome_iff_exists.1 known
  simp only [Operator.operate, hop]
  have hcomputed := onValues_computed operator position a b
  cases hv : operator.onValues position a b with
  | ok value =>
    rw [hv] at hcomputed
    exact hcomputed
  | error fault =>
    rw [hv] at hcomputed
    exact hcomputed

theorem parsed_binds {name : Json} (h : IsName name) : parsed.Binds name := by
  obtain ⟨text, rfl, -⟩ := h
  intro hkey
  cases hkey

theorem parsed_fetches {name : Json} (h : IsName name) (position : Int) : parsed.Fetches name position where
  usable := parsed_binds h
  unbound := List.mem_cons_self

theorem parsed_announces {name : Json} (h : IsName name) (given : ℕ) : parsed.Announces name.spelled given where
  called depth := (callLines_writable h given depth).1
  returned depth := (callLines_writable h given depth).2

theorem countStop_permitted {value : Value} (h : value.WellFormed) (position : Int) : (countStop value position).Permitted := by
  have hshown := Value.WellFormed.shown_writable value h
  unfold countStop
  cases hs : value.shown with
  | ok shown => exact show DiagnosticKind.typeMismatch ∈ permittedKinds by decide
  | error abort =>
    rw [hs] at hshown
    exact hshown

/-- a well-formed node has what it needs -/
theorem parsed_needs {node : Node} (h : node.WellFormed) : parsed.Needs node := by
  cases h with
  | block all => exact ⟨all, fun hloop => absurd hloop (by decide), fun _ _ hloop => absurd hloop (by decide)⟩
  | @loop position count body counted inner =>
    refine ⟨List.forall_mem_cons.2 ⟨counted, List.forall_mem_cons.2 ⟨inner, fun _ hn => by cases hn⟩⟩, ?_, ?_⟩
    · exact fun _ hpair => absurd rfl (hpair count body)
    · exact fun _ _ _ _ value hvalue => countStop_permitted hvalue _
  | operation known first second => exact ⟨first, second, fun a b _ _ => parsed_operate _ known a b⟩
  | literal held => exact held
  | reference named => exact parsed_fetches named _
  | assign named bound =>
    refine ⟨bound, parsed_binds named, fun value hvalue => ?_, ?_⟩
    · exact valueLine_writable named (Value.WellFormed.encodable value hvalue)
    · rintro place params body rfl
      cases bound with
      | lambda params _ => exact functionLine_writable named params
  | lambda named inner => exact Value.WellFormed.function named inner
  | @call position name args named given =>
    refine ⟨given, ?_⟩
    obtain ⟨text, hname, htext⟩ := id named
    rw [hname]
    simp only [Key.ofJson?]
    split_ifs
    · exact show DiagnosticKind.arityMismatch ∈ permittedKinds by decide
    · rw [← hname]
      exact ⟨parsed_fetches named position, fun _ => show DiagnosticKind.notCallable ∈ permittedKinds by decide,
        fun _ => show DiagnosticKind.arityMismatch ∈ permittedKinds by decide, parsed_announces named args.length⟩
  | conditional test whenTrue whenFalse => exact ⟨test, whenTrue, whenFalse⟩

/-- **Evaluation stays among well-formed trees and values.** -/
theorem parsed_inductive : parsed.Inductive where
  needs := parsed_needs
  list := .list
  marker := .text (by decide)
  shown {value text} hvalue htext := by
    have hshown := Value.WellFormed.shown_writable value hvalue
    rw [htext] at hshown
    exact .text hshown
  unshown {value abort} hvalue habort := by
    have hshown := Value.WellFormed.shown_writable value hvalue
    rw [habort] at hshown
    exact hshown
  body {params body} h := by
    cases h with
    | function _ inner => exact inner
  params {params body} h param hparam := by
    cases h with
    | function named _ => exact parsed_binds (named param hparam)
  actual _ hvalue := .literal hvalue
  rounds times := roundsLine_writable times
  decided {value} hvalue := decisionLine_writable (Value.WellFormed.encodable value hvalue)
  exhausted := trivial

/-! ## Scopes -/

/-- all that is bound is well-formed -/
def Tidy (scope : Scope) : Prop := ∀ frame ∈ scope.current :: scope.frames, ∀ entry ∈ frame, entry.2.WellFormed

theorem tidy_empty : Tidy .empty := holds_empty Node.WellFormed

theorem Tidy.holdsForeign {scope : Scope} (h : Tidy scope) : scope.holdsForeign = false := by
  simp only [Scope.holdsForeign, Scope.listing, List.any_eq_false, List.mem_reverse]
  intro frame hframe
  simp only [Bool.not_eq_true, List.any_eq_false]
  intro entry hentry
  exact Node.WellFormed.isForeign (h frame hframe entry hentry)

/-! ## Watched evaluation -/

/-- ends as the run does, unless its value is foreign or something foreign is bound: then the alarm is raised -/
def checked (alarm : Run Value) (run : Run Value) : Run Value := fun m =>
  match run m with
  | (.ok value, last) => if value.isForeign || last.scope.holdsForeign then alarm last else (.ok value, last)
  | (.error stop, last) => (.error stop, last)

/-- evaluation with a check at the end of every node -/
def watched (tracing : Tracing) (alarm : Run Value) : ℕ → Node → Run Value
  | 0, _ => halt .exhausted
  | budget + 1, node => checked alarm (step tracing budget (watched tracing alarm budget) node)

theorem parsed_traceable : parsed.Traceable := ⟨id, rfl⟩

/-- where two runs do the same and stay among what is well-formed, the check changes nothing -/
theorem checked_contained {run run' : Run Value} (h : Contained parsed Value Value.WellFormed run run') (alarm : Run Value) :
    Contained parsed Value Value.WellFormed run (checked alarm run') := by
  intro m hm
  obtain ⟨hsame, hconfined⟩ := h m hm
  refine ⟨?_, hconfined⟩
  obtain ⟨hmeets, hholds, -⟩ := hconfined
  rcases hr : run m with ⟨outcome, last⟩
  rw [hr] at hsame hmeets hholds
  simp only [checked, hsame]
  cases outcome with
  | ok value =>
    dsimp only
    rw [Value.WellFormed.isForeign hmeets, Tidy.holdsForeign hholds]
    rfl
  | error stop => rfl

/-- **Parsed trees are safe.** Where all that is bound is well-formed, a well-formed tree ends in a well-formed value or at a
permitted stop, all that is bound is well-formed afterwards, and no alarm is raised on the way; the scopes that were opened are
closed, unless the budget was used up. -/
theorem evaluate_safe (tracing : Tracing) (alarm : Run Value) (budget : ℕ) {node : Node} (h : node.WellFormed) :
    Contained parsed Value Value.WellFormed (evaluate tracing budget node) (watched tracing alarm budget node) := by
  induction budget generalizing node with
  | zero => exact .ofStill fun _ _ => ⟨rfl, trivial⟩
  | succ budget ih =>
    have hstep := (contained_composes parsed_traceable tracing budget).step parsed_inductive (fun node hnode => ih hnode) h
    exact checked_contained hstep alarm

end Evaluation

end LetScript
