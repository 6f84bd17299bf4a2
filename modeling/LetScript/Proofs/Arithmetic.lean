/-
What operators make of numbers.

Two numbers give a number, the answer to a comparison, or one of two faults. Which of these it is does not depend on where the
operation stands; only the faults name the place: `onNumbers_finds`. What an operation of a tree ends in, and which operator
its faults name, is `operate_operated`.
-/
import LetScript.Arithmetic
import Mathlib.Tactic.Common

namespace LetScript.Operator

/-- what two numbers give -/
inductive Finding where
  | number (number : Number)
  | answer (truth : Bool)
  | overflow
  | divisionByZero

/-- what an operation at a position ends in -/
def Finding.outcome (operator : Operator) (position : Int) : Finding → Except Fault Value
  | .number result => .ok result.toValue
  | .answer truth => .ok (.bool truth)
  | .overflow => .error (.overflow operator.label position)
  | .divisionByZero => .error (.divisionByZero position)

/-- **What an operator finds of two numbers does not depend on its position.** -/
theorem onNumbers_finds (operator : Operator) (a b : Number) :
    ∃ finding : Finding, ∀ position, operator.onNumbers position a b = finding.outcome operator position := by
  -- a number, unless there is none
  have hchecked : ∀ result : Option Number,
      (∀ position, operator.onNumbers position a b =
        result.elim (.error (.overflow operator.label position)) fun number => .ok number.toValue) →
      ∃ finding : Finding, ∀ position, operator.onNumbers position a b = finding.outcome operator position := by
    intro result h
    cases result with
    | some number => exact ⟨.number number, h⟩
    | none => exact ⟨.overflow, h⟩
  cases operator with
  | add => exact hchecked (a.add b) fun _ => by simp only [onNumbers]; cases a.add b <;> rfl
  | sub => exact hchecked (a.sub b) fun _ => by simp only [onNumbers]; cases a.sub b <;> rfl
  | mul => exact hchecked (a.mul b) fun _ => by simp only [onNumbers]; cases a.mul b <;> rfl
  | div =>
    by_cases hzero : b.isZero = true
    · exact ⟨.divisionByZero, fun _ => if_pos hzero⟩
    · exact hchecked (a.div b) fun _ => by simp only [onNumbers, if_neg hzero]; cases a.div b <;> rfl
  | _ => exact ⟨.answer _, fun _ => rfl⟩

theorem label_of_ofLabel? {spelling : String} {operator : Operator} (h : ofLabel? spelling = some operator) :
    operator.label = spelling := by
  simpa using List.find?_some h

/-- only a division finds a divisor of zero -/
theorem onNumbers_division {operator : Operator} {position place : Int} {a b : Number}
    (h : operator.onNumbers position a b = .error (.divisionByZero place)) : operator = .div := by
  cases operator with
  | div => rfl
  | add | sub | mul =>
    -- a number, unless there is none
    simp only [onNumbers] at h
    split at h
    · cases h
    · cases h
  | _ => cases h

/-- what an operation at a position may end in -/
inductive Operated (position : Int) (operator : Json) : Except Stop Value → Prop where
  | number (result : Number) : Operated position operator (.ok result.toValue)
  | answer (truth : Bool) : Operated position operator (.ok (.bool truth))
  | operands {known : Operator} (spelled : operator = .text known.label) (left right : String) :
      Operated position operator (.error (.fault (.operands known.label left right position)))
  | overflow {known : Operator} (spelled : operator = .text known.label) :
      Operated position operator (.error (.fault (.overflow known.label position)))
  | division (spelled : operator = .text div.label) : Operated position operator (.error (.fault (.divisionByZero position)))
  | unknown (unspelled : ∀ spelling, operator = .text spelling → ofLabel? spelling = none) :
      Operated position operator (.error (.fault (.unknownOperator operator position)))
  | unusable : Operated position operator (.error (.abort .unusableName))

/-- **What an operation ends in**: its faults are for its position and name its operator. -/
theorem operate_operated (position : Int) (operator : Json) (left right : Value) :
    Operated position operator (operate position operator left right) := by
  cases operator with
  | text spelling =>
    simp only [operate]
    cases hknown : ofLabel? spelling with
    | none =>
      refine .unknown ?_
      rintro _ ⟨⟩
      exact hknown
    | some known =>
      obtain rfl := label_of_ofLabel? hknown
      simp only [onValues]
      split
      · next a b _ _ =>
        obtain ⟨finding, hfinding⟩ := known.onNumbers_finds a b
        have hdivision : known.onNumbers position a b = .error (.divisionByZero position) → known = .div :=
          onNumbers_division
        rw [hfinding] at hdivision ⊢
        cases finding with
        | number result => exact .number result
        | answer truth => exact .answer truth
        | overflow => exact .overflow rfl
        | divisionByZero =>
          obtain rfl := hdivision rfl
          exact .division rfl
      · exact .operands rfl _ _
  | list items => exact .unusable
  | object fields => exact .unusable
  | _ => exact .unknown nofun

end LetScript.Operator
