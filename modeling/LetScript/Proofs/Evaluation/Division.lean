/-
Quotients of integers.

A division of two integers, written out as literals, leaves the machine as it is, and ends in the exact quotient, in a number
that is not whole, in an integer the exact quotient was rounded to, or in an overflow (`Quotient`). The exact quotient is found
whenever there is one, of any size and sign. Where there is none, the double-precision number nearest to the quotient is made an
integer if it is whole, and it can be whole when its 53 bits end above the point or when nothing is left of the quotient. Neither
happens while the dividend has 53 bits or less and the divisor is not astronomical, and there an integer is exact
(`integers_divide`).
-/
import LetScript.Evaluation
import LetScript.Proofs.Binary64

namespace LetScript.Evaluation

open Operator

/-- what a division of two integers at a position may end in -/
inductive Quotient (position a b : ℤ) : Except Stop Value → Prop where
  | exact {q : ℤ} (product : q * b = a) : Quotient position a b (.ok (.int q))
  /-- the number nearest to the quotient, when it is not whole -/
  | fraction {x : Binary64} (remainder : ¬ b ∣ a) (nearest : Binary64.quotient? a b = some x) (broken : x.isWhole = false) :
      Quotient position a b (.ok (.float x))
  /-- the number nearest to the quotient, when it is whole though the quotient is not -/
  | rounded {x : Binary64} {q : ℤ} (remainder : ¬ b ∣ a) (nearest : Binary64.quotient? a b = some x) (whole : x.isWhole = true)
      (value : x.truncate? = some q)
      (close : (2 ^ 53 : ℤ) * |a - q * b| ≤ |a| ∨ q = 0 ∧ 2 * Binary64.unitsPerOne * |a| ≤ |b|) :
      Quotient position a b (.ok (.int q))
  | overflow (remainder : ¬ b ∣ a) (large : Binary64.quotient? a b = none) :
      Quotient position a b (.error (.fault (.overflow "/" position)))

/-- dividing two integers, the divisor not being zero -/
theorem operate_division (position a : ℤ) {b : ℤ} (hb : b ≠ 0) :
    operate position (.text "/") (.int a) (.int b) =
      ((Number.int a).div (.int b)).elim (.error (.fault (.overflow "/" position))) fun number => .ok number.toValue := by
  change ((Operator.div.onNumbers position (.int a) (.int b)).mapError Stop.fault) = _
  simp only [onNumbers, Number.isZero, decide_eq_true_eq, if_neg hb]
  cases (Number.int a).div (.int b) <;> rfl

/-- **What a quotient of integers comes to.** -/
theorem operate_quotient (position a : ℤ) {b : ℤ} (hb : b ≠ 0) :
    Quotient position a b (operate position (.text "/") (.int a) (.int b)) := by
  rw [operate_division position a hb, Number.div]
  by_cases hdivides : b ∣ a
  · rw [if_pos (Int.emod_eq_zero_of_dvd hdivides)]
    exact .exact (Int.ediv_mul_cancel hdivides)
  · rw [if_neg (mt Int.dvd_of_emod_eq_zero hdivides)]
    cases hnearest : Binary64.quotient? a b with
    | none => exact .overflow hdivides hnearest
    | some x =>
      have hfinite := Binary64.quotient?_eq hnearest
      cases hwhole : x.isWhole with
      | false =>
        have hnumber : Number.integral x = .float x := by
          rw [hfinite] at hwhole ⊢
          simp only [Number.integral, Binary64.truncate?, hwhole, Bool.false_eq_true, if_false]
        simp only [Option.map_some, Option.elim_some, hnumber]
        exact .fraction hdivides hnearest hwhole
      | true =>
        obtain ⟨q, hq⟩ : ∃ q, x.truncate? = some q := by
          rw [hfinite]
          exact ⟨_, rfl⟩
        have hnumber : Number.integral x = .int q := by
          simp only [Number.integral, hq, hwhole, if_true]
        simp only [Option.map_some, Option.elim_some, hnumber]
        exact .rounded hdivides hnearest hwhole hq (Binary64.quotient_whole hb hnearest hwhole hq)

namespace Quotient

variable {position a b q : ℤ} {outcome : Except Stop Value}

/-- the exact quotient is found if there is one -/
theorem complete (hb : b ≠ 0) (h : Quotient position a b outcome) (hproduct : q * b = a) : outcome = .ok (.int q) := by
  have hdivides : b ∣ a := ⟨q, by rw [← hproduct, mul_comm]⟩
  cases h with
  | exact hother => rw [mul_right_cancel₀ hb (hother.trans hproduct.symm)]
  | fraction hremainder => exact absurd hdivides hremainder
  | rounded hremainder => exact absurd hdivides hremainder
  | overflow hremainder => exact absurd hdivides hremainder

/-- an integer is the exact quotient, if the dividend has 53 bits or less and the divisor is not astronomical -/
theorem sound (h : Quotient position a b (.ok (.int q))) (hdividend : |a| < 2 ^ 53)
    (hdivisor : |b| < 2 * Binary64.unitsPerOne) : q * b = a := by
  cases h with
  | exact hproduct => exact hproduct
  | rounded hremainder _ _ _ hclose =>
    rcases hclose with hclose | ⟨-, hleft⟩
    · -- the distance is an integer below one
      have hzero : |a - q * b| = 0 := by
        have := abs_nonneg (a - q * b)
        linarith
      linarith [abs_eq_zero.1 hzero]
    · -- nothing is left of the quotient only if there is nothing to divide
      have hzero : a = 0 := by
        by_contra hne
        have hone : 1 ≤ |a| := Int.one_le_abs hne
        have hunits : 0 ≤ (Binary64.unitsPerOne : ℤ) := Int.natCast_nonneg _
        generalize (Binary64.unitsPerOne : ℤ) = units at hleft hdivisor hunits
        nlinarith
      exact absurd (hzero ▸ dvd_zero b) hremainder

end Quotient

/-- an operation on two literals only operates -/
theorem evaluate_literals (tracing : Tracing) (budget : ℕ) (position leftAt rightAt : ℤ) (operator : Json)
    (left right : Value) (machine : Machine) :
    evaluate tracing (budget + 2) (.operation position operator (.literal leftAt left) (.literal rightAt right)) machine =
      (operate position operator left right, machine) := rfl

/-- **Division of integers.** For integers of any size and sign, the divisor not being zero, an operation on two literals ends
in the exact quotient, in a number that is not whole, in an overflow, or in an integer within a `2^-53` part of the quotient
(`Quotient`), and changes nothing. If the divisor divides, it is the exact quotient. If it is an integer, it is the exact
quotient, unless the dividend has more than 53 bits or the divisor is at least `2^1075`. -/
theorem integers_divide (tracing : Tracing) (budget : ℕ) (position dividendAt divisorAt a b : ℤ) (hb : b ≠ 0)
    (machine : Machine) :
    ∃ outcome,
      evaluate tracing (budget + 2)
          (.operation position (.text "/") (.literal dividendAt (.int a)) (.literal divisorAt (.int b))) machine =
        (outcome, machine) ∧
      Quotient position a b outcome ∧
      (∀ q, q * b = a → outcome = .ok (.int q)) ∧
      (|a| < 2 ^ 53 → |b| < 2 * Binary64.unitsPerOne → ∀ q, outcome = .ok (.int q) → q * b = a) := by
  have hquotient := operate_quotient position a hb
  refine ⟨_, evaluate_literals _ _ _ _ _ _ _ _ _, hquotient, fun q hproduct => hquotient.complete hb hproduct, fun hdividend hdivisor q hq => ?_⟩
  rw [hq] at hquotient
  exact hquotient.sound hdividend hdivisor

/-- minus twelve by four is minus three, and no other integer comes out -/
theorem integers_divide_negative :
    ∃ outcome, (evaluate 3 2 (.operation 4 (.text "/") (.literal 0 (.int (-12))) (.literal 6 (.int 4))) ⟨.empty, []⟩).1 = outcome ∧
      outcome = .ok (.int (-3)) ∧ ∀ q, outcome = .ok (.int q) → q * 4 = -12 := by
  obtain ⟨outcome, hrun, -, hexact, hsound⟩ := integers_divide 3 0 4 0 6 (-12) 4 (by decide) ⟨.empty, []⟩
  have hdivisor : |(4 : ℤ)| < 2 * Binary64.unitsPerOne := by
    have hlarge : (2 ^ 54 : ℤ) ≤ Binary64.unitsPerOne := by exact_mod_cast Binary64.large_unitsPerOne
    generalize (Binary64.unitsPerOne : ℤ) = units at hlarge
    norm_num
    linarith
  exact ⟨outcome, by rw [hrun], hexact (-3) (by decide), hsound (by decide) hdivisor⟩

/-- the quotient of an odd number of 54 bits by two comes out as an integer, which is not the quotient -/
theorem odd_halved_to_integer :
    (evaluate 0 2 (.operation 0 (.text "/") (.literal 0 (.int 9007199254740993)) (.literal 0 (.int 2))) ⟨.empty, []⟩).1 =
        .ok (.int 4503599627370496) ∧
      (4503599627370496 * 2 : ℤ) ≠ 9007199254740993 := by
  refine ⟨?_, by decide⟩
  have hdiv : (Number.int 9007199254740993).div (.int 2) = some (.int 4503599627370496) := by decide +kernel
  rw [evaluate_literals, operate_division _ _ (by decide), hdiv, Option.elim_some, Number.toValue]

end LetScript.Evaluation
