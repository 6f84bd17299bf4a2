/-
How far rounding moves a quotient.

A quotient of natural numbers is rounded to a whole number of steps, each a power of two. The result is at most half a step away
(`nearest_error`), and a step is one, or small against the quotient (`step_cases`): so the error is a `2^-53` part of the
quotient or less, unless the quotient has at most 53 bits and the error is half a unit or less (`nearest_close`).

A quotient of integers is counted in units of `2^-1074`. The nearest number can be whole though the quotient is not: where what is
left over is too small to be seen beside the whole, or where nothing is left of the quotient at all (`quotient_whole`).
-/
import LetScript.Binary64
import Mathlib.Tactic

namespace LetScript.Binary64

/-! ## Rounding -/

/-- rounding to a natural number moves a quotient by half a unit at most -/
theorem roundHalfEven_error (num : ℕ) {den : ℕ} (hden : 0 < den) :
    2 * |(roundHalfEven num den * den : ℤ) - num| ≤ den := by
  have hdivision : (num : ℤ) = num / den * den + num % den := by
    exact_mod_cast (Nat.div_add_mod' num den).symm
  have hlt : ((num % den : ℕ) : ℤ) < den := by exact_mod_cast Nat.mod_lt num hden
  have hbelow : |((num / den : ℕ) * den : ℤ) - num| = ((num % den : ℕ) : ℤ) := by
    rw [abs_sub_comm, abs_of_nonneg]
    · push_cast
      linarith
    · push_cast
      linarith [Int.emod_nonneg (num : ℤ) (by omega : (den : ℤ) ≠ 0)]
  have habove : |((num / den + 1 : ℕ) * den : ℤ) - num| = den - ((num % den : ℕ) : ℤ) := by
    rw [abs_of_nonneg]
    · push_cast
      linarith
    · push_cast at hlt ⊢
      linarith
  unfold roundHalfEven
  dsimp only
  split_ifs with hless hmore heven
  · rw [hbelow]
    omega
  · rw [habove]
    omega
  · rw [hbelow]
    omega
  · rw [habove]
    omega

/-- a step is one and the quotient has at most 53 bits, or the quotient is `2^52` steps or more -/
theorem step_cases (quotient : ℕ) :
    2 ^ excessBits quotient = 1 ∧ quotient < 2 ^ 53 ∨ 2 ^ 52 * 2 ^ excessBits quotient ≤ quotient := by
  by_cases hlog : quotient.log2 + 1 ≤ 53
  · refine Or.inl ⟨?_, ?_⟩
    · rw [excessBits, Nat.sub_eq_zero_of_le hlog, pow_zero]
    · exact Nat.lt_log2_self.trans_le (Nat.pow_le_pow_right (by decide) hlog)
  · have hne : quotient ≠ 0 := by
      rintro rfl
      exact hlog (by decide)
    have hbits : 52 + excessBits quotient = quotient.log2 := by
      unfold excessBits
      omega
    right
    calc 2 ^ 52 * 2 ^ excessBits quotient = 2 ^ quotient.log2 := by rw [← pow_add, hbits]
      _ ≤ quotient := Nat.log2_self_le hne

/-- rounding to a number moves a quotient by half a step at most -/
theorem nearest_error (num : ℕ) {den : ℕ} (hden : 0 < den) :
    2 * |(nearest num den * den : ℤ) - num| ≤ den * 2 ^ excessBits (num / den) := by
  have hstep : 0 < den * 2 ^ excessBits (num / den) := Nat.mul_pos hden (Nat.two_pow_pos _)
  have herror := roundHalfEven_error num hstep
  have hunits : (nearest num den * den : ℤ) =
      (roundHalfEven num (den * 2 ^ excessBits (num / den)) * (den * 2 ^ excessBits (num / den) : ℕ) : ℤ) := by
    simp only [nearest, Nat.pow_eq]
    push_cast
    ring
  rw [hunits]
  exact_mod_cast herror

/-- **Rounding to a number moves a quotient by a `2^-53` part of it at most**, or by half a unit at most, and then the quotient
has at most 53 bits. -/
theorem nearest_close (num : ℕ) {den : ℕ} (hden : 0 < den) :
    (2 ^ 53 : ℤ) * |(nearest num den * den : ℤ) - num| ≤ num ∨
      2 * |(nearest num den * den : ℤ) - num| ≤ den ∧ num < 2 ^ 53 * den := by
  have herror := nearest_error num hden
  rcases step_cases (num / den) with ⟨hone, hbits⟩ | hlarge
  · right
    refine ⟨?_, (Nat.div_lt_iff_lt_mul hden).1 hbits⟩
    have hstep : ((2 : ℤ) ^ excessBits (num / den)) = 1 := by exact_mod_cast hone
    rwa [hstep, mul_one] at herror
  · left
    have hnum : 2 ^ 52 * 2 ^ excessBits (num / den) * den ≤ num := (Nat.le_div_iff_mul_le hden).1 hlarge
    have hnum' : (2 ^ 52 : ℤ) * 2 ^ excessBits (num / den) * den ≤ num := by exact_mod_cast hnum
    calc (2 ^ 53 : ℤ) * |(nearest num den * den : ℤ) - num|
        = 2 ^ 52 * (2 * |(nearest num den * den : ℤ) - num|) := by ring
      _ ≤ 2 ^ 52 * (den * 2 ^ excessBits (num / den)) := by gcongr
      _ = 2 ^ 52 * 2 ^ excessBits (num / den) * den := by ring
      _ ≤ num := hnum'

/-! ## Quotients that come out whole -/

/-- with the sign of a quotient, a quotient of magnitudes is as far off as among the magnitudes -/
theorem signed_distance (a b : ℤ) (k : ℕ) :
    |a - signed ((a < 0) != (b < 0)) k * b| = |(k * |b| - |a|)| := by
  have hproduct : signed ((a < 0) != (b < 0)) k * b = if a < 0 then -(k * |b|) else k * |b| := by
    rcases lt_or_ge b 0 with hb | hb
    · rw [abs_of_neg hb]
      by_cases ha : a < 0 <;> simp [signed, ha, hb]
    · rw [abs_of_nonneg hb]
      by_cases ha : a < 0 <;> simp [signed, ha, not_lt.2 hb]
  rw [hproduct]
  split_ifs with ha
  · rw [abs_of_neg ha]
    congr 1
    ring
  · rw [abs_of_nonneg (not_lt.1 ha), abs_sub_comm]

theorem ofUnits_finite {negative sign : Bool} {num den units : ℕ} (h : ofUnits negative num den = .finite sign units) :
    sign = negative ∧ units = nearest num den := by
  rw [ofUnits] at h
  split_ifs at h
  cases h
  exact ⟨rfl, rfl⟩

theorem finite?_eq_some {x y : Binary64} (h : x.finite? = some y) :
    ∃ negative units, x = .finite negative units ∧ y = .finite negative units := by
  cases x with
  | finite negative units => exact ⟨negative, units, rfl, (Option.some.inj h).symm⟩
  | _ => cases h

/-- the quotient is the nearest number of units of the quotient of the magnitudes, with the sign of a quotient -/
theorem quotient?_eq {a b : ℤ} {x : Binary64} (h : quotient? a b = some x) :
    x = .finite ((a < 0) != (b < 0)) (nearest (a.natAbs * unitsPerOne) b.natAbs) := by
  rw [quotient?] at h
  obtain ⟨_, _, hfinite, rfl⟩ := finite?_eq_some h
  obtain ⟨rfl, rfl⟩ := ofUnits_finite hfinite
  rfl

theorem large_unitsPerOne : 2 ^ 54 ≤ unitsPerOne := by decide +kernel

/-- magnitudes, counted in small enough units: a whole number close to a quotient of them among the units is close to it, or
zero -/
theorem close_of_units {a b k units : ℤ} (ha : 0 ≤ a) (hb : 0 < b) (hk : 0 ≤ k) (hunits : 2 ^ 54 ≤ units)
    (hclose : 2 ^ 53 * |k * units * b - a * units| ≤ a * units ∨
      2 * |k * units * b - a * units| ≤ b ∧ a * units < 2 ^ 53 * b) :
    2 ^ 53 * |k * b - a| ≤ a ∨ k = 0 ∧ 2 * units * a ≤ b := by
  have hpos : 0 < units := by linarith
  have hdistance : |k * units * b - a * units| = units * |k * b - a| := by
    rw [show k * units * b - a * units = units * (k * b - a) by ring, abs_mul, abs_of_pos hpos]
  rw [hdistance] at hclose
  rcases hclose with hclose | ⟨hclose, hsmall⟩
  · left
    refine le_of_mul_le_mul_left ?_ hpos
    linarith
  · right
    -- the quotient is below a half, and half a unit is less than that
    have hhalf : 2 * a < b := by nlinarith
    have hzero : k = 0 := by
      by_contra hne
      have hone : 1 ≤ k := by omega
      have hfar : b < 2 * |k * b - a| := by
        have := le_abs_self (k * b - a)
        nlinarith
      nlinarith
    refine ⟨hzero, ?_⟩
    rw [hzero, zero_mul, zero_sub, abs_neg, abs_of_nonneg ha] at hclose
    linarith

/-- **A quotient that comes out whole** is within a `2^-53` part of the exact one, or nothing is left of it: the exact one is
a half of the smallest unit at most. -/
theorem quotient_whole {a b : ℤ} (hb : b ≠ 0) {x : Binary64} (h : quotient? a b = some x) (hwhole : x.isWhole = true)
    {q : ℤ} (hq : x.truncate? = some q) :
    (2 ^ 53 : ℤ) * |a - q * b| ≤ |a| ∨ q = 0 ∧ 2 * unitsPerOne * |a| ≤ |b| := by
  have hclose := nearest_close (a.natAbs * unitsPerOne) (Int.natAbs_pos.2 hb)
  have hlarge : (2 ^ 54 : ℤ) ≤ unitsPerOne := by exact_mod_cast large_unitsPerOne
  obtain rfl := quotient?_eq h
  have hunits := Nat.div_mul_cancel (Nat.dvd_of_mod_eq_zero (of_decide_eq_true hwhole))
  cases hq
  generalize nearest (a.natAbs * unitsPerOne) b.natAbs = units at hclose hunits ⊢
  generalize unitsPerOne = one at hclose hunits hlarge ⊢
  generalize units / one = k at hunits ⊢
  subst hunits
  zify at hclose
  rw [signed_distance]
  rcases close_of_units (abs_nonneg a) (abs_pos.2 hb) (Int.natCast_nonneg k) hlarge hclose with hnear | ⟨hzero, hleft⟩
  · exact Or.inl hnear
  · exact Or.inr ⟨by simp [signed, hzero], hleft⟩

end LetScript.Binary64
