/-
Double-precision numbers with exact rounding.

A finite number is a sign and a whole number of units of `2^-1074`, the smallest positive number of the format, so every
operation is an exact computation on natural numbers followed by one rounding. `nearest` rounds a fraction of units to
53 significant bits, a half going to the even neighbour; from `2^1024` on a result is infinite. Zero keeps its sign.

Comparisons with integers are exact and never round.
-/

namespace LetScript

/-- a double-precision number: not a number, an infinity, or a signed count of units of `2^-1074` -/
inductive Binary64 where
  | nan
  | infinite (negative : Bool)
  | finite (negative : Bool) (units : Nat)
  deriving DecidableEq

namespace Binary64

/-- units in the number one -/
def unitsPerOne : Nat := Nat.pow 2 1074

/-- units in `2^1024`, from which on a rounded magnitude is infinite -/
def unitLimit : Nat := Nat.pow 2 2098

/-! ## Rounding -/

/-- the quotient rounded to the nearest natural number, a half to the even neighbour -/
def roundHalfEven (num den : Nat) : Nat :=
  let q := num / den
  let r := num % den
  if 2 * r < den then q
  else if den < 2 * r then q + 1
  else if q % 2 = 0 then q else q + 1

/-- how many low bits of a count of units lie below 53 significant bits -/
def excessBits (units : Nat) : Nat := units.log2 + 1 - 53

/-- the representable count of units nearest to `num / den` -/
def nearest (num den : Nat) : Nat :=
  let step := Nat.pow 2 (excessBits (num / den))
  roundHalfEven num (den * step) * step

/-- the number nearest to `num / den` units, with the given sign -/
def ofUnits (negative : Bool) (num den : Nat) : Binary64 :=
  let units := nearest num den
  if units < unitLimit then .finite negative units else .infinite negative

/-! ## Integers -/

/-- a finite number -/
def finite? : Binary64 → Option Binary64
  | .finite negative units => some (.finite negative units)
  | _ => none

/-- the number nearest to an integer, unless that is infinite -/
def ofInt? (n : Int) : Option Binary64 := (ofUnits (n < 0) (n.natAbs * unitsPerOne) 1).finite?

/-- the number nearest to the exact quotient of two integers, unless that is infinite; the divisor is not zero -/
def quotient? (a b : Int) : Option Binary64 :=
  (ofUnits ((a < 0) != (b < 0)) (a.natAbs * unitsPerOne) b.natAbs).finite?

/-- the value of a finite number in units, with its sign -/
def signed (negative : Bool) (units : Nat) : Int := if negative then -(units : Int) else (units : Int)

/-- whether a number is finite and whole -/
def isWhole : Binary64 → Bool
  | .finite _ units => units % unitsPerOne = 0
  | _ => false

def isZero : Binary64 → Bool
  | .finite _ units => units = 0
  | _ => false

/-- the integer part of a finite number, toward zero -/
def truncate? : Binary64 → Option Int
  | .finite negative units => some (signed negative (units / unitsPerOne))
  | _ => none

/-! ## Arithmetic -/

def neg : Binary64 → Binary64
  | .nan => .nan
  | .infinite negative => .infinite (!negative)
  | .finite negative units => .finite (!negative) units

/-- the sum; an exact zero is negative only when both terms are -/
def add : Binary64 → Binary64 → Binary64
  | .nan, _ => .nan
  | _, .nan => .nan
  | .infinite s, .infinite t => if s = t then .infinite s else .nan
  | .infinite s, .finite _ _ => .infinite s
  | .finite _ _, .infinite t => .infinite t
  | .finite s a, .finite t b =>
    let sum := signed s a + signed t b
    if sum = 0 then .finite (s && t) 0 else ofUnits (sum < 0) sum.natAbs 1

def sub (x y : Binary64) : Binary64 := add x (neg y)

def mul : Binary64 → Binary64 → Binary64
  | .nan, _ => .nan
  | _, .nan => .nan
  | .infinite s, .infinite t => .infinite (s != t)
  | .infinite s, .finite t b => if b = 0 then .nan else .infinite (s != t)
  | .finite s a, .infinite t => if a = 0 then .nan else .infinite (s != t)
  | .finite s a, .finite t b => ofUnits (s != t) (a * b) unitsPerOne

/-- the quotient; a zero divisor gives an infinity, or no number when nothing or an infinity decides the sign -/
def div : Binary64 → Binary64 → Binary64
  | .nan, _ => .nan
  | _, .nan => .nan
  | .infinite _, .infinite _ => .nan
  | .infinite s, .finite t _ => .infinite (s != t)
  | .finite s _, .infinite t => .finite (s != t) 0
  | .finite s a, .finite t b =>
    if b = 0 then if a = 0 then .nan else .infinite (s != t)
    else ofUnits (s != t) (a * unitsPerOne) b

/-! ## Order -/

/-- the order of two numbers; none when one of them is not a number -/
def order? : Binary64 → Binary64 → Option Ordering
  | .nan, _ => none
  | _, .nan => none
  | .infinite s, .infinite t => some (if s = t then .eq else if s then .lt else .gt)
  | .infinite s, .finite _ _ => some (if s then .lt else .gt)
  | .finite _ _, .infinite t => some (if t then .gt else .lt)
  | .finite s a, .finite t b => some (compare (signed s a) (signed t b))

/-- the order of an integer and a number, without rounding -/
def orderOfInt? (n : Int) : Binary64 → Option Ordering
  | .nan => none
  | .infinite t => some (if t then .gt else .lt)
  | .finite t b => some (compare (n * unitsPerOne) (signed t b))

end Binary64

end LetScript
