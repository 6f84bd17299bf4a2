/-
Double-precision numbers as decimal text.

`ofDecimal` reads `digits * 10^exponent` with one rounding. `shortest` is the inverse: the fewest digits that read back
as the number, the nearest such decimal when there are two, the even one at a tie. `text` lays those digits out
positionally while the scientific exponent is at least -4 and below 16, with `.0` after a whole number, and else as
`d.ddde+XX` with a signed exponent of two digits or more.
-/
import LetScript.Binary64
import LetScript.Numeral

namespace LetScript.Binary64

/-! ## Reading -/

/-- how many decimal digits a natural number has -/
def decimalLength (n : Nat) : Nat := (Nat.repr n).length

/-- the number nearest to `digits * 10^exponent`. Magnitudes of `10^400` and beyond are infinite and those
below `10^-400` zero, whatever the digits are. -/
def ofDecimal (negative : Bool) (digits : Nat) (exponent : Int) : Binary64 :=
  if digits = 0 then .finite negative 0
  else if 400 < decimalLength digits + exponent then .infinite negative
  else if decimalLength digits + exponent < -400 then .finite negative 0
  else
    match exponent with
    | .ofNat e => ofUnits negative (digits * Nat.pow 10 e * unitsPerOne) 1
    | .negSucc e => ofUnits negative (digits * unitsPerOne) (Nat.pow 10 (e + 1))

/-- the value of an ASCII digit -/
def digitOf? (c : Char) : Option Nat := if '0' ≤ c ∧ c ≤ '9' then some (c.toNat - 0x30) else none

def isDigit (c : Char) : Bool := '0' ≤ c ∧ c ≤ '9'

/-- the number that a run of ASCII digits stands for -/
def digitsValue (run : List Char) : Nat := Numeral.ofDigits (run.filterMap digitOf?)

/-- the exponent that follows the mark `e`: an optional sign and at least one digit, and nothing else -/
def exponent? (chars : List Char) : Option Int :=
  let (negative, run) := Numeral.splitSign chars
  if run.isEmpty || !run.all isDigit then none
  else some (if negative then -(digitsValue run : Int) else (digitsValue run : Int))

/-- what follows the digits: nothing, or the mark `e` and an exponent -/
def scale? : List Char → Option Int
  | [] => some 0
  | c :: rest => if c = 'e' || c = 'E' then exponent? rest else none

/-- a decimal without sign: whole digits, an optional point with more digits, an optional exponent -/
def ofDecimalChars? (negative : Bool) (chars : List Char) : Option Binary64 :=
  let whole := chars.takeWhile isDigit
  let afterWhole := chars.dropWhile isDigit
  let (fraction, tail) :=
    match afterWhole with
    | '.' :: rest => (rest.takeWhile isDigit, rest.dropWhile isDigit)
    | rest => ([], rest)
  if whole.isEmpty && fraction.isEmpty then none
  else (scale? tail).map fun e => ofDecimal negative (digitsValue (whole ++ fraction)) (e - fraction.length)

/-- reads a decimal, `inf`, `-inf` or `nan` -/
def read (text : String) : Option Binary64 :=
  let (negative, body) := Numeral.splitSign text.toList
  if body = "inf".toList then some (.infinite negative)
  else if body = "nan".toList then some .nan
  else ofDecimalChars? negative body

/-! ## The fewest digits -/

/-- the scientific exponent of a positive count of units: the number lies between `10^e` and `10^(e+1)` -/
def decimalExponent (units : Nat) : Int :=
  (decimalLength (units * Nat.pow 10 400 / unitsPerOne) : Int) - 401

/-- a positive count of units as a fraction of `10^exponent` -/
def scaled (units : Nat) : Int → Nat × Nat
  | .ofNat e => (units, unitsPerOne * Nat.pow 10 e)
  | .negSucc e => (units * Nat.pow 10 (e + 1), unitsPerOne)

/-- whether `digits * 10^exponent` reads back as the given count of units -/
def readsBack (units digits : Nat) (exponent : Int) : Bool :=
  ofDecimal false digits exponent = .finite false units

/-- of the two neighbours of a number on the grid of `10^exponent` the one that reads back, the nearer of two -/
def onGrid? (units : Nat) (exponent : Int) : Option Nat :=
  let (num, den) := scaled units exponent
  let below := num / den
  match readsBack units below exponent, readsBack units (below + 1) exponent with
  | true, true => some (roundHalfEven num den)
  | true, false => some below
  | false, true => some (below + 1)
  | false, false => none

/-- the digits of the first of the grids `10^top`, `10^(top-1)`, … that has a decimal reading back, with its exponent -/
def firstGrid (units : Nat) (top : Int) : Nat → Nat × Int
  | 0 =>
    let (num, den) := scaled units top
    (num / den, top)
  | fuel + 1 =>
    match onGrid? units top with
    | some digits => (digits, top)
    | none => firstGrid units (top - 1) fuel

/-- removes zeros at the end of the digits, raising the exponent -/
def dropZeros (digits : Nat) (exponent : Int) : Nat → Nat × Int
  | 0 => (digits, exponent)
  | fuel + 1 => if digits % 10 = 0 then dropZeros (digits / 10) (exponent + 1) fuel else (digits, exponent)

/-- the fewest digits, and their exponent, that read back as a positive count of units; seventeen always do -/
def shortest (units : Nat) : Nat × Int :=
  let (digits, exponent) := firstGrid units (decimalExponent units) 17
  dropZeros digits exponent 18

/-! ## Layout -/

/-- which scientific exponents are written positionally: those from `lowest` up to, not including, `highest` -/
structure Layout where
  lowest : Int
  highest : Int
  exponentWidth : Nat

/-- numbers from `10^-4` up to `10^16` are written positionally, exponents have at least two digits -/
def layout : Layout := ⟨-4, 16, 2⟩

/-- leading zeros up to a width -/
def padZeros (width : Nat) (digits : List Char) : List Char :=
  List.replicate (width - digits.length) '0' ++ digits

/-- digits with the decimal point where the exponent puts it -/
def positional (digits : List Char) (exponent : Int) : List Char :=
  match exponent with
  | .ofNat e => digits ++ List.replicate e '0' ++ ['.', '0']
  | .negSucc e =>
    let places := e + 1
    if places < digits.length then
      digits.take (digits.length - places) ++ '.' :: digits.drop (digits.length - places)
    else '0' :: '.' :: padZeros places digits

/-- one digit, the rest after a point, and the exponent with its sign -/
def scientific (digits : List Char) (exponent : Int) : List Char :=
  let mantissa :=
    match digits with
    | d :: e :: rest => d :: '.' :: e :: rest
    | short => short
  let mark := if exponent < 0 then '-' else '+'
  mantissa ++ 'e' :: mark :: padZeros layout.exponentWidth (Nat.repr exponent.natAbs).toList

/-- a count of units as decimal text without sign -/
def magnitudeText (units : Nat) : List Char :=
  if units = 0 then ['0', '.', '0']
  else
    let (digits, exponent) := shortest units
    let chars := (Nat.repr digits).toList
    let science := (chars.length : Int) - 1 + exponent
    if layout.lowest ≤ science ∧ science < layout.highest then positional chars exponent
    else scientific chars science

/-- the number as decimal text, with the fewest digits that read back -/
def text : Binary64 → String
  | .nan => "nan"
  | .infinite negative => if negative then "-inf" else "inf"
  | .finite negative units => String.ofList (if negative then '-' :: magnitudeText units else magnitudeText units)

end LetScript.Binary64
