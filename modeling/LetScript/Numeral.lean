/-
Decimal integers as text.

`read` takes blanks around the number, one sign, and decimal digits of any script with single underscores between
them. `write` gives plain digits with a leading minus. Both refuse a number of more than `digitLimit` digits; for `read`
leading zeros count, underscores and the sign do not.
-/

namespace LetScript.Numeral

/-- the most digits that are read or written -/
def digitLimit : Nat := 4300

/-! ## Characters -/

/-- the digit zero of each block of ten decimal digits beyond ASCII (Unicode 14) -/
def digitZeros : List Nat := [
  0x660, 0x6f0, 0x7c0, 0x966, 0x9e6, 0xa66, 0xae6, 0xb66, 0xbe6, 0xc66, 0xce6, 0xd66, 0xde6, 0xe50, 0xed0,
  0xf20, 0x1040, 0x1090, 0x17e0, 0x1810, 0x1946, 0x19d0, 0x1a80, 0x1a90, 0x1b50, 0x1bb0, 0x1c40, 0x1c50,
  0xa620, 0xa8d0, 0xa900, 0xa9d0, 0xa9f0, 0xaa50, 0xabf0, 0xff10, 0x104a0, 0x10d30, 0x11066, 0x110f0,
  0x11136, 0x111d0, 0x112f0, 0x11450, 0x114d0, 0x11650, 0x116c0, 0x11730, 0x118e0, 0x11950, 0x11c50, 0x11d50,
  0x11da0, 0x16a60, 0x16ac0, 0x16b50, 0x1d7ce, 0x1d7d8, 0x1d7e2, 0x1d7ec, 0x1d7f6, 0x1e140, 0x1e2f0, 0x1e950,
  0x1fbf0]

/-- the value of a decimal digit of any script -/
def digitValue? (c : Char) : Option Nat :=
  if '0' ≤ c ∧ c ≤ '9' then some (c.toNat - 0x30)
  else (digitZeros.find? fun first => first ≤ c.toNat && c.toNat < first + 10).map (c.toNat - ·)

/-- blanks that may stand around a number: the six of ASCII, and the spaces and line separators beyond it -/
def isBlank (c : Char) : Bool :=
  c = ' ' || (0x09 ≤ c.toNat && c.toNat ≤ 0x0d) || c.toNat = 0x85 || c.toNat = 0xa0 || c.toNat = 0x1680 ||
    (0x2000 ≤ c.toNat && c.toNat ≤ 0x200a) || c.toNat = 0x2028 || c.toNat = 0x2029 || c.toNat = 0x202f ||
    c.toNat = 0x205f || c.toNat = 0x3000

/-- a text without the blanks at its two ends -/
def trim (chars : List Char) : List Char :=
  ((chars.dropWhile isBlank).reverse.dropWhile isBlank).reverse

/-! ## Reading -/

/-- the digits of a run in which single underscores may stand between digits; the flag says whether the
character before was a digit, so that an underscore may follow or the run may end -/
def digitRun? (afterDigit : Bool) : List Char → Option (List Nat)
  | [] => if afterDigit then some [] else none
  | c :: rest =>
    if c = '_' then if afterDigit then digitRun? false rest else none
    else
      match digitValue? c with
      | some d => (digitRun? true rest).map (d :: ·)
      | none => none

/-- the number that a list of digits stands for, most significant first -/
def ofDigits (digits : List Nat) : Nat :=
  digits.foldl (fun acc d => 10 * acc + d) 0

/-- whether a minus stands in front, and what follows the sign -/
def splitSign : List Char → Bool × List Char
  | '-' :: rest => (true, rest)
  | '+' :: rest => (false, rest)
  | rest => (false, rest)

/-- reads an integer; refuses text that is none and numbers of more than `digitLimit` digits -/
def read (text : String) : Option Int :=
  let (negative, body) := splitSign (trim text.toList)
  match digitRun? false body with
  | none => none
  | some digits =>
    if digits.length ≤ digitLimit then
      some (if negative then -(ofDigits digits : Int) else (ofDigits digits : Int))
    else none

/-! ## Writing -/

/-- all digits of an integer, with a leading minus when negative -/
def text (n : Int) : String :=
  if n < 0 then "-" ++ Nat.repr n.natAbs else Nat.repr n.natAbs

/-- the digits of an integer, unless there are more than `digitLimit` of them; irreducible, because the bound is a number that
must not be computed -/
@[irreducible] def write (n : Int) : Option String :=
  if n.natAbs < Nat.pow 10 digitLimit then some (text n) else none

end LetScript.Numeral
