/-
Reading JSON text.

The reader follows the usual grammar, takes `NaN`, `Infinity` and `-Infinity` as numbers, refuses control characters
inside texts, and keeps the last of several fields of one name at the place of the first. A number without point and
exponent is an integer, and one of more than `Numeral.digitLimit` digits is refused in its own way. Half of a surrogate
pair alone is kept as its stand-in.

Every function takes the text that is left and returns what it read with the rest.
-/
import LetScript.Json

namespace LetScript.Json

/-- why a text is not read -/
inductive ReadError where
  | malformed
  | numeralTooLong
  deriving DecidableEq

/-- what was read, and the text that is left -/
abbrev Reading (α : Type) := Except ReadError (α × List Char)

def isSpace (c : Char) : Bool := c = ' ' || c = '\t' || c = '\n' || c = '\r'

def skipSpaces (chars : List Char) : List Char := chars.dropWhile isSpace

/-! ## Texts -/

/-- the value of a hexadecimal digit -/
def hexValue? (c : Char) : Option Nat :=
  if '0' ≤ c ∧ c ≤ '9' then some (c.toNat - 0x30)
  else if 'a' ≤ c ∧ c ≤ 'f' then some (c.toNat - 0x61 + 10)
  else if 'A' ≤ c ∧ c ≤ 'F' then some (c.toNat - 0x41 + 10)
  else none

/-- the number written by four hexadecimal digits -/
def hexFour? (a b c d : Char) : Option Nat :=
  match hexValue? a, hexValue? b, hexValue? c, hexValue? d with
  | some a, some b, some c, some d => some (((a * 16 + b) * 16 + c) * 16 + d)
  | _, _, _, _ => none

/-- the character that a letter after a backslash stands for -/
def escapeOf? (c : Char) : Option Char :=
  if c = '"' || c = '\\' || c = '/' then some c
  else if c = 'b' then some (Char.ofNat 0x08)
  else if c = 'f' then some (Char.ofNat 0x0c)
  else if c = 'n' then some '\n'
  else if c = 'r' then some '\r'
  else if c = 't' then some '\t'
  else none

/-- the characters read so far, after a first half of a surrogate pair has turned out to stand alone -/
def settle (pending : Option Nat) (done : List Char) : List Char :=
  match pending with
  | none => done
  | some high => Text.standIn high :: done

/-- adds a code unit: the second half of a pair completes the first, a first half waits, any other half stands alone -/
def addUnit (unit : Nat) (pending : Option Nat) (done : List Char) : Option Nat × List Char :=
  if 0xd800 ≤ unit && unit < 0xdc00 then (some unit, settle pending done)
  else if 0xdc00 ≤ unit && unit < 0xe000 then
    match pending with
    | some high => (none, Char.ofNat (0x10000 + (high - 0xd800) * 0x400 + (unit - 0xdc00)) :: done)
    | none => (none, Text.standIn unit :: done)
  else (none, Char.ofNat unit :: settle pending done)

/-- the rest of a text up to its closing quote; `pending` is the first half of a surrogate pair, `done` what was read,
last character first -/
def textBody (pending : Option Nat) (done : List Char) : List Char → Reading String
  | [] => .error .malformed
  | '"' :: rest => .ok (String.ofList (settle pending done).reverse, rest)
  | '\\' :: 'u' :: a :: b :: c :: d :: rest =>
    match hexFour? a b c d with
    | none => .error .malformed
    | some unit => textBody (addUnit unit pending done).1 (addUnit unit pending done).2 rest
  | '\\' :: c :: rest =>
    match escapeOf? c with
    | none => .error .malformed
    | some char => textBody none (char :: settle pending done) rest
  | c :: rest =>
    if c.toNat < 0x20 || c = '\\' then .error .malformed
    else textBody none (c :: settle pending done) rest

/-! ## Numbers -/

/-- the digits at the front, if the first is there -/
def leadingDigits (chars : List Char) : List Char := chars.takeWhile Binary64.isDigit

/-- the whole part of a number: a zero alone, or digits that do not start with one -/
def wholePart (chars : List Char) : List Char :=
  match chars with
  | '0' :: _ => ['0']
  | _ => leadingDigits chars

/-- a point with digits after it -/
def fractionPart (chars : List Char) : List Char :=
  match chars with
  | '.' :: rest => leadingDigits rest
  | _ => []

/-- the mark, sign and digits of an exponent at the front, empty when there are no digits -/
def exponentPart (chars : List Char) : List Char :=
  match chars with
  | c :: rest =>
    if c = 'e' || c = 'E' then
      let sign := match rest with
        | '-' :: _ => ['-']
        | '+' :: _ => ['+']
        | _ => []
      let digits := leadingDigits (rest.drop sign.length)
      if digits.isEmpty then [] else c :: sign ++ digits
    else []
  | [] => []

/-- a number after its sign -/
def readNumber (negative : Bool) (chars : List Char) : Reading Json :=
  let whole := wholePart chars
  let afterWhole := chars.drop whole.length
  let fraction := fractionPart afterWhole
  let afterFraction := if fraction.isEmpty then afterWhole else afterWhole.drop (fraction.length + 1)
  let mark := exponentPart afterFraction
  let rest := afterFraction.drop mark.length
  if whole.isEmpty then .error .malformed
  else if fraction.isEmpty && mark.isEmpty then
    if whole.length ≤ Numeral.digitLimit then
      let n := (Binary64.digitsValue whole : Int)
      .ok (.int (if negative then -n else n), rest)
    else .error .numeralTooLong
  else
    let exponent := (Binary64.scale? mark).getD 0 - fraction.length
    .ok (.float (Binary64.ofDecimal negative (Binary64.digitsValue (whole ++ fraction)) exponent), rest)

/-! ## Values -/

/-- a fixed word, read as the given value -/
def readWord (spelling : String) (value : Json) (chars : List Char) : Reading Json :=
  if spelling.toList.isPrefixOf chars then .ok (value, chars.drop spelling.length) else .error .malformed

/-- sets a field, keeping the place of an earlier one of the same name -/
def setField (name : String) (value : Json) : List (String × Json) → List (String × Json)
  | [] => [(name, value)]
  | (key, old) :: rest => if key = name then (key, value) :: rest else (key, old) :: setField name value rest

mutual

/-- one value, with no space before it -/
def readValue : Nat → List Char → Reading Json
  | 0, _ => .error .malformed
  | _ + 1, [] => .error .malformed
  | fuel + 1, c :: rest =>
    if c = '"' then (textBody none [] rest).map fun (s, rest) => (.text s, rest)
    else if c = '[' then
      match skipSpaces rest with
      | ']' :: rest => .ok (.list [], rest)
      | rest => (readItems fuel [] rest).map fun (found, rest) => (.list found, rest)
    else if c = '\x7b' then
      match skipSpaces rest with
      | '\x7d' :: rest => .ok (.object [], rest)
      | rest => (readFields fuel [] rest).map fun (found, rest) => (.object found, rest)
    else if c = 'n' then readWord "null" .null (c :: rest)
    else if c = 't' then readWord "true" (.bool true) (c :: rest)
    else if c = 'f' then readWord "false" (.bool false) (c :: rest)
    else if c = 'N' then readWord "NaN" (.float .nan) (c :: rest)
    else if c = 'I' then readWord "Infinity" (.float (.infinite false)) (c :: rest)
    else if c = '-' then
      match rest with
      | 'I' :: _ => readWord "Infinity" (.float (.infinite true)) rest
      | _ => readNumber true rest
    else readNumber false (c :: rest)

/-- the items of a list from the next one on, up to the closing bracket; `done` holds the earlier ones, last first -/
def readItems : Nat → List Json → List Char → Reading (List Json)
  | 0, _, _ => .error .malformed
  | fuel + 1, done, chars =>
    match readValue fuel chars with
    | .error e => .error e
    | .ok (item, rest) =>
      match skipSpaces rest with
      | ',' :: rest => readItems fuel (item :: done) (skipSpaces rest)
      | ']' :: rest => .ok ((item :: done).reverse, rest)
      | _ => .error .malformed

/-- the fields of an object from the next one on, up to the closing brace -/
def readFields : Nat → List (String × Json) → List Char → Reading (List (String × Json))
  | 0, _, _ => .error .malformed
  | fuel + 1, done, chars =>
    match chars with
    | '"' :: rest =>
      match textBody none [] rest with
      | .error e => .error e
      | .ok (name, rest) =>
        match skipSpaces rest with
        | ':' :: rest =>
          match readValue fuel (skipSpaces rest) with
          | .error e => .error e
          | .ok (found, rest) =>
            match skipSpaces rest with
            | ',' :: rest => readFields fuel (setField name found done) (skipSpaces rest)
            | '\x7d' :: rest => .ok (setField name found done, rest)
            | _ => .error .malformed
        | _ => .error .malformed
    | _ => .error .malformed

end

/-- reads a whole text as one document, with spaces around it. Each nested call takes at least one character, or follows
one that did, so twice the length is more than enough. -/
def read (text : String) : Except ReadError Json :=
  let chars := skipSpaces text.toList
  match readValue (2 * chars.length + 2) chars with
  | .error e => .error e
  | .ok (document, rest) => if (skipSpaces rest).isEmpty then .ok document else .error .malformed

end LetScript.Json
