/-
Quoted text: a string between quotes with everything that cannot be shown written as an escape.

The quote is the apostrophe, unless the text holds an apostrophe and no double quote. A backslash and the quote in use
get a backslash, the line and tab characters their letters, and any other character that is not printable its code
point in lower-case hexadecimal: two digits after `x`, four after `u`, eight after `U`, by the least form that fits. Half of
a surrogate pair is escaped as itself.
-/
import LetScript.Text.Printable
import LetScript.Text.Surrogate

namespace LetScript.Text

/-- the two characters that may stand around quoted text -/
def apostrophe : Char := Char.ofNat 0x27
def doubleQuote : Char := Char.ofNat 0x22

/-- lower-case hexadecimal digits of a number, with leading zeros up to a width -/
def hexDigits (width n : Nat) : List Char :=
  let digits := Nat.toDigits 16 n
  List.replicate (width - digits.length) '0' ++ digits

/-- the escape for a code point -/
def codeEscape (code : Nat) : List Char :=
  if code < 0x100 then '\\' :: 'x' :: hexDigits 2 code
  else if code < 0x10000 then '\\' :: 'u' :: hexDigits 4 code
  else '\\' :: 'U' :: hexDigits 8 code

/-- one character of quoted text, inside the given quotes -/
def quotedChar (quote c : Char) : List Char :=
  if c = quote || c = '\\' then ['\\', c]
  else if c = '\n' then ['\\', 'n']
  else if c = '\r' then ['\\', 'r']
  else if c = '\t' then ['\\', 't']
  else if isPrintable c then [c]
  else codeEscape ((half? c).getD c.toNat)

/-- the quote a text is put between -/
def quoteFor (chars : List Char) : Char :=
  if chars.contains apostrophe && !chars.contains doubleQuote then doubleQuote else apostrophe

/-- a text between quotes, with escapes for what cannot be shown -/
def quoted (text : String) : String :=
  let chars := text.toList
  let quote := quoteFor chars
  String.ofList (quote :: chars.flatMap (quotedChar quote) ++ [quote])

end LetScript.Text
