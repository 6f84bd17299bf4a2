/-
Command-line arguments.

Each argument is first sorted on its own: `--` alone ends the options, an option may be shortened as long as only one fits,
may carry a value after `=`, and one-letter options may share a hyphen, with or without `=` after the first. What starts with
a hyphen and is no option is still plain when it is a hyphen alone, looks like a negative number or holds a space. Then the
arguments are taken from left to right: an option that needs a value takes the next plain argument, the first other plain
argument is the program, and what is left over is reported together at the end. Help ends everything when it is reached.
-/
import LetScript.Text.Quoted
import LetScript.Numeral

namespace LetScript.Command

/-! ## Options -/

/-- the options -/
inductive Flag where
  | help
  | verbose
  | noColor
  | emitTree
  | runTree
  | listTokens
  deriving DecidableEq

/-- the spellings of options, in the order of the help text -/
def spellings : List (String × Flag) :=
  [("-h", .help), ("--help", .help), ("-v", .verbose), ("--no-color", .noColor), ("--emit-ast", .emitTree),
    ("--ast", .runTree), ("--tokens", .listTokens)]

namespace Flag

/-- an option in error messages -/
def label : Flag → String
  | .help => "-h/--help"
  | .verbose => "-v"
  | .noColor => "--no-color"
  | .emitTree => "--emit-ast"
  | .runTree => "--ast"
  | .listTokens => "--tokens"

/-- whether an option needs a value -/
def takesValue : Flag → Bool
  | .emitTree => true
  | .runTree => true
  | .listTokens => true
  | _ => false

/-- the options that name a file exclude each other -/
def excluded : Flag → List Flag
  | .emitTree => [.runTree, .listTokens]
  | .runTree => [.emitTree, .listTokens]
  | .listTokens => [.emitTree, .runTree]
  | _ => []

end Flag

/-- what is asked for -/
structure Options where
  verbosity : Nat
  color : Bool
  emitTree : Option String
  runTree : Option String
  listTokens : Option String
  program : Option String
  deriving DecidableEq

namespace Options

def initial : Options := ⟨0, true, none, none, none, none⟩

/-- the options after one has been given; only those that take a value use it -/
def apply (flag : Flag) (value : String) (options : Options) : Options :=
  match flag with
  | .help => options
  | .verbose => { options with verbosity := options.verbosity + 1 }
  | .noColor => { options with color := false }
  | .emitTree => { options with emitTree := some value }
  | .runTree => { options with runTree := some value }
  | .listTokens => { options with listTokens := some value }

/-- whether an option that names a file has been given -/
def has (flag : Flag) (options : Options) : Bool :=
  match flag with
  | .emitTree => options.emitTree.isSome
  | .runTree => options.runTree.isSome
  | .listTokens => options.listTokens.isSome
  | _ => false

end Options

/-! ## Single arguments -/

/-- an argument on its own -/
inductive Word where
  | plain (text : String)
  /-- `--`, the end of the options -/
  | marker
  /-- an option, the spelling it was recognised by, and what its argument goes on with -/
  | option (flag : Flag) (spelling : String) (attached : Option String)
  | unknown (text : String)
  deriving DecidableEq

/-- the option with exactly this spelling -/
def flagOf? (spelling : String) : Option Flag := (spellings.find? fun entry => entry.1 = spelling).map Prod.snd

/-- a text cut at its first equals sign, if it has one -/
def splitEquals (text : String) : String × Option String :=
  let chars := text.toList
  let head := chars.takeWhile (· ≠ '=')
  match chars.dropWhile (· ≠ '=') with
  | [] => (text, none)
  | _ :: value => (String.ofList head, some (String.ofList value))

/-- the options that an argument may be short for, each as a word -/
def candidates (text : String) : List (String × Word) :=
  match text.toList with
  | '-' :: '-' :: _ =>
    let (head, value) := splitEquals text
    spellings.filterMap fun (spelling, flag) =>
      if head.toList.isPrefixOf spelling.toList then
        some (spelling, .option flag spelling value)
      else none
  | '-' :: letter :: rest =>
    spellings.filterMap fun (spelling, flag) =>
      if spelling.toList = ['-', letter] then
        some (spelling, .option flag spelling (some (String.ofList rest)))
      else none
  | _ => []

/-- whether characters are digits, at least one, up to a line feed that may end them -/
def isDigitRun (chars : List Char) : Bool :=
  let isDigit (c : Char) : Bool := (Numeral.digitValue? c).isSome
  !(chars.takeWhile isDigit).isEmpty && [[], ['\n']].contains (chars.dropWhile isDigit)

/-- whether the characters after a hyphen make a number: digits, or digits with a point that more digits follow -/
def isNumeric (chars : List Char) : Bool :=
  isDigitRun chars ||
    match chars.dropWhile fun c => (Numeral.digitValue? c).isSome with
    | '.' :: rest => isDigitRun rest
    | _ => false

/-- sorts an argument that starts with a hyphen; more than one option it may be short for is an error -/
def classifyHyphen (text : String) (rest : List Char) : Except String Word :=
  match flagOf? text with
  | some flag => .ok (.option flag text none)
  | none =>
    if rest.isEmpty then .ok (.plain text)
    else
      let (head, value) := splitEquals text
      match value, flagOf? head with
      | some _, some flag => .ok (.option flag head value)
      | _, _ =>
        match candidates text with
        | [(_, word)] => .ok word
        | [] => .ok (if isNumeric rest || rest.contains ' ' then .plain text else .unknown text)
        | several =>
          .error ("ambiguous option: " ++ text ++ " could match " ++ ", ".intercalate (several.map Prod.fst))

/-- sorts an argument -/
def classify (text : String) : Except String Word :=
  match text.toList with
  | '-' :: rest => classifyHyphen text rest
  | _ => .ok (.plain text)

/-- sorts all arguments; after the end of the options every one is plain -/
def classifyAll : List String → Except String (List Word)
  | [] => .ok []
  | text :: rest =>
    if text = "--" then .ok (.marker :: rest.map .plain)
    else
      match classify text with
      | .error message => .error message
      | .ok word => (classifyAll rest).map (word :: ·)

/-! ## All arguments -/

/-- what the arguments ask for -/
inductive Request where
  | help
  | misuse (message : String)
  | go (options : Options)
  deriving DecidableEq

/-- what has been taken so far -/
structure Taken where
  options : Options
  /-- the argument just before became the program -/
  justNamed : Bool
  /-- what could not be placed, latest first -/
  extras : List String

/-- the message about an option -/
def about (flag : Flag) (message : String) : String := "argument " ++ flag.label ++ ": " ++ message

def ignoredValue (flag : Flag) (value : String) : String :=
  about flag ("ignored explicit argument " ++ Text.quoted value)

/-- gives one option: an excluded one given before is an error -/
def give (flag : Flag) (value : String) (taken : Taken) : Except Request Taken :=
  if flag = .help then .error .help
  else
    match flag.excluded.find? taken.options.has with
    | some other => .error (.misuse (about flag ("not allowed with argument " ++ other.label)))
    | none => .ok { taken with options := taken.options.apply flag value, justNamed := false }

/-- the options that an option and the letters after it stand for; a letter that is none is an error, together with what
follows it -/
def cluster (flag : Flag) : List Char → Except Request (List Flag)
  | [] => .ok [flag]
  | letter :: rest =>
    match flagOf? (String.ofList ['-', letter]) with
    | none => .error (.misuse (ignoredValue flag (String.ofList (letter :: rest))))
    | some next => (cluster next rest).map (flag :: ·)

/-- gives options in order -/
def giveAll : List Flag → Taken → Except Request Taken
  | [], taken => .ok taken
  | flag :: rest, taken =>
    match give flag "" taken with
    | .error request => .error request
    | .ok next => giveAll rest next

/-- gives an option that takes no value but has one attached: only after one hyphen can its letters be more options -/
def giveAttached (flag : Flag) (spelling : String) (value : String) (taken : Taken) : Except Request Taken :=
  if value.isEmpty || "--".toList.isPrefixOf spelling.toList then .error (.misuse (ignoredValue flag value))
  else
    match cluster flag value.toList with
    | .error request => .error request
    | .ok flags => giveAll flags { taken with justNamed := false }

/-- the value of an option from what is attached to it; the end of the options is dropped there too, and leaves nothing -/
def attachedValue (value : String) : String := if value = "--" then "" else value

/-- takes the arguments from left to right. The end of the options is dropped where the program is still to come or has
just been named. -/
def take (taken : Taken) : List Word → Except Request Taken
  | [] => .ok taken
  | .plain text :: rest =>
    match taken.options.program with
    | none => take { taken with options := { taken.options with program := some text }, justNamed := true } rest
    | some _ => take { taken with extras := text :: taken.extras, justNamed := false } rest
  | .marker :: rest =>
    if taken.options.program.isNone || taken.justNamed then take { taken with justNamed := false } rest
    else take { taken with extras := "--" :: taken.extras } rest
  | .unknown text :: rest => take { taken with extras := text :: taken.extras, justNamed := false } rest
  | .option flag spelling attached :: rest =>
    match flag.takesValue, attached with
    | true, some value =>
      match give flag (attachedValue value) taken with
      | .error request => .error request
      | .ok next => take next rest
    | true, none =>
      match rest with
      | .plain value :: rest =>
        match give flag value taken with
        | .error request => .error request
        | .ok next => take next rest
      | _ => .error (.misuse (about flag "expected one argument"))
    | false, some value =>
      match giveAttached flag spelling value taken with
      | .error request => .error request
      | .ok next => take next rest
    | false, none =>
      match give flag "" taken with
      | .error request => .error request
      | .ok next => take next rest

/-- what a list of arguments asks for -/
def request (args : List String) : Request :=
  match classifyAll args with
  | .error message => .misuse message
  | .ok words =>
    match take ⟨.initial, false, []⟩ words with
    | .error request => request
    | .ok taken =>
      if taken.extras.isEmpty then .go taken.options
      else .misuse ("unrecognized arguments: " ++ " ".intercalate taken.extras.reverse)

end LetScript.Command
