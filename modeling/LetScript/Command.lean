/-
The command line.

With a program file the program is run; other options list its tokens, write its tree beside it as JSON, or run such a tree.
Printed text goes to the output, diagnostics go to the error output and end the command with status 1, misuse ends it with
status 2. With verbosity, a trace is written to a file of the directory.

`run` is a function of the arguments and the directory, and of how diagnostics are painted in colour: what it writes, how it
ends, and the directory afterwards. Errors that are none of the program's own are not caught, and end the command as a `Mishap`.
-/
import LetScript.Command.Arguments
import LetScript.Json.Reader
import LetScript.Json.Writer
import LetScript.Tree.Interchange
import LetScript.Session

namespace LetScript.Command

/-! ## Texts -/

def usage : String :=
  joinLines [
    "usage: letlang [-h] [-v] [--no-color]",
    "               [--emit-ast PROGRAM_FILE | --ast AST_JSON_FILE | --tokens PROGRAM_FILE]",
    "               [program]"]

def help : String :=
  usage ++ joinLines [
    "",
    "letlang interpreter",
    "",
    "positional arguments:",
    "  program               program file to execute",
    "",
    "options:",
    "  -h, --help            show this help message and exit",
    "  -v                    increase debug verbosity (can be repeated)",
    "  --no-color            do not colour diagnostics",
    "  --emit-ast PROGRAM_FILE",
    "                        emit AST JSON for the given program",
    "  --ast AST_JSON_FILE   execute AST from a JSON file",
    "  --tokens PROGRAM_FILE",
    "                        print the tokens of the given program"]

/-! ## Results -/

/-- an error that ends the command without being reported -/
inductive Mishap where
  | unreadable (token : Token)
  | abort (abort : Abort)
  | file (error : Directory.FileError)
  | document (error : Json.ReadError)
  | tree (refusal : Interchange.Refusal)

/-- how the command ends -/
inductive Ending where
  | exit (status : Nat)
  | mishap (mishap : Mishap)

/-- what the command did -/
structure Report where
  ending : Ending
  output : String
  errors : String
  directory : Directory

/-- a command that wrote an error message and ended with the given status -/
def Report.failed (status : Nat) (errors : String) (directory : Directory) : Report :=
  ⟨.exit status, "", errors, directory⟩

/-- a command that ended in a mishap before it wrote anything -/
def Report.broken (mishap : Mishap) (directory : Directory) : Report := ⟨.mishap mishap, "", "", directory⟩

/-- a command that was misused -/
def Report.misused (message : String) (directory : Directory) : Report :=
  .failed 2 (usage ++ "letlang: error: " ++ message ++ "\n") directory

/-! ## What the command does -/

/-- goes on with the text of a file; a missing file is reported -/
def withFile (path : Path) (directory : Directory) (go : String → Report) : Report :=
  match directory.readText path with
  | .ok text => go text
  | .error .missing => .failed 1 ("Error: file " ++ path.text ++ " not found\n") directory
  | .error error => .broken (.file error) directory

/-- lists the tokens of a program -/
def listTokens (path : Path) (directory : Directory) : Report :=
  withFile path directory fun source =>
    ⟨.exit 0, joinLines ((Token.tokenize source).map Token.listed), "", directory⟩

section

variable (paint : String → String)

/-- goes on with the tree of a source text; what is wrong with it is reported -/
def withTree (source : String) (color : Bool) (directory : Directory) (go : Node → Report) : Report :=
  match Parsing.parseSource source with
  | .ok tree => go tree
  | .error (.complaint complaint) => .failed 1 (complaint.diagnostic.report source color paint) directory
  | .error (.unreadable token) => .broken (.unreadable token) directory

/-- runs a tree; diagnostics show the given source. Nothing runs where the trace cannot be written. -/
def execute (tree : Node) (source : String) (options : Options) (directory : Directory) : Report :=
  let (outcome, shown, _) := (Session.start options.verbosity plainChannels).run tree
  match directory.withTrace options.verbosity shown.trace with
  | .error error => .broken (.file error) directory
  | .ok after =>
    match outcome with
    | .ok _ => ⟨.exit 0, shown.console, "", after⟩
    | .error (.fault fault) => ⟨.exit 1, shown.console, fault.diagnostic.report source options.color paint, after⟩
    | .error .exhausted => ⟨.exit 1, shown.console, "error: maximum recursion depth exceeded\n", after⟩
    | .error (.abort abort) => ⟨.mishap (.abort abort), shown.console, "", after⟩

/-- the file that the tree of a program is written to -/
def treeFile (path : Path) : Path := path.extend ".ast.json"

/-- writes the tree of a program to a file beside it -/
def emitTree (path : Path) (color : Bool) (directory : Directory) : Report :=
  withFile path directory fun source =>
    withTree paint source color directory fun tree =>
      match Interchange.write tree with
      | .error refusal => .broken (.tree refusal) directory
      | .ok document =>
        match directory.writeText (treeFile path) document.indented with
        | .error error => .broken (.file error) directory
        | .ok after => ⟨.exit 0, (treeFile path).text ++ "\n", "", after⟩

/-- runs a tree from a file; its diagnostics have no source to show -/
def runTree (path : Path) (options : Options) (directory : Directory) : Report :=
  withFile path directory fun text =>
    match Json.read text with
    | .error error => .broken (.document error) directory
    | .ok document =>
      match Interchange.read document with
      | .error refusal => .broken (.tree refusal) directory
      | .ok tree => execute paint tree "" options directory

/-- runs a program from a file -/
def runProgram (path : Path) (options : Options) (directory : Directory) : Report :=
  withFile path directory fun source =>
    withTree paint source options.color directory fun tree => execute paint tree source options directory

/-- a path that was given and is not empty -/
def given? (path : Option String) : Option Path :=
  match path with
  | some text => if text.isEmpty then none else some (.ofText text)
  | none => none

/-- does what the options ask for; listing tokens comes before writing a tree, that before running one, that before the
program -/
def perform (options : Options) (directory : Directory) : Report :=
  match given? options.listTokens, given? options.emitTree, given? options.runTree, given? options.program with
  | some path, _, _, _ => listTokens path directory
  | none, some path, _, _ => emitTree paint path options.color directory
  | none, none, some path, _ => runTree paint path options directory
  | none, none, none, some path => runProgram paint path options directory
  | none, none, none, none => .misused "missing program file; or use --emit-ast/--ast/--tokens" directory

end

/-- the command with the given arguments in the given directory -/
def run (args : List String) (directory : Directory) (paint : String → String := Diagnostic.emphasised) : Report :=
  match request args with
  | .help => ⟨.exit 0, help, "", directory⟩
  | .misuse message => .misused message directory
  | .go options => perform paint options directory

/-- the paths that the command may read -/
def pathsRead (args : List String) : List Path :=
  match request args with
  | .go options =>
    [options.listTokens, options.emitTree, options.runTree, options.program].filterMap given?
  | _ => []

end LetScript.Command
