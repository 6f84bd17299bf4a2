/-
The command as a program.

The files that the arguments name are read before, the command itself is `Command.run`, and the files it changed are written
after it. Diagnostics are painted for a terminal with colours. Nothing else is decided here.
-/
import LetScript.Command

namespace LetScript

open Command

/-- what is said when the command ends in a mishap -/
def Command.Mishap.message : Mishap → String
  | .unreadable token => "not a number that can be read: " ++ Text.quoted token.lexeme
  | .abort .numeralTooLong => "number with too many digits"
  | .abort .unencodable => "trace cannot be written"
  | .abort _ => "malformed tree"
  | .file .notText => "file cannot be read as text"
  | .file _ => "file cannot be opened"
  | .document _ => "file is not a JSON document"
  | .tree refusal => refusal.message?.getD "malformed tree"

/-- the files among the given paths that can be read -/
def load (paths : List Path) : IO Directory :=
  paths.filterMapM fun path => do
    match ← (IO.FS.readBinFile path.text).toBaseIO with
    | .ok contents => return some (path.text, contents)
    | .error _ => return none

/-- writes files -/
def store (files : Directory) : IO Unit :=
  files.forM fun (path, contents) => IO.FS.writeBinFile path contents

end LetScript

open LetScript

/-- runs the command on the files of the current directory -/
def main (args : List String) : IO UInt32 := do
  let before ← load (Command.pathsRead args)
  let report := Command.run args before Diagnostic.emphasised
  IO.print report.output
  IO.eprint report.errors
  store (report.directory.changedSince before)
  match report.ending with
  | .exit status => return status.toUInt32
  | .mishap mishap =>
    IO.eprintln ("letlang: " ++ mishap.message)
    return 1
