/-
Sessions: programs run one after the other on one scope.

Whatever a run binds is there for the next one, also when the run fails. Printed lines go to the console or to a stream of
their own; trace lines go to a file, as long as it is open, or to the console, where they stand between the printed ones.
-/
import LetScript.Evaluation
import LetScript.Parsing
import LetScript.Directory

namespace LetScript

open Evaluation (Event Machine)

/-! ## Channels -/

/-- where the lines of a session go -/
structure Channels where
  /-- printed lines have a stream of their own -/
  printsApart : Bool
  /-- trace lines go to a file -/
  tracesToFile : Bool

/-- what was shown, by channel -/
structure Shown where
  console : String
  stream : String
  trace : String

namespace Channels

/-- whether an event goes to the console -/
def onConsole (channels : Channels) (event : Event) : Bool :=
  if event.isTraced then !channels.tracesToFile else !channels.printsApart

/-- whether an event goes to the stream of printed lines -/
def onStream (channels : Channels) (event : Event) : Bool := !event.isTraced && channels.printsApart

/-- whether an event goes to the trace file -/
def onFile (channels : Channels) (event : Event) : Bool := event.isTraced && channels.tracesToFile

end Channels

/-- lines of text, each ended by a line feed -/
def joinLines (lines : List String) : String := String.join (lines.map (· ++ "\n"))

/-- the events that pass a test, as lines -/
def linesOf (test : Event → Bool) (events : List Event) : String := joinLines ((events.filter test).map Event.line)

/-! ## Sessions -/

/-- the state that lasts from run to run -/
structure Session where
  level : Nat
  /-- how deep evaluation may nest -/
  budget : Nat
  channels : Channels
  scope : Scope
  /-- whether the trace file still takes lines -/
  traceOpen : Bool

/-- why a program has no value -/
inductive Failure where
  | complaint (complaint : Parsing.Complaint)
  | unreadable (token : Token)
  | stop (stop : Stop)
  | file (error : Directory.FileError)

namespace Session

/-- a session with nothing bound -/
def start (level : Nat) (channels : Channels) : Session :=
  ⟨level, Evaluation.defaultBudget, channels, .empty, true⟩

/-- sorts events by where they go -/
def route (session : Session) (events : List Event) : Shown where
  console := linesOf session.channels.onConsole events
  stream := linesOf session.channels.onStream events
  trace := if session.traceOpen then linesOf session.channels.onFile events else ""

/-- how runs are traced: an open trace file takes only lines that have an encoding -/
def tracing (session : Session) : Evaluation.Tracing :=
  ⟨session.level, session.channels.tracesToFile && session.traceOpen⟩

/-- runs a tree: the outcome, what was shown, and the session afterwards -/
def run (session : Session) (tree : Node) : Except Stop Value × Shown × Session :=
  let (outcome, machine) := Evaluation.evaluate session.tracing session.budget tree ⟨session.scope, []⟩
  (outcome, session.route machine.journal.reverse, { session with scope := machine.scope })

/-- parses and runs a source text; a text that does not parse changes nothing -/
def runSource (session : Session) (source : String) : Except Failure Value × Shown × Session :=
  match Parsing.parseSource source with
  | .error (.complaint complaint) => (.error (.complaint complaint), session.route [], session)
  | .error (.unreadable token) => (.error (.unreadable token), session.route [], session)
  | .ok tree =>
    let (outcome, shown, next) := session.run tree
    (outcome.mapError .stop, shown, next)

/-- adds a line to the trace, if tracing is on: whether the trace took it, and what was shown -/
def note (session : Session) (line : String) : Except Stop Unit × Shown :=
  let (outcome, machine) := Evaluation.Run.trace session.tracing 1 (fun _ => .ok line) ⟨session.scope, []⟩
  (outcome, session.route machine.journal.reverse)

/-- closes the trace file; a trace on the console goes on -/
def close (session : Session) : Session := { session with traceOpen := false }

end Session

/-! ## Files -/

/-- the path of the trace file -/
def traceFile : Path := ⟨"", ["debug.txt"]⟩

/-- the directory after a run at a level has traced something; without tracing there is no trace file -/
def Directory.withTrace (level : Nat) (trace : String) (directory : Directory) : Except FileError Directory :=
  if 0 < level then directory.writeText traceFile trace else .ok directory

/-- prints to the console, traces to the trace file -/
def plainChannels : Channels := ⟨false, true⟩

/-- runs a program file in a session of its own: the outcome, what was printed, and the directory afterwards. Nothing runs
where the trace cannot be written. -/
def runFile (path : Path) (level : Nat) (directory : Directory) : Except Failure Value × String × Directory :=
  match directory.readText path with
  | .error error => (.error (.file error), "", directory)
  | .ok source =>
    let (outcome, shown, _) := (Session.start level plainChannels).runSource source
    match directory.withTrace level shown.trace with
    | .error error => (.error (.file error), "", directory)
    | .ok after => (outcome, shown.console, after)

end LetScript
