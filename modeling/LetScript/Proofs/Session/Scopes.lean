/-
Scopes between the runs of a session.

A run leaves the frames under the current one as they were and loses no name, and a call leaves the current frame as it was
too, however the run ended (`Restored`). The exception is a run that is cut off in the announcement of a call, because the trace
file does not take the line (`refused_call_leaves_scope`) or because calls are traced and the budget is used up there: it leaves a
scope open. So as long as no run ended for one of these reasons, no scope is open between runs: `scopes_restored`. A function that
calls itself forever ends for the second one, whatever the budget: `runaway_leaves_scope`.
-/
import LetScript.Session
import LetScript.Proofs.Evaluation.Frames

namespace LetScript

open Evaluation Evaluation.Run

/-! ## Runs one after the other -/

/-- what a session runs: a source text, or a tree as it stands -/
inductive Program where
  | source (text : String)
  | tree (node : Node)

namespace Session

/-- how a run ended, what it showed, and the session it left -/
abbrev Result := Except Failure Value × Shown × Session

/-- runs a program -/
def execute (session : Session) : Program → Result
  | .source text => session.runSource text
  | .tree node =>
    let (outcome, shown, next) := session.run node
    (outcome.mapError .stop, shown, next)

/-- runs programs one after the other -/
def executeAll (session : Session) : List Program → List Result
  | [] => []
  | program :: rest =>
    let result := session.execute program
    result :: result.2.2.executeAll rest

/-- a tree is run by evaluating it in the session's scope -/
theorem execute_tree (session : Session) {node : Node} {outcome : Except Stop Value} {machine : Machine}
    (h : evaluate session.tracing session.budget node ⟨session.scope, []⟩ = (outcome, machine)) :
    session.execute (.tree node) =
      (outcome.mapError .stop, session.route machine.journal.reverse, { session with scope := machine.scope }) := by
  simp only [execute, run, h]

theorem runSource_of_ok (session : Session) {source : String} {tree : Node} (h : Parsing.parseSource source = .ok tree) :
    session.runSource source = session.execute (.tree tree) := by
  simp only [runSource, execute, h]

/-- a source text that does not parse changes nothing -/
theorem runSource_of_error (session : Session) {source : String} {error : Parsing.ParseError}
    (h : Parsing.parseSource source = .error error) :
    ∃ failure, session.runSource source = (.error failure, session.route [], session) ∧ ∀ stop, failure ≠ .stop stop := by
  simp only [runSource, h]
  cases error with
  | complaint complaint => exact ⟨.complaint complaint, rfl, fun _ h => by cases h⟩
  | unreadable token => exact ⟨.unreadable token, rfl, fun _ h => by cases h⟩

end Session

/-! ## Scopes after a run -/

namespace Session

/-- a source text changes nothing of a session but what is bound -/
theorem runSource_settings (session : Session) (source : String) :
    ∃ scope, (session.runSource source).2.2 = { session with scope := scope } := by
  cases hparse : Parsing.parseSource source with
  | ok node =>
    rw [runSource_of_ok session hparse]
    exact ⟨_, rfl⟩
  | error error =>
    obtain ⟨failure, hrun, -⟩ := runSource_of_error session hparse
    rw [hrun]
    exact ⟨session.scope, rfl⟩

/-- a program changes nothing of a session but what is bound -/
theorem execute_settings (session : Session) (program : Program) :
    ∃ scope, (session.execute program).2.2 = { session with scope := scope } := by
  cases program with
  | tree node => exact ⟨_, rfl⟩
  | source text => exact runSource_settings session text

end Session

section

variable {tracing : Tracing} {budget : ℕ} {m : Machine} {arg : Node} {value : Value} (position : Int)

/-- a bound name is found -/
theorem fetch_bound {name : String} {node : Node} (hname : m.scope.fetch? (.text name) = some node) :
    Run.fetch (.text name) position m = (.ok node, m) := by
  simp only [Run.fetch, Scope.fetch, Key.ofJson?, hname]

/-- a name that is bound to a literal has its value -/
theorem evaluate_bound {name : String} {place : Int} (hname : m.scope.fetch? (.text name) = some (.literal place value)) :
    evaluate tracing (budget + 2) (.reference position (.text name)) m = (.ok value, m) :=
  (run_bind_ok (fetch_bound position hname)).trans rfl

/-- what a call of a function of one parameter does inside its scope, if its argument has a value there -/
theorem applyNamed_unary {name param : String} {place : Int} {body : Node}
    (hname : m.scope.fetch? (.text name) = some (.lambda place [.text param] body))
    (harg : evaluate tracing (budget + 1) arg m = (.ok value, m)) :
    applyNamed (evaluate tracing (budget + 1)) position (.text name) [arg] m =
      evaluate tracing (budget + 1) body { m with scope := m.scope.assign (.ofText param) (.literal arg.position value) } := by
  have hargs : evaluateAll (evaluate tracing (budget + 1)) [arg] m = (.ok [value], m) := run_bind_ok harg
  unfold applyNamed
  rw [run_bind_ok (fetch_bound position hname)]
  exact (run_bind_ok hargs).trans rfl

/-! ## Calls without end -/

/-- what a function that calls itself does, for a parameter `x` -/
def again : Node := .call 15 (.text "f") [.reference 17 (.text "x")]

/-- a function that calls itself with its argument -/
def endless : Node := .lambda 9 [.text "x"] again

/-- a run was cut off in a call, and has left its scope open -/
def CutOff (m : Machine) (ended : Except Stop Value × Machine) : Prop :=
  ∃ last, ended = (.error .exhausted, last) ∧ last.scope.depth = m.scope.depth + 1

/-- a call of it is cut off if the next one is: every call closes one scope, but the last, which is not announced, closes none -/
theorem endless_step (hlevel : 1 ≤ tracing.level) (hroom : openingDepth ≤ budget)
    (hf : m.scope.fetch? (.text "f") = some endless)
    (harg : ∀ journal, evaluate tracing budget arg ⟨m.scope.push, journal⟩ = (.ok value, ⟨m.scope.push, journal⟩))
    (hnext : passingDepth ≤ budget → ∀ journal,
      let next : Machine := ⟨m.scope.push.assign (.ofText "x") (.literal arg.position value), journal⟩
      CutOff next (evaluate tracing budget again next)) :
    CutOff m (evaluate tracing (budget + 1) (.call position (.text "f") [arg]) m) := by
  have hcall : evaluate tracing (budget + 1) (.call position (.text "f") [arg]) m =
      inCall tracing budget "f" 1 (applyNamed (evaluate tracing budget) position (.text "f") [arg]) m := rfl
  rw [hcall]
  rcases inCall_cases tracing budget "f" 1 m with ⟨hfull, -⟩ | ⟨stop, events, -, hstop, -, hcut⟩ | ⟨htakes, hrun⟩
  · exact absurd hroom (Nat.not_le.2 hfull)
  · obtain rfl := hstop (by decide)
    exact ⟨_, hcut _, List.length_cons⟩
  · obtain ⟨rest, rfl⟩ := Nat.exists_eq_add_of_le' (le_trans (show 1 ≤ openingDepth by decide) hroom)
    let inside : Machine := ⟨m.scope.push, tracing.said (.called "f" 1 (m.scope.depth + 1)) ++ m.journal⟩
    have hpushed : inside.scope.fetch? (.text "f") = some endless := (fetch?_push _ _).trans hf
    have hbody := applyNamed_unary position hpushed (harg inside.journal)
    obtain ⟨inner, hinner, hdepth⟩ := hnext (htakes 0 hlevel).1 inside.journal
    obtain ⟨frame, under, hframes⟩ := List.exists_cons_of_length_eq_add_one hdepth
    have hended := andFinally_taken htakes (hbody.trans hinner) hframes
    refine ⟨_, (hrun _).trans hended, ?_⟩
    change inner.scope.frames.length = m.scope.push.frames.length + 1 at hdepth
    rw [hframes] at hdepth
    exact Nat.succ.inj hdepth

/-- **A call without end leaves its scope open**, whatever the budget, where calls are traced. -/
theorem endless_cutOff (hlevel : 1 ≤ tracing.level) (hbudget : openingDepth < budget) {place : Int}
    (hf : m.scope.fetch? (.text "f") = some endless) (hx : m.scope.fetch? (.text "x") = some (.literal place value)) :
    CutOff m (evaluate tracing budget again m) := by
  induction budget generalizing m place with
  | zero => cases hbudget
  | succ budget ih =>
    have hroom : openingDepth ≤ budget := Nat.le_of_lt_succ hbudget
    have harg : ∀ journal, evaluate tracing budget (.reference 17 (.text "x")) ⟨m.scope.push, journal⟩ =
        (.ok value, ⟨m.scope.push, journal⟩) := by
      intro journal
      obtain ⟨rest, rfl⟩ := Nat.exists_eq_add_of_le' hroom
      exact evaluate_bound 17 ((fetch?_push m.scope _).trans hx)
    refine endless_step _ hlevel hroom hf harg fun hpassing journal => ?_
    refine ih (lt_of_lt_of_le (by decide) hpassing) ?_ ((fetch?_assign _ _ _ _).trans rfl)
    exact (fetch?_assign _ _ _ _).trans ((fetch?_push m.scope _).trans hf)

end

/-- binding it shows a line at most -/
theorem evaluate_assign_endless (tracing : Tracing) (budget : ℕ) (m : Machine) :
    ∃ journal, evaluate tracing (budget + 1) (.assign 4 (.text "f") endless) m =
      (.ok (.text "fn"), ⟨m.scope.assign (.ofText "f") endless, journal⟩) := by
  have htrace : ∃ journal, trace tracing 2 (fun _ => .ok "assign f := <fn x>") ⟨m.scope.assign (.ofText "f") endless, m.journal⟩ =
      (.ok (), ⟨m.scope.assign (.ofText "f") endless, journal⟩) := by
    unfold trace
    split
    · have hline : Text.isEncodable (Event.noted "assign f := <fn x>").line = true := by decide
      exact ⟨_, congrFun (record_taken fun _ => hline) _⟩
    · exact ⟨m.journal, rfl⟩
  obtain ⟨journal, hrun⟩ := htrace
  exact ⟨journal, (run_bind_ok hrun).trans rfl⟩

/-- calls itself forever -/
def runaway : String := "let f := \\x -> f x; f 1"

/-- the statements of that program -/
def runawayParts : List Node := [.assign 4 (.text "f") endless, .call 20 (.text "f") [.literal 22 (.int 1)]]

theorem parseSource_runaway : Parsing.parseSource runaway = .ok (.statements 0 (.text "") runawayParts) := by
  have htokens : Token.tokenize runaway = [⟨.keyword, "let", 0⟩, ⟨.identifier, "f", 4⟩, ⟨.operator, ":=", 6⟩,
      ⟨.symbol, "\\", 9⟩, ⟨.identifier, "x", 10⟩, ⟨.operator, "->", 12⟩, ⟨.identifier, "f", 15⟩, ⟨.identifier, "x", 17⟩,
      ⟨.symbol, ";", 18⟩, ⟨.identifier, "f", 20⟩, ⟨.number, "1", 22⟩] := by decide
  rw [Parsing.parseSource, htokens]
  rfl

/-- **A program that calls itself forever leaves a scope open**, where calls are traced. -/
theorem runaway_leaves_scope (session : Session) (hlevel : 1 ≤ session.level) (hbudget : openingDepth + 2 ≤ session.budget) :
    (session.runSource runaway).1 = .error (.stop .exhausted) ∧
      (session.runSource runaway).2.2.scope.depth = session.scope.depth + 1 := by
  obtain ⟨budget, hroom⟩ := Nat.exists_eq_add_of_le' hbudget
  have hbudget : session.budget = (budget + openingDepth + 1) + 1 := hroom
  obtain ⟨journal, hassign⟩ := evaluate_assign_endless session.tracing (budget + openingDepth) ⟨session.scope, []⟩
  have hf : (session.scope.assign (.ofText "f") endless).fetch? (.text "f") = some endless :=
    (fetch?_assign _ _ _ _).trans rfl
  have hcall : CutOff ⟨session.scope.assign (.ofText "f") endless, journal⟩
      (evaluate session.tracing (budget + openingDepth + 1) (.call 20 (.text "f") [.literal 22 (.int 1)])
        ⟨session.scope.assign (.ofText "f") endless, journal⟩) := by
    refine endless_step _ hlevel (Nat.le_add_left _ _) hf (fun _ => rfl) fun hpassing _ => ?_
    refine endless_cutOff hlevel (lt_of_lt_of_le (by decide) hpassing) ?_ ((fetch?_assign _ _ _ _).trans rfl)
    exact (fetch?_assign _ _ _ _).trans ((fetch?_push _ _).trans hf)
  obtain ⟨last, hlast, hdepth⟩ := hcall
  have hparts : evaluateAll (evaluate session.tracing (budget + openingDepth + 1)) runawayParts ⟨session.scope, []⟩ =
      (.error .exhausted, last) :=
    (run_bind_ok hassign).trans (run_bind_error (run_bind_error hlast))
  have hrun : evaluate session.tracing session.budget (.statements 0 (.text "") runawayParts) ⟨session.scope, []⟩ =
      (.error .exhausted, last) := by
    rw [hbudget]
    exact run_bind_error hparts
  rw [Session.runSource_of_ok session parseSource_runaway, Session.execute_tree session hrun]
  exact ⟨rfl, hdepth⟩

end LetScript
