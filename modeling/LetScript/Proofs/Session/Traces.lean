/-
The trace of a session at the level that traces calls.

What a source text shows comes from the events of its evaluation, sorted by where they go; the trace file gets the lines of those
that belong to the trace. Whatever was run before and however that ended, the trace of a source text is made of nested calls, on
top of the scopes that are open; a run that has used up its budget may leave a torn trace, and one more scope open. So no more
scopes are open than runs have used up their budget (`afterAll_depth`), and as long as none has, the outermost calls are at the
first depth: `trace_nested`. A function that calls itself forever does leave a scope open, so that the trace of the next run is
displaced: `runaway_displaces`, `runaway_trace_torn`.
-/
import LetScript.Proofs.Evaluation.Nesting
import LetScript.Proofs.Session.Transparency

namespace LetScript

open Evaluation Evaluation.Run Parsing

namespace Session

/-- what happens, in order, when a source text is run; nothing does where it does not parse -/
def events (session : Session) (source : String) : List Event :=
  match parseSource source with
  | .ok tree => (evaluate session.tracing session.budget tree ⟨session.scope, []⟩).2.journal.reverse
  | .error _ => []

/-- a source text shows its events -/
theorem runSource_shown (session : Session) (source : String) :
    (session.runSource source).2.1 = session.route (session.events source) := by
  cases hparse : parseSource source with
  | ok tree =>
    rw [runSource_of_ok session hparse]
    simp only [events, hparse]
    rfl
  | error error =>
    obtain ⟨failure, hrun, -⟩ := runSource_of_error session hparse
    rw [hrun]
    simp only [events, hparse]

/-- the trace file gets the lines of the trace, as long as it is open -/
theorem route_trace (session : Session) (events : List Event) : (session.route events).trace =
    if (session.channels.tracesToFile && session.traceOpen) = true then joinLines ((traced events).map Event.line)
    else "" := by
  have htest : session.channels.onFile = fun event => event.isTraced && session.channels.tracesToFile := rfl
  simp only [route, linesOf, traced, htest]
  cases session.traceOpen with
  | false => simp
  | true =>
    cases session.channels.tracesToFile with
    | false => simp [joinLines]
    | true => simp

/-- runs change nothing of a session but what is bound -/
theorem afterAll_settings (session : Session) (sources : List String) :
    ∃ scope, session.afterAll sources = { session with scope := scope } := by
  induction sources generalizing session with
  | nil => exact ⟨session.scope, rfl⟩
  | cons source rest ih =>
    obtain ⟨scope, hnext⟩ := runSource_settings session source
    obtain ⟨last, hlast⟩ := ih { session with scope := scope }
    refine ⟨last, ?_⟩
    calc session.afterAll (source :: rest) = (session.runSource source).2.2.afterAll rest := rfl
      _ = { session with scope := last } := by rw [hnext, hlast]

/-- the trace of a run is nested, for the depth of the scope that it starts on and leaves; or the run has used up its budget in
a call, on a torn trace, and leaves one scope more -/
def Bracketed (depth : ℕ) (events : List Event) (result : Result) : Prop :=
  Nested depth (traced events) ∧ result.2.2.scope.depth = depth ∨
    result.1 = .error (.stop .exhausted) ∧ Torn depth (traced events) ∧ result.2.2.scope.depth = depth + 1

/-- one source text on a session in which all that is bound is well-formed -/
theorem runSource_bracketed {session : Session} (hlevel : session.level = 1) (htidy : Tidy session.scope) (source : String) :
    Bracketed session.scope.depth (session.events source) (session.runSource source) := by
  cases hparse : parseSource source with
  | ok tree =>
    rcases parseSource_cases source with ⟨other, hother, htree⟩ | ⟨complaint, hother⟩ | ⟨token, hother, -, -⟩
    · obtain rfl := Except.ok.inj (hparse.symm.trans hother)
      have hadds : Adds ⟨session.scope, []⟩ (evaluate session.tracing session.budget tree ⟨session.scope, []⟩) :=
        evaluate_nested hlevel session.budget htree htidy
      obtain ⟨events, hjournal, hends⟩ := hadds
      have hevents : session.events source = events := by
        simp only [Session.events, hparse, hjournal, List.append_nil, List.reverse_reverse]
      rw [hevents, runSource_of_ok session hparse]
      refine hends.imp id fun ⟨hout, htorn, hdepth⟩ => ⟨?_, htorn, hdepth⟩
      simp only [execute, run, hout]
      rfl
    · rw [hparse] at hother
      cases hother
    · rw [hparse] at hother
      cases hother
  | error error =>
    obtain ⟨failure, hrun, -⟩ := runSource_of_error session hparse
    simp only [Bracketed, Session.events, hparse, hrun]
    exact Or.inl ⟨.nil _, trivial⟩

/-- whether a run has used up its budget -/
def isExhausted (result : Result) : Bool :=
  match result.1 with
  | .error (.stop .exhausted) => true
  | _ => false

/-- a run opens a scope more at most, and that only where it has used up its budget -/
theorem Bracketed.depth_le {depth : ℕ} {events : List Event} {result : Result} (h : Bracketed depth events result) :
    result.2.2.scope.depth ≤ depth + [result].countP isExhausted := by
  rcases h with ⟨-, hdepth⟩ | ⟨hout, -, hdepth⟩
  · exact hdepth.le.trans (Nat.le_add_right _ _)
  · have hexhausted : isExhausted result = true := by rw [isExhausted, hout]
    rw [hdepth, List.countP_singleton, if_pos hexhausted]

/-- no more scopes are open than runs have used up their budget -/
theorem afterAll_depth {session : Session} (hlevel : session.level = 1) (htidy : Tidy session.scope) (sources : List String) :
    (session.afterAll sources).scope.depth ≤
      session.scope.depth + (session.executeAll (sources.map .source)).countP isExhausted := by
  induction sources generalizing session with
  | nil => exact Nat.le_add_right _ _
  | cons source rest ih =>
    obtain ⟨scope, hnext⟩ := runSource_settings session source
    have hfirst := (runSource_bracketed hlevel htidy source).depth_le
    have hrest := @ih (session.runSource source).2.2 (by rw [hnext]; exact hlevel) (runSource_proper htidy source).2
    have hcount : (session.executeAll ((source :: rest).map .source)).countP isExhausted =
        [session.runSource source].countP isExhausted +
          ((session.runSource source).2.2.executeAll (rest.map .source)).countP isExhausted :=
      @List.countP_append _ _ [session.runSource source] _
    have hafter : session.afterAll (source :: rest) = (session.runSource source).2.2.afterAll rest := rfl
    rw [hafter, hcount]
    omega

/-- **The trace of calls is well bracketed, up to used-up budgets.** On a session at the first level on which any source texts were
run, a source text shows its events, and its trace consists of nested calls on top of the scopes that are open: every announcement
of a call is closed by word of its end, the depths of both count the calls around them, and no call of `print` is announced. The
run leaves no scope open, unless it has used up its budget in a call; then the trace is torn there. No more scopes are open than
earlier runs have used up their budget. The trace file, if there is one and it is open, gets the lines of just these events. -/
theorem trace_nested (settings : Session) (sources : List String) (source : String) :
    let first : Session := { settings with scope := .empty, level := 1 }
    let session := first.afterAll sources
    (session.runSource source).2.1 = session.route (session.events source) ∧
      Bracketed session.scope.depth (session.events source) (session.runSource source) ∧
      session.scope.depth ≤ (first.executeAll (sources.map .source)).countP isExhausted ∧
      (session.runSource source).2.1.trace =
        if (settings.channels.tracesToFile && settings.traceOpen) = true then
          joinLines ((traced (session.events source)).map Event.line)
        else "" := by
  intro first session
  have hfirst : Tidy first.scope := tidy_empty
  have htidy : Tidy session.scope := afterAll_tidy hfirst sources
  obtain ⟨scope, hsettings⟩ := afterAll_settings first sources
  have hsession : session = { settings with scope := scope, level := 1 } := hsettings
  have hlevel : session.level = 1 := by rw [hsession]
  have hfile : session.channels = settings.channels := by rw [hsession]
  have hopen : session.traceOpen = settings.traceOpen := by rw [hsession]
  have hdepth : session.scope.depth ≤ 0 + _ := @afterAll_depth first rfl hfirst sources
  rw [Nat.zero_add] at hdepth
  have hshown := runSource_shown session source
  refine ⟨hshown, runSource_bracketed hlevel htidy source, hdepth, ?_⟩
  rw [hshown, route_trace, hfile, hopen]

example : ((start 1 plainChannels).runSource "let f := \\x -> x / 0; let g := \\x -> \x7b print x; f (f x) \x7d; g 1").2.1.trace =
    joinLines ["call g/1 (depth 1)", "call f/1 (depth 2)", "call f/1 (depth 3)", "return from f (depth 2)",
      "return from f (depth 1)", "return from g (depth 0)"] := by
  decide +kernel

example : (({ start 1 plainChannels with budget := 8 } : Session).runSource runaway).2.1.trace =
    joinLines ["call f/1 (depth 1)", "call f/1 (depth 2)", "call f/1 (depth 3)", "return from f (depth 2)",
      "return from f (depth 1)"] := by
  decide +kernel

/-! ## A torn trace -/

/-- calls a function once -/
def single : String := "let g := \\x -> x; g 1"

/-- the function that it calls -/
def identity : Node := .lambda 9 [.text "x"] (.reference 15 (.text "x"))

/-- the statements of that program -/
def singleParts : List Node := [.assign 4 (.text "g") identity, .call 18 (.text "g") [.literal 20 (.int 1)]]

theorem parseSource_single : parseSource single = .ok (.statements 0 (.text "") singleParts) := by
  have htokens : Token.tokenize single = [⟨.keyword, "let", 0⟩, ⟨.identifier, "g", 4⟩, ⟨.operator, ":=", 6⟩,
      ⟨.symbol, "\\", 9⟩, ⟨.identifier, "x", 10⟩, ⟨.operator, "->", 12⟩, ⟨.identifier, "x", 15⟩, ⟨.symbol, ";", 16⟩,
      ⟨.identifier, "g", 18⟩, ⟨.number, "1", 20⟩] := by decide
  rw [parseSource, htokens]
  rfl

/-- what its call does: it is announced and ends, with the value of the argument -/
theorem evaluate_identity {tracing : Tracing} (hlevel : tracing.level = 1) {budget : ℕ} (hbudget : passingDepth ≤ budget)
    {m : Machine} (hg : m.scope.fetch? (.text "g") = some identity) :
    evaluate tracing (budget + 1) (.call 18 (.text "g") [.literal 20 (.int 1)]) m =
      (.ok (.int 1), ⟨m.scope, .returned "g" m.scope.depth :: .called "g" 1 (m.scope.depth + 1) :: m.journal⟩) := by
  have hcall : evaluate tracing (budget + 1) (.call 18 (.text "g") [.literal 20 (.int 1)]) m =
      inCall tracing budget "g" 1 (applyNamed (evaluate tracing budget) 18 (.text "g") [.literal 20 (.int 1)]) m := rfl
  have htakes : tracing.Takes budget (Event.called "g" 1 (m.scope.depth + 1)).line := fun _ =>
    ⟨hbudget, fun _ => (Text.isEncodable_called "g" 1 _).trans (by decide)⟩
  have hsaid : ∀ event, tracing.said event = [event] := fun _ => if_pos hlevel.ge
  rw [hcall, inCall_taken (le_trans (by decide) hbudget) htakes, hsaid]
  obtain ⟨rest, rfl⟩ := Nat.exists_eq_add_of_le' (le_trans (show 2 ≤ passingDepth by decide) hbudget)
  let inside : Machine := ⟨m.scope.push, .called "g" 1 (m.scope.depth + 1) :: m.journal⟩
  let bound : Machine := { inside with scope := inside.scope.assign (.ofText "x") (.literal 20 (.int 1)) }
  have hbody : applyNamed (evaluate tracing (rest + 2)) 18 (.text "g") [.literal 20 (.int 1)] inside =
      evaluate tracing (rest + 2) (.reference 15 (.text "x")) bound :=
    applyNamed_unary 18 ((fetch?_push _ _).trans hg) rfl
  have hx : bound.scope.fetch? (.text "x") = some (.literal 20 (.int 1)) := (fetch?_assign _ _ _ _).trans rfl
  have hframes : bound.scope.frames = m.scope.current :: m.scope.frames := rfl
  have hended := andFinally_taken htakes.returned (hbody.trans (evaluate_bound 15 hx)) hframes
  rw [hsaid] at hended
  exact hended

/-- the trace of that program starts at the depth of the scope -/
theorem events_single {session : Session} (hlevel : session.level = 1) (hbudget : passingDepth + 2 ≤ session.budget) :
    session.events single = [.called "g" 1 (session.scope.depth + 1), .returned "g" session.scope.depth] := by
  obtain ⟨budget, hroom⟩ := Nat.exists_eq_add_of_le' hbudget
  have hbudget : session.budget = (budget + passingDepth + 1) + 1 := hroom
  let bound : Machine := ⟨session.scope.assign (.ofText "g") identity, []⟩
  have hsilent : ¬ 2 ≤ session.tracing.level := by
    rw [show session.tracing.level = 1 from hlevel]
    decide
  have hassign : evaluate session.tracing (budget + passingDepth + 1) (.assign 4 (.text "g") identity) ⟨session.scope, []⟩ =
      (.ok (.text "fn"), bound) := by
    have htrace : ∀ line, trace session.tracing 2 line bound = (.ok (), bound) := fun line => by rw [trace, if_neg hsilent]; rfl
    exact (run_bind_ok (htrace _)).trans rfl
  have hg : bound.scope.fetch? (.text "g") = some identity := (fetch?_assign _ _ _ _).trans rfl
  have hcall := @evaluate_identity session.tracing hlevel _ (Nat.le_add_left passingDepth budget) bound hg
  let last : Machine := ⟨bound.scope, [.returned "g" session.scope.depth, .called "g" 1 (session.scope.depth + 1)]⟩
  have hrest : evaluateAll (evaluate session.tracing (budget + passingDepth + 1))
      [.call 18 (.text "g") [.literal 20 (.int 1)]] bound = (.ok [.int 1], last) := run_bind_ok hcall
  have hparts : evaluateAll (evaluate session.tracing (budget + passingDepth + 1)) singleParts ⟨session.scope, []⟩ =
      (.ok [.text "fn", .int 1], last) := (run_bind_ok hassign).trans (run_bind_ok hrest)
  have hrun : evaluate session.tracing session.budget (.statements 0 (.text "") singleParts) ⟨session.scope, []⟩ =
      (.ok (.list [.text "fn", .int 1]), last) := by
    rw [hbudget]
    exact run_bind_ok hparts
  simp only [events, parseSource_single, hrun]
  rfl

/-- nested calls begin with an announcement at the next depth -/
theorem nested_head {depth : ℕ} {first : Event} {rest : List Event} (h : Nested depth (first :: rest)) :
    ∃ name given, first = .called name given (depth + 1) := by
  cases h with
  | call named inside behind => exact ⟨_, _, rfl⟩

/-- **A call that never ends displaces the traces behind it**: the first call of the next run is announced one level too deep. -/
theorem runaway_displaces {session : Session} (hlevel : session.level = 1) (hbudget : passingDepth + 2 ≤ session.budget) :
    (session.runSource runaway).2.2.events single =
      [.called "g" 1 (session.scope.depth + 2), .returned "g" (session.scope.depth + 1)] := by
  have hdepth := (runaway_leaves_scope session hlevel.ge (le_trans (by decide) hbudget)).2
  obtain ⟨scope, hnext⟩ := runSource_settings session runaway
  rw [hnext] at hdepth ⊢
  have hevents := @events_single { session with scope := scope } hlevel hbudget
  rw [hevents, hdepth]

/-- **The trace is not always well bracketed.** A session starts with a call that never ends, and leaves a scope open. What it runs
next makes one call, and announces it one level too deep. -/
theorem runaway_trace_torn :
    let first := (start 1 plainChannels).runSource runaway
    let second := first.2.2.runSource single
    first.1 = .error (.stop .exhausted) ∧ first.2.2.scope.depth = 1 ∧
      second.2.1.trace = joinLines ["call g/1 (depth 2)", "return from g (depth 1)"] ∧
      ¬ Nested 0 (traced (first.2.2.events single)) := by
  obtain ⟨hexhausted, hdepth⟩ := runaway_leaves_scope (start 1 plainChannels) (by decide) (by decide)
  have hevents := @runaway_displaces (start 1 plainChannels) rfl (by decide)
  obtain ⟨scope, hnext⟩ := runSource_settings (start 1 plainChannels) runaway
  generalize (start 1 plainChannels).runSource runaway = first at hexhausted hdepth hevents hnext ⊢
  refine ⟨hexhausted, hdepth, ?_, fun hnested => ?_⟩
  · rw [runSource_shown, hevents, hnext]
    rfl
  · rw [hevents] at hnested
    obtain ⟨name, given, hcalled⟩ := nested_head hnested
    cases hcalled

end Session

end LetScript
