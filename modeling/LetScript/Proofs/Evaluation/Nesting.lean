/-
Calls in a trace are nested.

The trace of a call starts with its announcement, ends with word of its end, and holds nothing but traces of calls one level
deeper in between. `Nested depth` says of a list of events that it consists of such calls, announced for the depth that comes
next. What is traced one after the other is appended (`Nested.append`), and a call is put around what happens in it.

A run for which there is not enough room may be cut off in the announcement of a call, when the scope of the call is open and
nothing sees to its end. Then this announcement, if it got into the trace, stays without word of an end, and all the calls around
it end one level deeper than they should: such a trace is `Torn`.

Calls of `print` are built in and leave nothing. To know that no other call has this name, evaluation is looked at under the
invariant of parsed programs with one more condition on the lines of a trace: none announces a call of `print` (`quiet`). So
evaluation at the first level, however it ends, traces nested calls for the depth of the scope it starts on and leaves that
depth, or it has used up its budget with a torn trace and leaves one scope more: `evaluate_nested`.
-/
import LetScript.Proofs.Evaluation.WellFormed

namespace LetScript.Evaluation

open Run

variable {α β : Type}

/-! ## Nested calls -/

/-- the events of the trace -/
def traced (events : List Event) : List Event := events.filter Event.isTraced

theorem traced_append (events others : List Event) : traced (events ++ others) = traced events ++ traced others :=
  List.filter_append ..

/-- events are calls one after the other, made where as many scopes are open as the depth says -/
inductive Nested : ℕ → List Event → Prop where
  | nil (depth : ℕ) : Nested depth []
  | call {depth : ℕ} {name : String} {given : ℕ} {inner after : List Event} (named : name ≠ "print")
      (inside : Nested (depth + 1) inner) (behind : Nested depth after) :
      Nested depth (.called name given (depth + 1) :: (inner ++ .returned name depth :: after))

theorem Nested.append {depth : ℕ} {events others : List Event} (h : Nested depth events) (h' : Nested depth others) :
    Nested depth (events ++ others) := by
  induction h with
  | nil depth => exact h'
  | call named inside _ _ ih =>
    rw [List.cons_append, List.append_assoc, List.cons_append]
    exact .call named inside (ih h')

/-- events of a run that was cut off in a call: calls one after the other, and last the announcement of one more, if it got that
far, or a call in which the run was cut off, with word of its end at the depth that it left -/
inductive Torn : ℕ → List Event → Prop where
  | unannounced {depth : ℕ} {before : List Event} (calls : Nested depth before) : Torn depth before
  | announced {depth : ℕ} {before : List Event} {name : String} {given : ℕ} (calls : Nested depth before)
      (named : name ≠ "print") : Torn depth (before ++ [.called name given (depth + 1)])
  | inside {depth : ℕ} {before inner : List Event} {name : String} {given : ℕ} (calls : Nested depth before)
      (named : name ≠ "print") (torn : Torn (depth + 1) inner) :
      Torn depth (before ++ .called name given (depth + 1) :: (inner ++ [.returned name (depth + 1)]))

theorem Nested.torn {depth : ℕ} {events others : List Event} (h : Nested depth events) (h' : Torn depth others) :
    Torn depth (events ++ others) := by
  cases h' with
  | unannounced calls => exact .unannounced (h.append calls)
  | announced calls named =>
    rw [← List.append_assoc]
    exact .announced (h.append calls) named
  | inside calls named torn =>
    rw [← List.append_assoc]
    exact .inside (h.append calls) named torn

/-! ## Announcements of `print` -/

theorem called_line (name : String) (given depth : ℕ) : (Event.called name given depth).line =
    "call " ++ name ++ "/" ++ Nat.repr given ++ " (depth " ++ Nat.repr depth ++ ")" := rfl

theorem returned_line (name : String) (depth : ℕ) : (Event.returned name depth).line =
    "return from " ++ name ++ " (depth " ++ Nat.repr depth ++ ")" := rfl

/-- a line does not announce a call of `print` -/
def Quiet (line : Except Abort String) : Prop := ∀ given depth, line ≠ .ok (Event.called "print" given depth).line

/-- announcements start with the word for them -/
theorem quiet_of_head {text : String} (h : text.toList.head? ≠ some 'c') : Quiet (.ok text) := by
  intro given depth hline
  apply h
  rw [Except.ok.inj hline, called_line]
  simp [String.toList_append]

theorem Quiet.map {line : Except Abort String} {f : String → String} (h : ∀ text, Quiet (.ok (f text))) :
    Quiet (line.map f) := by
  cases line with
  | ok text => exact h text
  | error abort =>
    intro given depth hline
    cases hline

theorem slash_not_mem_repr (n : ℕ) : '/' ∉ (Nat.repr n).toList := by
  intro hslash
  rw [Nat.toList_repr] at hslash
  exact absurd (Nat.isDigit_of_mem_toDigits (by decide) (by decide) hslash) (by decide)

/-- an announcement tells the name of the call: in one of `print`, a slash stands behind the name only -/
theorem quiet_of_name {name : String} (h : name ≠ "print") (given depth : ℕ) :
    Quiet (.ok (Event.called name given depth).line) := by
  intro given' depth' hline
  have hsplit : ∀ (name : String) (given depth : ℕ), (Event.called name given depth).line.toList =
      ("call ".toList ++ name.toList) ++
        '/' :: ((Nat.repr given).toList ++ (" (depth ".toList ++ ((Nat.repr depth).toList ++ ")".toList))) := by
    intro name given depth
    have hslash : "/".toList = ['/'] := by decide
    rw [called_line]
    simp only [String.toList_append, hslash, List.append_assoc, List.cons_append, List.nil_append]
  have hlists := congrArg String.toList (Except.ok.inj hline).symm
  rw [hsplit, hsplit] at hlists
  have hfront : '/' ∉ "call ".toList ++ "print".toList := by decide
  have hback : '/' ∉ (Nat.repr given').toList ++ (" (depth ".toList ++ ((Nat.repr depth').toList ++ ")".toList)) := by
    simp only [List.mem_append, slash_not_mem_repr, false_or]
    decide
  obtain ⟨hname, -⟩ := (List.append_cons_inj_of_notMem hfront hback).1 hlists
  exact h (String.toList_inj.1 (List.append_cancel_left hname)).symm

/-- what the trees, values, stops and trace lines of parsed programs have in common; no line announces a call of `print` -/
def quiet : Invariant := { parsed with line := fun line => Writable line ∧ Quiet line }

theorem quiet_traceable : quiet.Traceable := ⟨And.left, rfl⟩

/-- only names other than `print` are announced -/
theorem quiet_named {name : String} {given : ℕ} (h : quiet.Announces name given) : name ≠ "print" := by
  intro hname
  exact (h.called 0).2 given 0 (by rw [hname])

/-- lines about bindings, loops and conditions, and about the end of calls, announce nothing -/
theorem quiet_other (text : String) : Quiet (.ok ("assign " ++ text)) ∧ Quiet (.ok ("loop x" ++ text)) ∧
    Quiet (.ok ("if condition " ++ text)) ∧ Quiet (.ok ("return from " ++ text)) := by
  refine ⟨quiet_of_head ?_, quiet_of_head ?_, quiet_of_head ?_, quiet_of_head ?_⟩
  all_goals simp [String.toList_append]

/-- a well-formed node has what it needs, without announcing a call of `print` -/
theorem quiet_needs {node : Node} (h : node.WellFormed) : quiet.Needs node := by
  have hneeds := parsed_needs h
  cases h with
  | @assign position name expression named bound =>
    obtain ⟨hexpression, hbinds, hvalue, hfunction⟩ := hneeds
    refine ⟨hexpression, hbinds, fun value hv => ⟨hvalue value hv, Quiet.map fun shown => ?_⟩, ?_⟩
    · simp only [String.append_assoc]
      exact (quiet_other _).1
    · intro place params body hlambda
      refine ⟨hfunction place params body hlambda, Quiet.map fun names => ?_⟩
      simp only [String.append_assoc]
      exact (quiet_other _).1
  | @call position name args named given =>
    obtain ⟨hargs, hcall⟩ := hneeds
    refine ⟨hargs, ?_⟩
    obtain ⟨text, rfl, -⟩ := named
    simp only [Key.ofJson?] at hcall ⊢
    split_ifs at hcall ⊢ with hprint
    · exact hcall
    · have hname : text ≠ "print" := fun htext => hprint (congrArg Key.text htext)
      obtain ⟨hcallee, hnotCallable, harity, hannounces⟩ := hcall
      refine ⟨⟨hcallee.usable, hcallee.unbound⟩, hnotCallable, harity, fun depth => ?_, fun depth => ?_⟩
      · exact ⟨hannounces.called depth, quiet_of_name hname args.length depth⟩
      · refine ⟨hannounces.returned depth, ?_⟩
        simp only [Json.spelled, returned_line, String.append_assoc]
        exact (quiet_other _).2.2.2
  | reference named => exact ⟨hneeds.usable, hneeds.unbound⟩
  | block all => exact hneeds
  | loop counted inner => exact hneeds
  | operation known first second => exact hneeds
  | literal held => exact hneeds
  | lambda named inner => exact hneeds
  | conditional test whenTrue whenFalse => exact hneeds

/-- **Evaluation of parsed programs announces no call of `print`.** -/
theorem quiet_inductive : quiet.Inductive where
  needs := quiet_needs
  list := parsed_inductive.list
  marker := parsed_inductive.marker
  shown := parsed_inductive.shown
  unshown := parsed_inductive.unshown
  body := parsed_inductive.body
  params := parsed_inductive.params
  actual := parsed_inductive.actual
  rounds times := ⟨parsed_inductive.rounds times, Quiet.map fun text => (quiet_other text).2.1⟩
  decided hvalue := ⟨parsed_inductive.decided hvalue, Quiet.map fun text => by
    simp only [String.append_assoc]
    exact (quiet_other _).2.2.1⟩
  exhausted := parsed_inductive.exhausted

/-! ## Runs -/

/-- what a run adds to the journal is traced as nested calls, for the depth of the scope that it starts on and leaves; or the run
was cut off in a call, and leaves one scope more -/
def Adds (m : Machine) (ended : Except Stop α × Machine) : Prop :=
  ∃ events, ended.2.journal = events.reverse ++ m.journal ∧
    (Nested m.scope.depth (traced events) ∧ ended.2.scope.depth = m.scope.depth ∨
      ended.1 = .error .exhausted ∧ Torn m.scope.depth (traced events) ∧ ended.2.scope.depth = m.scope.depth + 1)

namespace Adds

variable {m next last : Machine}

theorem of_untraced {ended : Except Stop α × Machine} (events : List Event) (h : ended.2.journal = events.reverse ++ m.journal)
    (huntraced : traced events = []) (hdepth : ended.2.scope.depth = m.scope.depth) : Adds m ended :=
  ⟨events, h, Or.inl ⟨huntraced ▸ .nil _, hdepth⟩⟩

/-- where a run stopped is all that matters of how it ended -/
theorem error {stop : Stop} (h : Adds m ((.error stop, next) : Except Stop α × Machine)) :
    Adds m ((.error stop, next) : Except Stop β × Machine) := by
  obtain ⟨events, hjournal, hnested | ⟨hout, htorn⟩⟩ := h
  · exact ⟨events, hjournal, Or.inl hnested⟩
  · cases hout
    exact ⟨events, hjournal, Or.inr ⟨rfl, htorn⟩⟩

theorem trans {a : α} {ended : Except Stop β × Machine} (h : Adds m (.ok a, next)) (h' : Adds next ended) : Adds m ended := by
  obtain ⟨events, hjournal, ⟨hnested, hdepth⟩ | ⟨hout, -⟩⟩ := h
  · obtain ⟨others, hjournal', hothers⟩ := h'
    dsimp only at hjournal hdepth
    rw [hdepth] at hothers
    refine ⟨events ++ others, ?_, ?_⟩
    · rw [hjournal', hjournal, List.reverse_append, List.append_assoc]
    · rw [traced_append]
      exact hothers.imp (fun ⟨hn, hd⟩ => ⟨hnested.append hn, hd⟩) fun ⟨hout, ht, hd⟩ => ⟨hout, hnested.torn ht, hd⟩
  · cases hout

/-- a call that is cut off in its announcement leaves its scope open, on a torn trace -/
theorem of_cut {name : String} {given : ℕ} {events : List Event} (hprint : name ≠ "print")
    (hevents : events = [] ∨ events = [.called name given (m.scope.depth + 1)]) :
    Adds m ((.error .exhausted, ⟨m.scope.push, events ++ m.journal⟩) : Except Stop α × Machine) := by
  refine ⟨events, ?_, Or.inr ⟨rfl, ?_, List.length_cons⟩⟩
  · rcases hevents with rfl | rfl <;> rfl
  · rcases hevents with rfl | rfl
    · exact .unannounced (.nil _)
    · exact .announced (.nil _) hprint

/-- the way out of a call puts word of its end behind what happened in it -/
theorem of_inside {name : String} {given : ℕ} {ended : Except Stop α × Machine} (hprint : name ≠ "print")
    (h : Adds ⟨m.scope.push, .called name given (m.scope.depth + 1) :: m.journal⟩ ended) :
    ∃ frame rest, ended.2.scope.frames = frame :: rest ∧
      Adds m (ended.1, ⟨⟨rest, frame⟩, .returned name rest.length :: ended.2.journal⟩) := by
  obtain ⟨events, hjournal, hends⟩ := h
  have hopen : 0 < ended.2.scope.frames.length := by
    rcases hends with ⟨-, hdepth⟩ | ⟨-, -, hdepth⟩
    · exact (Nat.succ_pos _).trans_eq hdepth.symm
    · exact (Nat.succ_pos _).trans_eq hdepth.symm
  obtain ⟨frame, rest, hframes⟩ := List.exists_cons_of_length_pos hopen
  have hlength : ended.2.scope.depth = rest.length + 1 := by rw [Scope.depth, hframes, List.length_cons]
  refine ⟨frame, rest, hframes, .called name given (m.scope.depth + 1) :: (events ++ [.returned name rest.length]), ?_, ?_⟩
  · simp [hjournal]
  · have htrace : traced (.called name given (m.scope.depth + 1) :: (events ++ [.returned name rest.length])) =
        .called name given (m.scope.depth + 1) :: (traced events ++ [.returned name rest.length]) :=
      congrArg (List.cons _) (traced_append events [.returned name rest.length])
    have hpush : m.scope.push.depth = m.scope.depth + 1 := List.length_cons
    rw [htrace]
    dsimp only at hends
    rw [hpush, hlength] at hends
    rcases hends with ⟨hnested, hdepth⟩ | ⟨hout, htorn, hdepth⟩
    · have hrest : rest.length = m.scope.depth := Nat.succ.inj hdepth
      rw [hrest]
      exact Or.inl ⟨.call hprint hnested (.nil _), hrest⟩
    · have hrest : rest.length = m.scope.depth + 1 := Nat.succ.inj hdepth
      rw [hrest]
      exact Or.inr ⟨hout, .inside (.nil _) hprint htorn, hrest⟩

end Adds

/-- runs that stay inside the invariant and add a nested trace, or a torn one -/
def Nests (I : Invariant) (α : Type) (A : α → Prop) (run run' : Run α) : Prop :=
  Contained I α A run run' ∧ ∀ m, Holds I.node m.scope → Adds m (run m)

namespace Nests

variable {I : Invariant} {A : α → Prop} {B : β → Prop} {run run' : Run α}

/-- a run that leaves the journal and the depth of the scope alone -/
theorem ofStill (h : Contained I α A run run') (hstill : ∀ m, (run m).2.journal = m.journal)
    (hdepth : ∀ m, (run m).2.scope.depth = m.scope.depth) : Nests I α A run run' :=
  ⟨h, fun m _ => .of_untraced [] (hstill m) rfl (hdepth m)⟩

theorem bind {go go' : α → Run β} (h : Nests I α A run run') (hgo : ∀ a, A a → Nests I β B (go a) (go' a)) :
    Nests I β B (run >>= go) (run' >>= go') := by
  refine ⟨h.1.bind fun a ha => (hgo a ha).1, fun m hm => ?_⟩
  have hadds := h.2 m hm
  obtain ⟨-, hmeets, hholds, -⟩ := h.1 m hm
  rcases hr : run m with ⟨outcome, next⟩
  rw [hr] at hadds hmeets hholds
  cases outcome with
  | ok a =>
    rw [run_bind_ok hr]
    exact hadds.trans ((hgo a hmeets).2 next hholds)
  | error stop =>
    rw [run_bind_error hr]
    exact hadds.error

/-- a call puts its announcement before what happens in it, and word of its end behind -/
theorem inCall (hI : I.Traceable) (hexhausted : I.stop .exhausted) {A : Value → Prop} {run run' : Run Value} {name : String}
    {given : ℕ} (hname : I.Announces name given) (hprint : name ≠ "print") (h : Nests I Value A run run') {tracing : Tracing}
    (hlevel : 1 ≤ tracing.level) (room : ℕ) :
    Nests I Value A (Run.inCall tracing room name given run) (Run.inCall tracing room name given run') := by
  refine ⟨h.1.inCall hI hexhausted hname tracing room, fun m hm => ?_⟩
  have hsaid : ∀ event, tracing.said event = [event] := fun _ => if_pos hlevel
  rcases inCall_cases tracing room name given m with ⟨-, hfull⟩ | ⟨stop, events, -, hstop, hevents, hcut⟩ | ⟨htakes, hcall⟩
  · rw [hfull]
    exact .of_untraced [] rfl rfl rfl
  · obtain rfl := hstop (hI.named hname)
    rw [hcut]
    exact .of_cut hprint hevents
  · let inside : Machine := ⟨m.scope.push, .called name given (m.scope.depth + 1) :: m.journal⟩
    have hinside : Adds inside (run inside) := h.2 inside hm.push
    rcases hrun : run inside with ⟨outcome, inner⟩
    rw [hrun] at hinside
    obtain ⟨frame, rest, hframes, hadds⟩ := hinside.of_inside hprint
    have hended := andFinally_taken htakes hrun hframes
    rw [hsaid] at hended
    rw [hcall, hsaid]
    change Adds m (andFinally run _ inside)
    rw [hended]
    exact hadds

end Nests

/-- tracing nested calls is closed under the ways in which runs are put together, at the level that traces calls only -/
theorem nests_composes {I : Invariant} (hI : I.Traceable) (hprint : ∀ {name given}, I.Announces name given → name ≠ "print")
    {tracing : Tracing} (hlevel : tracing.level = 1) (room : ℕ) : Composes tracing tracing room room I (Nests I) where
  pure ha := .ofStill ((contained_composes hI tracing room).pure ha) (fun _ => rfl) fun _ => rfl
  bind h hgo := h.bind hgo
  halt hstop := .ofStill ((contained_composes hI tracing room).halt hstop) (fun _ => rfl) fun _ => rfl
  print line := ⟨.emit _, fun _ _ => .of_untraced [.printed line] rfl rfl rfl⟩
  trace {threshold line} hthreshold hline := by
    have hsilent : Run.trace tracing threshold line = Pure.pure () := if_neg (by omega)
    have hcontained := Contained.trace hI hline tracing threshold
    rw [hsilent] at hcontained ⊢
    exact .ofStill hcontained (fun _ => rfl) fun _ => rfl
  fetch hname := .ofStill (.fetch hname) (fun _ => rfl) fun _ => rfl
  assign hname hnode := by
    have hstill : ∀ name node m, (Run.assign name node m).2.journal = m.journal ∧
        (Run.assign name node m).2.scope.depth = m.scope.depth := by
      intro name node m
      unfold Run.assign
      split
      · exact ⟨rfl, rfl⟩
      · exact ⟨rfl, rfl⟩
    exact .ofStill (.assign hname hnode) (fun m => (hstill _ _ m).1) fun m => (hstill _ _ m).2
  call hexhausted hname hrun := hrun.inCall hI hexhausted hname (hprint hname) (by omega) room

/-- **Evaluation traces nested calls**, unless it is cut off. The evaluation of a well-formed tree, on a scope where all that is
bound is well-formed, adds nested calls to the trace, none of them of `print`; or it has used up its budget in a call, and the
trace is torn there. -/
theorem evaluate_nested {tracing : Tracing} (hlevel : tracing.level = 1) (budget : ℕ) {node : Node} (hnode : node.WellFormed)
    {m : Machine} (hm : Tidy m.scope) : Adds m (evaluate tracing budget node m) :=
  (Composes.evaluate (nests_composes quiet_traceable quiet_named hlevel) quiet_inductive budget hnode).2 m hm

end LetScript.Evaluation
