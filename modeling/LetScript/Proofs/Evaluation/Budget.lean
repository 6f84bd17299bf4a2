/-
Runs with a larger budget.

A run and one of the same with a larger budget go side by side (`Deepens`): they do the same, unless the first uses up its
budget, and then the second has printed all that the first has. Nothing takes back what was printed, so a run that is cut off
somewhere inside stays behind the other one whatever comes next (`Deepens.bind`).

A call is where this could fail, because it does something on its way out, also when the budget is used up inside it. But a call
that was announced finds a scope to close, and word of its end is taken wherever the announcement was (`wayOut_announced`): a
used-up budget is never hidden by another reason to stop. The announcement itself needs room, and there a larger budget goes
on as well (`Deepens.traceCall`).

`step_deeper` says of one step that it is deepened when the evaluation of the parts is, wherever that is cut off, and
`evaluate_deeper` follows by induction on the smaller budget.
-/
import LetScript.Proofs.Evaluation.Silence

namespace LetScript.Evaluation

open Run

variable {α β : Type}

/-! ## The way out of a call -/

/-- what is said about a call is no print -/
theorem prints_said (t : Tracing) {event : Event} (h : event.isTraced = true) (events : List Event) :
    prints (t.said event ++ events) = prints events := by
  unfold Tracing.said
  split_ifs
  · exact prints_cons_traced h events
  · rfl

/-- a call that was announced ends as what it runs does, in the scope that lies under the newest one then -/
theorem wayOut_announced {t : Tracing} {run : Run α} {room : ℕ} {name : String} {given : ℕ} {m next : Machine} {a : Unit}
    (h : Restores t.CutsOff run)
    (hcalled : traceCall t room (.called name given) ⟨m.scope.push, m.journal⟩ = (.ok a, next)) :
    ∃ frame rest, (run next).2.scope.frames = frame :: rest ∧
      andFinally run (leave >>= fun _ => traceCall t room (.returned name)) next =
        ((run next).1, ⟨⟨rest, frame⟩, t.said (.returned name rest.length) ++ (run next).2.journal⟩) := by
  by_cases htakes : t.Takes room (Event.called name given m.scope.push.depth).line
  · rw [traceCall_taken (.called name given) ⟨m.scope.push, m.journal⟩ htakes] at hcalled
    obtain rfl := (Prod.mk.inj hcalled).2
    have hleaves := h ⟨m.scope.push, t.said (.called name given m.scope.push.depth) ++ m.journal⟩
    rcases hrun : run ⟨m.scope.push, t.said (.called name given m.scope.push.depth) ++ m.journal⟩ with ⟨outcome, inner⟩
    rw [hrun] at hleaves
    obtain ⟨frame, rest, hframes, -⟩ := hleaves.returns fun _ => []
    exact ⟨frame, rest, hframes, andFinally_taken htakes.returned hrun hframes⟩
  · obtain ⟨stop, events, -, -, -, hcut⟩ := traceCall_cut (.called name given) ⟨m.scope.push, m.journal⟩ htakes
    rw [hcut] at hcalled
    cases hcalled

/-! ## Runs side by side -/

/-- a run ended as another did, or the other had used up its budget and this one has printed all that it had -/
def Further (ended ended' : Except Stop α × Machine) : Prop :=
  ended' = ended ∨ ended.1 = .error .exhausted ∧ prints ended.2.journal <:+ prints ended'.2.journal

/-- a deeper run does the same, or the run has used up its budget and the deeper one has printed all that it has -/
def Deepens (run run' : Run α) : Prop := ∀ m, Further (run m) (run' m)

theorem Further.bind {run run' : Run α} {go go' : α → Run β} {m : Machine} (h : Further (run m) (run' m))
    (hgo : ∀ a next, run m = (.ok a, next) → run' m = (.ok a, next) → Further (go a next) (go' a next))
    (hgrows : ∀ a next, run' m = (.ok a, next) → next.journal <:+ (go' a next).2.journal) :
    Further ((run >>= go) m) ((run' >>= go') m) := by
  rcases hr : run m with ⟨outcome, next⟩
  rcases h with hsame | ⟨hout, hprints⟩
  · have hr' : run' m = (outcome, next) := hsame.trans hr
    cases outcome with
    | ok a =>
      rw [run_bind_ok hr, run_bind_ok hr']
      exact hgo a next hr hr'
    | error stop =>
      rw [run_bind_error hr, run_bind_error hr']
      exact Or.inl rfl
  · rw [hr] at hout hprints
    obtain rfl : outcome = .error .exhausted := hout
    rw [run_bind_error hr]
    refine Or.inr ⟨rfl, ?_⟩
    rcases hr' : run' m with ⟨outcome, next'⟩
    rw [hr'] at hprints
    cases outcome with
    | ok a =>
      rw [run_bind_ok hr']
      exact hprints.trans ((hgrows a next' hr').filter _)
    | error stop =>
      rw [run_bind_error hr']
      exact hprints

namespace Deepens

variable {run run' : Run α} {S : Stop → Prop}

theorem refl (run : Run α) : Deepens run run := fun _ => Or.inl rfl

/-- a value that the run ends in is the value of the deeper one -/
theorem ok (h : Deepens run run') {m : Machine} {a : α} (ha : (run m).1 = .ok a) : (run' m).1 = .ok a := by
  rcases h m with hsame | ⟨hout, -⟩
  · rw [hsame]
    exact ha
  · rw [hout] at ha
    cases ha

/-- a budget of nothing is deepened by every run -/
theorem exhausted (h : Restores S run) : Deepens (halt .exhausted) run := fun m => Or.inr ⟨rfl, (h m).journal.filter _⟩

theorem bind {go go' : α → Run β} (h : Deepens run run') (hgo : ∀ m a, (run m).1 = .ok a → Deepens (go a) (go' a))
    (hgrows : ∀ m a, (run' m).1 = .ok a → Restores S (go' a)) : Deepens (run >>= go) (run' >>= go') := fun m =>
  (h m).bind (fun a next hr _ => hgo m a (by rw [hr]) next) fun a next hr' => (hgrows m a (by rw [hr']) next).journal

variable {t : Tracing} {room room' : ℕ}

theorem reserve (h : room ≤ room') (depth : ℕ) : Deepens (Run.reserve room depth) (Run.reserve room' depth) := by
  by_cases hroom : depth ≤ room
  · rw [reserve_of_le hroom, reserve_of_le (hroom.trans h)]
    exact .refl _
  · rw [reserve_of_lt (not_le.1 hroom)]
    exact .exhausted (S := anything) (.reserve room' depth)

/-- what is said about a call is said with more room as well -/
theorem traceCall (h : room ≤ room') (t : Tracing) (event : ℕ → Event) :
    Deepens (Run.traceCall t room event) (Run.traceCall t room' event) := by
  unfold Run.traceCall
  split_ifs
  · have hlast := Restores.reserve (S := t.CutsOff) room' passingDepth
    refine (reserve h lineDepth).bind (fun _ _ _ => ?_) fun _ _ _ =>
      (Restores.ask _).bind fun _ depth _ => (Restores.record t _).bind fun _ _ _ => hlast
    refine (refl _).bind (fun _ depth _ => ?_) fun _ depth _ => (Restores.record t _).bind fun _ _ _ => hlast
    exact (refl _).bind (fun _ _ _ => reserve h passingDepth) fun _ _ _ => hlast
  · exact refl _

theorem inCall (hroom : room ≤ room') (h : Deepens run run') (hrestores : Restores t.CutsOff run)
    (hrestores' : Restores t.CutsOff run') (name : String) (given : ℕ) :
    Deepens (Run.inCall t room name given run) (Run.inCall t room' name given run') := by
  intro m
  by_cases hopen : openingDepth ≤ room
  · rw [inCall_opened hopen, inCall_opened (hopen.trans hroom)]
    refine (traceCall hroom t _ _).bind (fun _ next hr hr' => ?_) fun _ next hr' => ?_
    · obtain ⟨frame, rest, hframes, hended⟩ := wayOut_announced hrestores hr
      obtain ⟨frame', rest', hframes', hended'⟩ := wayOut_announced hrestores' hr'
      rw [hended, hended']
      rcases h next with hsame | ⟨hout, hprints⟩
      · rw [hsame, hframes] at hframes'
        cases hframes'
        rw [hsame]
        exact Or.inl rfl
      · refine Or.inr ⟨hout, ?_⟩
        dsimp only
        rw [prints_said t rfl, prints_said t rfl]
        exact hprints
    · obtain ⟨frame', rest', -, hended'⟩ := wayOut_announced hrestores' hr'
      rw [hended']
      exact (hrestores' next).journal.trans (List.suffix_append _ _)
  · rw [inCall_full (not_le.1 hopen)]
    exact Or.inr ⟨rfl, (hrestores'.inCall room' name given m).journal.filter _⟩

end Deepens

/-! ## Evaluation -/

/-- a run and a deeper one, both of which close what they open -/
structure Deeper (t : Tracing) (run run' : Run α) : Prop where
  deepens : Deepens run run'
  restores : Restores t.CutsOff run
  restores' : Restores t.CutsOff run'

theorem Deeper.of_restores {t : Tracing} {run : Run α} (h : Restores t.CutsOff run) : Deeper t run run :=
  ⟨.refl run, h, h⟩

/-- Going deeper is closed under the ways in which runs are put together. The values that count are those of the deeper run:
it may go on where the other one stopped. -/
theorem deeper_composes (t : Tracing) {room room' : ℕ} (hroom : room ≤ room') :
    Composes t t room room' .nothing fun _ A run run' => Yields A run' ∧ Deeper t run run' where
  pure ha := ⟨fun _ _ he => Except.ok.inj he ▸ ha, .of_restores (.pure _)⟩
  bind := by
    intro α β A B run run' go go' h hgo
    obtain ⟨hyields, hdeeper⟩ := h
    have hvalue' : ∀ m a, (run' m).1 = .ok a → Deeper t (go a) (go' a) := fun m a ha => (hgo a (hyields m a ha)).2
    have hvalue : ∀ m a, (run m).1 = .ok a → Deeper t (go a) (go' a) := fun m a ha => hvalue' m a (hdeeper.deepens.ok ha)
    refine ⟨hyields.bind fun a ha => (hgo a ha).1, ?_, ?_, ?_⟩
    · exact hdeeper.deepens.bind (fun m a ha => (hvalue m a ha).deepens) fun m a ha => (hvalue' m a ha).restores'
    · exact hdeeper.restores.bind fun m a ha => (hvalue m a ha).restores
    · exact hdeeper.restores'.bind fun m a ha => (hvalue' m a ha).restores'
  halt _ := ⟨fun _ _ he => (nomatch he), .of_restores (.halt _)⟩
  print _ := ⟨fun _ _ _ => trivial, .of_restores (.emit _)⟩
  trace _ _ := ⟨fun _ _ _ => trivial, .of_restores (.trace _ _ _)⟩
  fetch _ := ⟨fun _ _ _ => trivial, .of_restores (.fetch _ _)⟩
  assign _ _ := ⟨fun _ _ _ => trivial, .of_restores (.assign _ _)⟩
  call := by
    intro name given run run' _ _ h
    obtain ⟨hyields, hdeeper⟩ := h
    exact ⟨hyields.inCall t room' name given, hdeeper.deepens.inCall hroom hdeeper.restores hdeeper.restores' name given,
      hdeeper.restores.inCall room name given, hdeeper.restores'.inCall room' name given⟩

/-- **One step goes deeper where its parts do**, wherever their evaluation is cut off, and in more room. -/
theorem step_deeper (t : Tracing) {room room' : ℕ} (hroom : room ≤ room') {eval eval' : Node → Run Value}
    (he : ∀ node, Deeper t (eval node) (eval' node)) (node : Node) :
    Deeper t (step t room eval node) (step t room' eval' node) :=
  ((deeper_composes t hroom).step Invariant.nothing_inductive (fun node _ => ⟨fun _ _ _ => trivial, he node⟩) trivial).2

/-- **Evaluation with a larger budget goes deeper.** -/
theorem evaluate_deeper (t : Tracing) {budget larger : ℕ} (h : budget ≤ larger) (node : Node) :
    Deeper t (evaluate t budget node) (evaluate t larger node) := by
  induction budget generalizing larger node with
  | zero =>
    have hrestores : Restores t.CutsOff (evaluate t larger node) := evaluate_restores t larger node
    exact ⟨.exhausted hrestores, .halt _, hrestores⟩
  | succ budget ih =>
    cases larger with
    | zero => exact absurd h (Nat.not_succ_le_zero budget)
    | succ larger =>
      have hrest := Nat.succ_le_succ_iff.1 h
      exact step_deeper t hrest (fun node => ih hrest node) node

end LetScript.Evaluation
