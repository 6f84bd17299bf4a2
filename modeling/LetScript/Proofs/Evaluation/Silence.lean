/-
Runs with and without tracing.

A traced run and a silent one, of level zero, go side by side: they bind the same and print the same, and the trace has more
lines (`Mirrors`). They part where a trace line cannot be put together, is not taken, or has no room to be passed on: there the
traced run stops (`Parted`), and what is around it passes that on. So either both end alike, or the traced run has stopped:
`evaluate_beside`.
-/
import LetScript.Proofs.Evaluation.Frames

namespace LetScript.Evaluation

open Run

variable {α β : Type}

/-! ## Machines side by side -/

/-- what was printed -/
def prints (events : List Event) : List Event := events.filter fun event => !event.isTraced

theorem prints_cons_traced {event : Event} (h : event.isTraced = true) (events : List Event) :
    prints (event :: events) = prints events := by
  simp only [prints, List.filter_cons, h, Bool.not_true, Bool.false_eq_true, if_false]

/-- the two machines bind the same and have printed the same -/
structure Mirrors (m m' : Machine) : Prop where
  scope : m'.scope = m.scope
  prints : prints m'.journal = prints m.journal

/-- a stop that a call may come to in being announced, or on its way out -/
def Breaks (stop : Stop) : Prop := stop = .exhausted ∨ stop = .abort .unencodable ∨ stop = .abort .noOpenScope

/-- a stop that may be one of the traced run only -/
def Parted (t : Tracing) (stop : Stop) : Prop := (2 ≤ t.level ∧ ∃ abort, stop = .abort abort) ∨ 1 ≤ t.level ∧ Breaks stop

/-- a traced run and a silent one end alike, or the traced one has stopped -/
def Beside (t : Tracing) (run run' : Run α) : Prop :=
  ∀ m m', Mirrors m m' →
    (∃ outcome last last', run m = (outcome, last) ∧ run' m' = (outcome, last') ∧ Mirrors last last') ∨
      ∃ stop last, run m = (.error stop, last) ∧ Parted t stop

namespace Beside

variable {t : Tracing} {run run' : Run α}

/-- a run that only asks for the scope -/
theorem ofStill (outcome : Scope → Except Stop α) (h : ∀ m, run m = (outcome m.scope, m)) : Beside t run run := by
  intro m m' hm
  refine Or.inl ⟨outcome m.scope, m, m', h m, ?_, hm⟩
  rw [h m', hm.scope]

theorem bind {go go' : α → Run β} (h : Beside t run run') (hgo : ∀ m a, (run m).1 = .ok a → Beside t (go a) (go' a)) :
    Beside t (run >>= go) (run' >>= go') := by
  intro m m' hm
  rcases h m m' hm with ⟨outcome, last, last', hr, hr', hlast⟩ | ⟨stop, last, hr, hparted⟩
  · cases outcome with
    | ok a =>
      rw [run_bind_ok hr, run_bind_ok hr']
      exact hgo m a (by rw [hr]) last last' hlast
    | error stop => exact Or.inl ⟨.error stop, last, last', run_bind_error hr, run_bind_error hr', hlast⟩
  · exact Or.inr ⟨stop, last, run_bind_error hr, hparted⟩

theorem print (line : String) : Beside t (emit (.printed line)) (emit (.printed line)) := by
  intro m m' hm
  refine Or.inl ⟨.ok (), _, _, rfl, rfl, hm.scope, ?_⟩
  have hprinted : ∀ events, Evaluation.prints (.printed line :: events) = .printed line :: Evaluation.prints events :=
    fun _ => rfl
  rw [hprinted, hprinted, hm.prints]

theorem assign (name : Json) (node : Node) : Beside t (Run.assign name node) (Run.assign name node) := by
  intro m m' hm
  unfold Run.assign
  cases Name.ofJson? name with
  | none => exact Or.inl ⟨_, m, m', rfl, rfl, hm⟩
  | some bound =>
    refine Or.inl ⟨.ok (), _, _, rfl, rfl, ?_, hm.prints⟩
    dsimp only
    rw [hm.scope]

theorem enter : Beside t Run.enter Run.enter := by
  intro m m' hm
  refine Or.inl ⟨.ok (), _, _, rfl, rfl, ?_, hm.prints⟩
  dsimp only
  rw [hm.scope]

theorem leave : Beside t Run.leave Run.leave := by
  intro m m' hm
  unfold Run.leave
  rw [hm.scope]
  cases m.scope.pop? with
  | none => exact Or.inl ⟨_, m, m', rfl, rfl, hm⟩
  | some outer => exact Or.inl ⟨.ok (), _, _, rfl, rfl, rfl, hm.prints⟩

/-- a line is added to the trace, or is not taken -/
theorem record (event : Event) (htraced : event.isTraced = true) (hparted : Parted t (.abort .unencodable)) :
    Beside t (Run.record t event) (Pure.pure ()) := by
  intro m m' hm
  unfold Run.record
  split_ifs
  · exact Or.inr ⟨.abort .unencodable, m, rfl, hparted⟩
  · refine Or.inl ⟨.ok (), _, m', rfl, rfl, hm.scope, ?_⟩
    rw [prints_cons_traced htraced, hm.prints]

theorem trace {t' : Tracing} (ht' : t'.level = 0) {threshold : ℕ} (hthreshold : 2 ≤ threshold)
    (line : Unit → Except Abort String) : Beside t (Run.trace t threshold line) (Run.trace t' threshold line) := by
  have hsilent : Run.trace t' threshold line = Pure.pure () := if_neg (by omega)
  rw [hsilent]
  unfold Run.trace
  by_cases hlevel : threshold ≤ t.level
  · rw [if_pos hlevel]
    have hparted : ∀ abort, Parted t (.abort abort) := fun abort => Or.inl ⟨hthreshold.trans hlevel, abort, rfl⟩
    cases line () with
    | ok text =>
      have hrecord : Beside t (Run.record t (.noted text)) (Pure.pure ()) := record _ rfl (hparted .unencodable)
      exact hrecord
    | error abort => exact fun m _ _ => Or.inr ⟨.abort abort, m, rfl, hparted abort⟩
  · rw [if_neg hlevel]
    exact ofStill (fun _ => .ok ()) fun _ => rfl

/-- a traced run goes on where there is room -/
theorem reserve (room depth : ℕ) (hparted : Parted t .exhausted) : Beside t (Run.reserve room depth) (Pure.pure ()) := by
  intro m m' hm
  by_cases hroom : depth ≤ room
  · rw [reserve_of_le hroom]
    exact Or.inl ⟨.ok (), m, m', rfl, rfl, hm⟩
  · rw [reserve_of_lt (not_le.1 hroom)]
    exact Or.inr ⟨.exhausted, m, rfl, hparted⟩

theorem traceCall {t' : Tracing} (ht' : t'.level = 0) (room : ℕ) {event : ℕ → Event}
    (htraced : ∀ depth, (event depth).isTraced = true) :
    Beside t (Run.traceCall t room event) (Run.traceCall t' room event) := by
  have hsilent : Run.traceCall t' room event = (Pure.pure () >>= fun _ => Pure.pure () >>= fun _ => Pure.pure ()) :=
    if_neg (by omega)
  rw [hsilent]
  unfold Run.traceCall
  by_cases hlevel : 1 ≤ t.level
  · rw [if_pos hlevel]
    have hparted : ∀ stop, Breaks stop → Parted t stop := fun _ hbreaks => Or.inr ⟨hlevel, hbreaks⟩
    refine (reserve room _ (hparted _ (Or.inl rfl))).bind fun _ _ _ m m' hm => ?_
    have hrecord := record (event m.scope.depth) (htraced _) (hparted _ (Or.inr (Or.inl rfl)))
    exact hrecord.bind (fun _ _ _ => reserve room _ (hparted _ (Or.inl rfl))) m m' hm
  · rw [if_neg hlevel]
    exact ofStill (fun _ => .ok ()) fun _ => rfl

/-- what is said about a call is added to the trace, or a run stops at that -/
theorem traceCall_ends (room : ℕ) (event : ℕ → Event) (m : Machine) :
    (Run.traceCall t room event m).1 = .ok () ∨ ∃ stop, (Run.traceCall t room event m).1 = .error stop ∧ Breaks stop := by
  by_cases htakes : t.Takes room (event m.scope.depth).line
  · rw [traceCall_taken event m htakes]
    exact Or.inl rfl
  · obtain ⟨stop, events, ⟨-, hstop⟩, -, -, hcut⟩ := traceCall_cut event m htakes
    rw [hcut]
    exact Or.inr ⟨stop, rfl, hstop.imp id fun hrefused => Or.inl hrefused.2⟩

/-- what is done afterwards is done in both; a run that has stopped stays one that has -/
theorem andFinally {after after' : Run Unit} (h : Beside t run run') (hafter : Beside t after after')
    (hends : ∀ m, (after m).1 = .ok () ∨ ∃ stop, (after m).1 = .error stop ∧ Breaks stop) :
    Beside t (Run.andFinally run after) (Run.andFinally run' after') := by
  intro m m' hm
  rcases h m m' hm with ⟨outcome, inner, inner', hr, hr', hinner⟩ | ⟨stop, inner, hr, hparted⟩
  · rcases hafter inner inner' hinner with ⟨ended, last, last', ha, ha', hlast⟩ | ⟨stop, last, ha, hparted⟩
    · exact Or.inl ⟨_, last, last', andFinally_cases hr ha, andFinally_cases hr' ha', hlast⟩
    · exact Or.inr ⟨stop, last, andFinally_cases hr ha, hparted⟩
  · refine Or.inr ?_
    have hlevel : 1 ≤ t.level := hparted.elim (fun htwo => le_trans (by decide) htwo.1) And.left
    rcases ha : after inner with ⟨ended, last⟩
    have hend := hends inner
    rw [ha] at hend
    rcases hend with rfl | ⟨stop', rfl, hbreaks⟩
    · exact ⟨stop, last, andFinally_cases hr ha, hparted⟩
    · exact ⟨stop', last, andFinally_cases hr ha, Or.inr ⟨hlevel, hbreaks⟩⟩

theorem inCall {t' : Tracing} (ht' : t'.level = 0) (room : ℕ) (h : Beside t run run') (name : String) (given : ℕ) :
    Beside t (Run.inCall t room name given run) (Run.inCall t' room name given run') := by
  have hroom : Beside t (Run.reserve room openingDepth) (Run.reserve room openingDepth) := by
    unfold Run.reserve
    split_ifs
    · exact ofStill (fun _ => .ok ()) fun _ => rfl
    · exact ofStill (fun _ => .error .exhausted) fun _ => rfl
  have hreturned : Beside t (Run.leave >>= fun _ => Run.traceCall t room (.returned name))
      (Run.leave >>= fun _ => Run.traceCall t' room (.returned name)) :=
    leave.bind fun _ _ _ => traceCall ht' room fun _ => rfl
  refine hroom.bind fun _ _ _ => enter.bind fun _ _ _ => (traceCall ht' room fun _ => rfl).bind fun _ _ _ =>
    h.andFinally hreturned fun m => ?_
  cases hframes : m.scope.frames with
  | nil =>
    rw [run_bind_error (leave_of_nil hframes)]
    exact Or.inr ⟨.abort .noOpenScope, rfl, Or.inr (Or.inr rfl)⟩
  | cons frame rest =>
    rw [run_bind_ok (leave_of_frames hframes)]
    exact traceCall_ends room _ _

end Beside

/-! ## Evaluation -/

theorem beside_closed (t t' : Tracing) (ht' : t'.level = 0) (room : ℕ) :
    Closed t t' room room fun _ run run' => Beside t run run' where
  pure a := .ofStill (fun _ => .ok a) fun _ => rfl
  bind h hgo := h.bind hgo
  halt stop := .ofStill (fun _ => .error stop) fun _ => rfl
  print line := .print line
  trace line hthreshold := .trace ht' hthreshold line
  fetch name position := .ofStill (fun scope => scope.fetch name position) fun _ => rfl
  assign name node := .assign name node
  call name given _ _ h := h.inCall ht' room name given

/-- **A traced run and a silent one end alike**, with the same bindings and prints, or the traced one has stopped. -/
theorem evaluate_beside (t t' : Tracing) (ht' : t'.level = 0) (budget : ℕ) (node : Node) :
    Beside t (evaluate t budget node) (evaluate t' budget node) :=
  Closed.evaluate (beside_closed t t' ht') budget node

end LetScript.Evaluation
