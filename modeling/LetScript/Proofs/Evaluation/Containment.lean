/-
Runs that stay inside an invariant and close what they open.

Where all lines of an invariant can be traced (`Invariant.Traceable`), a trace never stops a run but at a number that is too
long, or for lack of room. So a call can be announced where there is room for that, and closing its scope never fails. Then a run
on a scope where all that is bound has the invariant ends in an outcome that has it, all that is bound afterwards has it, and
the scopes are as they were, unless the run was cut off for lack of room (`Confined`): `evaluate_confined`.

`Contained` says this of two runs that do the same. It is closed under the ways in which runs are put together
(`contained_composes`).
-/
import LetScript.Proofs.Evaluation.Texts
import LetScript.Proofs.Evaluation.Throughout

namespace LetScript.Evaluation

open Run

variable {α β : Type} {I : Invariant}

/-- all lines can be traced, and a number that is too long may stop a run -/
structure Invariant.Traceable (I : Invariant) : Prop where
  writable : ∀ {line}, I.line line → Writable line
  tooLong : I.stop (.abort .numeralTooLong)

/-- how a run ends that stays inside the invariant -/
structure Confined (I : Invariant) (A : α → Prop) (m : Machine) (ended : Except Stop α × Machine) : Prop where
  meets : I.Meets A ended.1
  holds : Holds I.node ended.2.scope
  leaves : Leaves (· = .exhausted) m ended

/-- where all that is bound has the invariant, two runs do the same and stay inside -/
def Contained (I : Invariant) (α : Type) (A : α → Prop) (run run' : Run α) : Prop :=
  ∀ m, Holds I.node m.scope → run' m = run m ∧ Confined I A m (run m)

/-! ## Trace lines that are taken -/

/-- the names of calls that can be traced have an encoding -/
theorem Invariant.Traceable.named (hI : I.Traceable) {name : String} {given : ℕ} (h : I.Announces name given) :
    Text.isEncodable name = true :=
  (Text.isEncodable_called name given 0).symm.trans (hI.writable (h.called 0))

namespace Contained

variable {A : α → Prop} {B : β → Prop} {run run' : Run α}

/-- a run that ends at once, without touching the machine -/
theorem ofStill (h : ∀ m, Holds I.node m.scope → (run m).2 = m ∧ I.Meets A (run m).1) : Contained I α A run run := by
  intro m hm
  obtain ⟨hstill, hmeets⟩ := h m hm
  exact ⟨rfl, hmeets, hstill.symm ▸ hm, Or.inl (hstill.symm ▸ .refl m)⟩

theorem bind {go go' : α → Run β} (h : Contained I α A run run') (hgo : ∀ a, A a → Contained I β B (go a) (go' a)) :
    Contained I β B (run >>= go) (run' >>= go') := by
  intro m hm
  obtain ⟨hsame, hmeets, hholds, hleaves⟩ := h m hm
  rcases hr : run m with ⟨outcome, next⟩
  rw [hr] at hsame hmeets hholds hleaves
  cases outcome with
  | ok a =>
    obtain ⟨hsame', hmeets', hholds', hleaves'⟩ := hgo a hmeets next hholds
    rw [run_bind_ok hr, run_bind_ok hsame]
    exact ⟨hsame', hmeets', hholds', .trans hleaves.kept hleaves'⟩
  | error stop =>
    rw [run_bind_error hr, run_bind_error hsame]
    exact ⟨rfl, hmeets, hholds, hleaves.error⟩

theorem emit (event : Event) : Contained I Unit anything (Run.emit event) (Run.emit event) :=
  fun m hm => ⟨rfl, trivial, hm, Restores.emit event m⟩

theorem trace (hI : I.Traceable) {line : Unit → Except Abort String} (h : I.line (line ())) (tracing : Tracing)
    (threshold : ℕ) : Contained I Unit anything (Run.trace tracing threshold line) (Run.trace tracing threshold line) := by
  unfold Run.trace
  split_ifs
  · have hwritable := hI.writable h
    cases hl : line () with
    | ok text =>
      rw [hl] at hwritable
      change Contained I Unit anything (Run.record tracing (.noted text)) (Run.record tracing (.noted text))
      have htext : Text.isEncodable (Event.noted text).line = true := hwritable
      rw [record_taken fun _ => htext]
      exact emit _
    | error abort =>
      rw [hl] at hwritable
      obtain rfl : abort = .numeralTooLong := hwritable
      exact ofStill fun m _ => ⟨rfl, hI.tooLong⟩
  · exact ofStill fun m _ => ⟨rfl, trivial⟩

theorem fetch {name : Json} {position : Int} (h : I.Fetches name position) :
    Contained I Node I.node (Run.fetch name position) (Run.fetch name position) := by
  refine ofStill fun m hm => ⟨rfl, ?_⟩
  exact (Stays.fetch h m hm).1

theorem assign {name : Json} {node : Node} (h : I.Binds name) (hnode : I.node node) :
    Contained I Unit anything (Run.assign name node) (Run.assign name node) := by
  intro m hm
  obtain ⟨hmeets, hholds⟩ := Stays.assign h hnode m hm
  exact ⟨rfl, hmeets, hholds, Restores.assign name node m⟩

/-- a call that can be traced is contained when what it runs is -/
theorem inCall (hI : I.Traceable) (hexhausted : I.stop .exhausted) {A : Value → Prop} {run run' : Run Value} {name : String}
    {given : ℕ} (hname : I.Announces name given) (h : Contained I Value A run run') (tracing : Tracing) (room : ℕ) :
    Contained I Value A (Run.inCall tracing room name given run) (Run.inCall tracing room name given run') := by
  intro m hm
  rcases inCall_cases tracing room name given m with ⟨-, hfull⟩ | ⟨stop, events, -, hstop, -, hcut⟩ | ⟨htakes, hcall⟩
  · rw [hfull, hfull]
    exact ⟨rfl, hexhausted, hm, Or.inl (.refl m)⟩
  · obtain rfl := hstop (hI.named hname)
    rw [hcut, hcut]
    exact ⟨rfl, hexhausted, hm.push, Or.inr ⟨_, rfl, rfl, ⟨_, rfl, .refl _⟩, List.suffix_append _ _⟩⟩
  · let inside : Machine := ⟨m.scope.push, tracing.said (.called name given (m.scope.depth + 1)) ++ m.journal⟩
    obtain ⟨hsame, hmeets, hholds, hleaves⟩ := h inside hm.push
    rcases hrun : run inside with ⟨outcome, inner⟩
    rw [hrun] at hsame hmeets hholds hleaves
    obtain ⟨frame, rest, hframes, hreturns⟩ := hleaves.returns fun depth => tracing.said (.returned name depth)
    rw [hcall, hcall, andFinally_taken htakes hrun hframes, andFinally_taken htakes hsame hframes]
    exact ⟨rfl, hmeets, hholds.outer hframes, hreturns.leaves⟩

end Contained

/-- being contained is closed under the ways in which runs are put together -/
theorem contained_composes (hI : I.Traceable) (tracing : Tracing) (room : ℕ) :
    Composes tracing tracing room room I (Contained I) where
  pure ha := .ofStill fun _ _ => ⟨rfl, ha⟩
  bind h hgo := h.bind hgo
  halt hstop := .ofStill fun _ _ => ⟨rfl, hstop⟩
  print _ := .emit _
  trace _ hline := .trace hI hline _ _
  fetch hname := .fetch hname
  assign hname hnode := .assign hname hnode
  call hexhausted hname hrun := .inCall hI hexhausted hname hrun tracing room

/-- **Evaluation stays inside an invariant whose lines can be traced.** -/
theorem evaluate_confined (hI : I.Traceable) (hi : I.Inductive) (tracing : Tracing) (budget : ℕ) {node : Node}
    (hnode : I.node node) (m : Machine) (hm : Holds I.node m.scope) :
    Confined I I.value m (evaluate tracing budget node m) :=
  (Composes.evaluate (contained_composes hI tracing) hi budget hnode m hm).2

end LetScript.Evaluation
