/-
Tracing to a file changes nothing, with one exception, as long as the budget lasts.

Source texts run on a session that traces to a file and on the same session without tracing. Run by run they have the same
outcome, print the same and bind the same (`Agrees`), as long as no value is traced that holds a number too long to write.
Such a value is no error of the program, but tracing it is one: the traced run stops there, and from then on the two
sessions may differ. Levels below two trace no values. The lines of a trace need room as well, so where calls are traced a run
may use up the budget that lasts without tracing. Nothing else sets the two apart: `tracing_transparent`.
-/
import LetScript.Proofs.Session.Safety
import LetScript.Proofs.Evaluation.Silence

namespace LetScript

open Evaluation Evaluation.Run Parsing

/-! ## What is shown -/

/-- lines without trace lines do not depend on these -/
theorem linesOf_prints {test : Event → Bool} (h : ∀ event, test event = true → event.isTraced = false) (events : List Event) :
    linesOf test (prints events) = linesOf test events := by
  have htest : (fun event => test event && !event.isTraced) = test := by
    funext event
    cases ht : test event with
    | true => simp only [h event ht, Bool.not_false, Bool.and_self]
    | false => rfl
  simp only [linesOf, prints, List.filter_filter, htest]

/-- machines that have printed the same show the same lines, trace lines apart -/
theorem linesOf_mirrors {m m' : Machine} (hm : Mirrors m m') {test : Event → Bool}
    (h : ∀ event, test event = true → event.isTraced = false) :
    linesOf test m'.journal.reverse = linesOf test m.journal.reverse := by
  have hreverse : ∀ events, prints events.reverse = (prints events).reverse := fun _ => List.filter_reverse ..
  rw [← linesOf_prints h, ← linesOf_prints h m.journal.reverse, hreverse, hreverse, hm.prints]

namespace Session

/-! ## One source text -/

/-- two results have the same outcome, the same prints, and leave the same bindings -/
structure Agrees (traced silent : Result) : Prop where
  outcome : traced.1 = silent.1
  console : traced.2.1.console = silent.2.1.console
  stream : traced.2.1.stream = silent.2.1.stream
  scope : traced.2.2.scope = silent.2.2.scope

/-- the traced run stopped at a number that is too long to write, which only a level that traces values can do -/
def TooLongToTrace (level : ℕ) (traced : Result) : Prop :=
  2 ≤ level ∧ traced.1 = .error (.stop (.abort .numeralTooLong))

/-- the traced run used up its budget, which a level that traces calls may do in announcing one -/
def UsedUp (level : ℕ) (traced : Result) : Prop := 1 ≤ level ∧ traced.1 = .error (.stop .exhausted)

/-- the traced run came to an end that may be its own -/
def MayPart (level : ℕ) (traced : Result) : Prop := TooLongToTrace level traced ∨ UsedUp level traced

/-- a session without tracing -/
def silent (session : Session) : Session := { session with level := 0 }

theorem runSource_beside {session : Session} (h : Tidy session.scope) (hfile : session.channels.tracesToFile = true)
    (source : String) :
    Agrees (session.runSource source) (session.silent.runSource source) ∨
      MayPart session.level (session.runSource source) := by
  rcases parseSource_cases source with ⟨tree, hparse, htree⟩ | ⟨complaint, hparse⟩ | ⟨token, hparse, -, -⟩
  · simp only [runSource, hparse, run]
    obtain ⟨-, hmeets, -⟩ := evaluate_safe session.tracing (halt .exhausted) session.budget htree ⟨session.scope, []⟩ h
    have hbeside := evaluate_beside session.tracing session.silent.tracing rfl session.budget tree
      ⟨session.scope, []⟩ ⟨session.silent.scope, []⟩ ⟨rfl, rfl⟩
    rcases hbeside with ⟨outcome, last, last', hr, hr', hlast⟩ | ⟨stop, last, hr, hparted⟩
    · change evaluate session.silent.tracing session.silent.budget tree ⟨session.silent.scope, []⟩ = (outcome, last') at hr'
      rw [hr, hr']
      have hconsole : ∀ event, session.channels.onConsole event = true → event.isTraced = false := by
        intro event he
        cases ht : event.isTraced with
        | false => rfl
        | true => simp only [Channels.onConsole, ht, hfile, if_true, Bool.not_true, Bool.false_eq_true] at he
      have hstream : ∀ event, session.channels.onStream event = true → event.isTraced = false := by
        intro event he
        simp only [Channels.onStream, Bool.and_eq_true, Bool.not_eq_true'] at he
        exact he.1
      exact Or.inl ⟨rfl, (linesOf_mirrors hlast hconsole).symm, (linesOf_mirrors hlast hstream).symm, hlast.scope.symm⟩
    · rw [hr] at hmeets
      have hpermitted : stop.Permitted := hmeets
      rw [hr]
      -- of the stops at which a traced run may part, source texts come to two only
      rcases hparted with ⟨hlevel, abort, rfl⟩ | ⟨hlevel, rfl | rfl | rfl⟩
      · obtain rfl : abort = .numeralTooLong := hpermitted
        exact Or.inr (Or.inl ⟨hlevel, rfl⟩)
      · exact Or.inr (Or.inr ⟨hlevel, rfl⟩)
      · cases (show Abort.unencodable = .numeralTooLong from hpermitted)
      · cases (show Abort.noOpenScope = .numeralTooLong from hpermitted)
  · simp only [runSource, hparse]
    exact Or.inl ⟨rfl, rfl, rfl, rfl⟩
  · simp only [runSource, hparse]
    exact Or.inl ⟨rfl, rfl, rfl, rfl⟩

/-! ## Source texts one after the other -/

/-- two lists of results agree one by one, up to the first two that do not, where the two sessions part -/
inductive AgreeUntil (parts : Result → Prop) : List Result → List Result → Prop where
  | nil : AgreeUntil parts [] []
  | cons {first first' : Result} {rest rest' : List Result} (agrees : Agrees first first')
      (others : AgreeUntil parts rest rest') : AgreeUntil parts (first :: rest) (first' :: rest')
  | parted {first first' : Result} {rest rest' : List Result} (parted : parts first) (differ : ¬ Agrees first first') :
      AgreeUntil parts (first :: rest) (first' :: rest')

/-- what holds of every source text, run on whatever the ones before it left -/
theorem executeAll_beside {session : Session} (h : Tidy session.scope) (hfile : session.channels.tracesToFile = true)
    (sources : List String) :
    AgreeUntil (MayPart session.level) (session.executeAll (sources.map .source))
      (session.silent.executeAll (sources.map .source)) := by
  induction sources generalizing session with
  | nil => exact .nil
  | cons source rest ih =>
    by_cases hagrees : Agrees (session.runSource source) (session.silent.runSource source)
    · refine .cons hagrees ?_
      obtain ⟨scope, hnext⟩ := runSource_settings session source
      obtain ⟨scope', hnext'⟩ := runSource_settings session.silent source
      have hscope : scope = scope' := by
        have hsame := hagrees.scope
        rw [hnext, hnext'] at hsame
        exact hsame
      have htidy := (runSource_proper h source).2
      simp only [execute, hnext, hnext', ← hscope] at htidy ⊢
      exact @ih { session with scope := scope } htidy hfile
    · exact .parted ((runSource_beside h hfile source).resolve_left hagrees) hagrees

/-- **Tracing to a file is transparent up to a number that is too long to trace.** Source texts run one after the other, with
tracing at some level and without, agree run by run, until two do not because the traced one, at level two or more, stopped where
it could not write a number, or has used up its budget. -/
theorem tracing_transparent (settings : Session) (printsApart : Bool) (level : ℕ) (sources : List String) :
    let session : Session := { settings with scope := .empty, channels := ⟨printsApart, true⟩, level := level }
    AgreeUntil (MayPart level) (session.executeAll (sources.map .source))
      (session.silent.executeAll (sources.map .source)) := by
  intro session
  have htidy : Tidy session.scope := tidy_empty
  exact executeAll_beside htidy rfl sources

/-- a square of squares: more digits than are written -/
def longSource : String := "let s := \\ x -> x * x; let d := s s s s s s s s s 9999999999"

/-- whether a run stopped at a number that is too long -/
def isTooLong : Except Failure Value → Bool
  | .error (.stop (.abort abort)) => abort = .numeralTooLong
  | _ => false

theorem eq_of_isTooLong {outcome : Except Failure Value} (h : isTooLong outcome = true) :
    outcome = .error (.stop (.abort .numeralTooLong)) := by
  unfold isTooLong at h
  split at h
  · rw [of_decide_eq_true h]
  · cases h

/-- **A value that is too long to trace stops the traced run only.** -/
theorem traced_run_stops :
    ((start 2 plainChannels).runSource longSource).1 = .error (.stop (.abort .numeralTooLong)) ∧
      ((start 2 plainChannels).silent.runSource longSource).1.isOk = true ∧
      ¬ Agrees ((start 2 plainChannels).runSource longSource) ((start 2 plainChannels).silent.runSource longSource) := by
  have hruns : isTooLong ((start 2 plainChannels).runSource longSource).1 = true ∧
      ((start 2 plainChannels).silent.runSource longSource).1.isOk = true := by
    decide +kernel
  have hstops := eq_of_isTooLong hruns.1
  refine ⟨hstops, hruns.2, fun hagrees => ?_⟩
  have hvalue := hruns.2
  rw [← hagrees.outcome, hstops] at hvalue
  cases hvalue

end Session

end LetScript
