/-
The budget of a session.

A larger budget changes nothing but how far a run gets before its budget is used up: `larger_budget`. So a session on which no
program uses up its budget shows what it would show with any larger one, program by program: `executeAll_larger`.
-/
import LetScript.Proofs.Evaluation.Budget
import LetScript.Proofs.Session.Transparency

namespace LetScript

open Evaluation

/-! ## One node -/

/-- the text of the lines that were printed -/
def printedText (m : Machine) : String := joinLines ((prints m.journal).reverse.map Event.line)

/-- more lines make a longer text -/
theorem printedText_of_suffix {m m' : Machine} (h : prints m.journal <:+ prints m'.journal) :
    ∃ more, printedText m' = printedText m ++ more := by
  obtain ⟨later, hlater⟩ := h
  refine ⟨joinLines (later.reverse.map Event.line), ?_⟩
  simp only [printedText, joinLines, ← hlater, List.reverse_append, List.map_append, String.join_append]

/-- **A larger budget changes nothing but exhaustion.** However and on whatever machine a node is evaluated: where the smaller
budget is not used up, the larger one gives the same outcome and leaves the same machine, with what is bound, printed and traced;
where it is, the text printed with the larger one goes on from the text printed with the smaller one. -/
theorem larger_budget (tracing : Tracing) (node : Node) (m : Machine) {budget larger : ℕ} (h : budget ≤ larger) :
    ((evaluate tracing budget node m).1 ≠ .error .exhausted →
        evaluate tracing larger node m = evaluate tracing budget node m) ∧
      ((evaluate tracing budget node m).1 = .error .exhausted →
        ∃ more, printedText (evaluate tracing larger node m).2 = printedText (evaluate tracing budget node m).2 ++ more) := by
  rcases (evaluate_deeper tracing h node).deepens m with hsame | ⟨hout, hprints⟩
  · refine ⟨fun _ => hsame, fun _ => ⟨"", ?_⟩⟩
    rw [hsame, String.append_empty]
  · exact ⟨fun hfinite => absurd hout hfinite, fun _ => printedText_of_suffix hprints⟩

/-- prints a text, then one from a branch inside a branch -/
def printsDeeper : Node :=
  let a : Node := .literal 0 (.text "a")
  let b : Node := .literal 0 (.text "b")
  .statements 0 (.text "")
    [.call 0 (.text "print") [a], .call 0 (.text "print") [.conditional 0 a (.conditional 0 a b a) a]]

theorem larger_budget_printsDeeper :
    let ended := fun budget => evaluate 1 budget printsDeeper ⟨.empty, []⟩
    (3 ≤ 5 ∧ (ended 3).1 = .error .exhausted ∧ printedText (ended 3).2 = "a\n" ∧ printedText (ended 5).2 = "a\nb\n" ∧
        ∃ more, printedText (ended 5).2 = printedText (ended 3).2 ++ more) ∧
      5 ≤ 9 ∧ (ended 5).1 ≠ .error .exhausted ∧ ended 9 = ended 5 := by
  intro ended
  have hthree : (ended 3).1 = .error .exhausted := rfl
  have hfive : (ended 5).1 = .ok (.list [.text "a", .text "b"]) := rfl
  have hfinite : (ended 5).1 ≠ .error .exhausted := by
    rw [hfive]
    exact nofun
  refine ⟨⟨by decide, hthree, by decide, by decide, ?_⟩, by decide, hfinite, ?_⟩
  · exact (larger_budget 1 printsDeeper ⟨.empty, []⟩ (by decide)).2 hthree
  · exact (larger_budget 1 printsDeeper ⟨.empty, []⟩ (by decide)).1 hfinite

/-! ## Programs one after the other -/

namespace Session

/-- the session with another budget -/
def withBudget (session : Session) (budget : ℕ) : Session := { session with budget := budget }

/-- a result of a session, of one with another budget -/
def Result.withBudget (result : Result) (budget : ℕ) : Result := (result.1, result.2.1, result.2.2.withBudget budget)

/-- a program that does not use up the budget does the same with a larger one -/
theorem execute_larger (session : Session) {larger : ℕ} (h : session.budget ≤ larger) (program : Program)
    (hfinite : (session.execute program).1 ≠ .error (.stop .exhausted)) :
    (session.withBudget larger).execute program = Result.withBudget (session.execute program) larger := by
  have hrun : ∀ node, (session.execute (.tree node)).1 ≠ .error (.stop .exhausted) →
      (session.withBudget larger).execute (.tree node) = Result.withBudget (session.execute (.tree node)) larger := by
    intro node hfinite
    rcases hr : evaluate session.tracing session.budget node ⟨session.scope, []⟩ with ⟨outcome, last⟩
    have hended := session.execute_tree hr
    have hsame : evaluate session.tracing larger node ⟨session.scope, []⟩ = (outcome, last) := by
      rcases (evaluate_deeper session.tracing h node).deepens ⟨session.scope, []⟩ with hsame | ⟨hout, -⟩
      · exact hsame.trans hr
      · rw [hr] at hout
        rw [hended, show outcome = .error .exhausted from hout] at hfinite
        exact absurd rfl hfinite
    rw [hended]
    exact (session.withBudget larger).execute_tree hsame
  cases program with
  | tree node => exact hrun node hfinite
  | source text =>
    simp only [execute] at hfinite ⊢
    cases hparse : Parsing.parseSource text with
    | ok node =>
      rw [runSource_of_ok _ hparse] at hfinite ⊢
      rw [runSource_of_ok _ hparse]
      exact hrun node hfinite
    | error error =>
      cases error with
      | complaint complaint =>
        simp only [runSource, hparse]
        rfl
      | unreadable token =>
        simp only [runSource, hparse]
        rfl

/-- **A session whose budget is large enough shows what it shows with any larger one.** -/
theorem executeAll_larger (session : Session) {larger : ℕ} (h : session.budget ≤ larger) (programs : List Program)
    (hfinite : ∀ result ∈ session.executeAll programs, result.1 ≠ .error (.stop .exhausted)) :
    (session.withBudget larger).executeAll programs =
      (session.executeAll programs).map fun result => Result.withBudget result larger := by
  induction programs generalizing session with
  | nil => rfl
  | cons program rest ih =>
    simp only [executeAll, List.forall_mem_cons] at hfinite
    have hfirst := execute_larger session h program hfinite.1
    obtain ⟨scope, hnext⟩ := execute_settings session program
    have hrest := ih (session.execute program).2.2 (by rw [hnext]; exact h) hfinite.2
    simp only [executeAll, List.map_cons, hfirst]
    exact congrArg (List.cons _) hrest

end Session

end LetScript
