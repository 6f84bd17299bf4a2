/-
Two source texts run as one, and run one after the other.

Joined by a semicolon on a line of its own, two texts do what they do one after the other: the values of both in one list, the
lines of both, and the bindings of both (`Chained`); where the first fails, the second is not run. The only difference is that
the nodes of the second text stand further on.

To say which positions these are, the second text is run once more with marked positions: those of its nodes are made odd, all
others even. Without the marks this is the run of the second text after the first; with the odd positions moved further on it is
what the joined text does after its first part: `runSource_joined`.
-/
import LetScript.Proofs.Parsing.Joining
import LetScript.Proofs.Session.Scopes

namespace LetScript

open Evaluation Parsing

/-! ## Marked positions -/

/-- a position without a mark -/
def plain (position : Int) : Int := 2 * position

/-- a position with a mark -/
def mark (position : Int) : Int := 2 * position + 1

/-- takes the mark off a position -/
def unmark (position : Int) : Int := position / 2

/-- takes the mark off a position, and moves it further on if it had one -/
def shiftMarked (distance : Int) (position : Int) : Int :=
  if position % 2 = 1 then position / 2 + distance else position / 2

theorem unmark_plain : unmark ∘ plain = id := by
  funext p
  simp only [Function.comp_apply, unmark, plain, id]
  omega

theorem unmark_mark : unmark ∘ mark = id := by
  funext p
  simp only [Function.comp_apply, unmark, mark, id]
  omega

theorem shiftMarked_plain (distance : Int) : shiftMarked distance ∘ plain = id := by
  funext p
  have heven : ¬ plain p % 2 = 1 := by unfold plain; omega
  rw [Function.comp_apply, shiftMarked, if_neg heven]
  exact congrFun unmark_plain p

theorem shiftMarked_mark (distance : Int) : shiftMarked distance ∘ mark = (· + distance) := by
  funext p
  have hodd : mark p % 2 = 1 := by unfold mark; omega
  have hplace : mark p / 2 = p := congrFun unmark_mark p
  rw [Function.comp_apply, shiftMarked, if_pos hodd, hplace]

/-! ## Results -/

/-- a failure with the position of a stop put through a function -/
def Failure.relocate (f : Int → Int) : Failure → Failure
  | .stop cause => .stop (cause.relocate f)
  | failure => failure

/-- what was shown, and then something else -/
def Shown.append (first second : Shown) : Shown :=
  ⟨first.console ++ second.console, first.stream ++ second.stream, first.trace ++ second.trace⟩

theorem linesOf_append (test : Event → Bool) (events others : List Event) :
    linesOf test (events ++ others) = linesOf test events ++ linesOf test others := by
  simp only [linesOf, joinLines, List.filter_append, List.map_append, String.join_append]

namespace Session

theorem route_append (session : Session) (events others : List Event) :
    session.route (events ++ others) = (session.route events).append (session.route others) := by
  simp only [route, Shown.append, linesOf_append]
  split_ifs
  · rfl
  · rfl

/-- a session with the positions of all that is bound put through a function -/
def relocate (f : Int → Int) (session : Session) : Session := { session with scope := session.scope.relocate f }

/-- a result with all positions put through a function -/
def Result.relocate (f : Int → Int) : Result → Result
  | (.ok value, shown, next) => (.ok (value.relocate f), shown, next.relocate f)
  | (.error failure, shown, next) => (.error (failure.relocate f), shown, next.relocate f)

/-- what two results amount to in one run: the first, if it is a failure; else the values of both in one list or the second
failure, all that was shown, and the session that the second left -/
inductive Chained : Result → Result → Result → Prop where
  | stopped {failure : Failure} {shown : Shown} {next : Session} {second : Result} :
      Chained (.error failure, shown, next) second (.error failure, shown, next)
  | failed {items : List Value} {failure : Failure} {shown shown' : Shown} {next next' : Session} :
      Chained (.ok (.list items), shown, next) (.error failure, shown', next') (.error failure, shown.append shown', next')
  | both {items others : List Value} {shown shown' : Shown} {next next' : Session} :
      Chained (.ok (.list items), shown, next) (.ok (.list others), shown', next')
        (.ok (.list (items ++ others)), shown.append shown', next')

/-! ## Runs -/

/-- a tree is run on a session with other positions, and the result brought back: that is the relocated tree, run on the session
as it was and after whatever was shown before -/
theorem execute_relocated {f g : Int → Int} (hback : g ∘ f = id) (session : Session) (node : Node) :
    ∃ outcome scope journal,
      Result.relocate g ((session.relocate f).execute (.tree node)) =
        (outcome.mapError .stop, session.route journal.reverse, { session with scope := scope }) ∧
      ∀ events, evaluate session.tracing session.budget (node.relocate g) ⟨session.scope, events⟩ =
        (outcome, ⟨scope, journal ++ events⟩) := by
  rcases hrun : evaluate session.tracing session.budget node ⟨session.scope.relocate f, []⟩ with ⟨outcome, machine⟩
  have hexecute := execute_tree (session.relocate f) hrun
  refine ⟨relocateOutcome g (Value.relocate g) outcome, machine.scope.relocate g, machine.journal, ?_, ?_⟩
  · rw [hexecute]
    cases outcome with
    | ok value => rfl
    | error stop => rfl
  · intro events
    have hmoves := evaluate_moves g events session.tracing session.budget node ⟨session.scope.relocate f, []⟩
    rw [hrun] at hmoves
    simp only [Machine.moved, Scope.relocate_relocate, hback, Scope.relocate_id, List.nil_append] at hmoves
    exact hmoves

end Session

/-! ## Statements one after the other -/

namespace Evaluation

theorem evaluateAll_append (eval : Node → Run Value) (nodes others : List Node) :
    evaluateAll eval (nodes ++ others) = do
      let first ← evaluateAll eval nodes
      let second ← evaluateAll eval others
      return first ++ second := by
  induction nodes with
  | nil => simp [evaluateAll]
  | cons node rest ih => simp [evaluateAll, ih]

/-- statements one after the other: the first ones stop; or the others do, on the machine that the first ones left; or there
are the values of both -/
theorem evaluate_append (t : Tracing) (budget : ℕ) (p q : Int) (nodes others : List Node) (m : Machine) :
    (∃ stop last, evaluate t budget (.statements p (.text "") nodes) m = (.error stop, last) ∧
        evaluate t budget (.statements p (.text "") (nodes ++ others)) m = (.error stop, last)) ∨
      ∃ items next, evaluate t budget (.statements p (.text "") nodes) m = (.ok (.list items), next) ∧
        ((∃ stop last, evaluate t budget (.statements q (.text "") others) next = (.error stop, last) ∧
            evaluate t budget (.statements p (.text "") (nodes ++ others)) m = (.error stop, last)) ∨
          ∃ values last, evaluate t budget (.statements q (.text "") others) next = (.ok (.list values), last) ∧
            evaluate t budget (.statements p (.text "") (nodes ++ others)) m = (.ok (.list (items ++ values)), last)) := by
  cases budget with
  | zero => exact Or.inl ⟨.exhausted, m, rfl, rfl⟩
  | succ budget =>
    have hblock : ∀ position nodes, evaluate t (budget + 1) (.statements position (.text "") nodes) =
        (do return .list (← evaluateAll (evaluate t budget) nodes)) := fun _ _ => rfl
    have hjoined : evaluate t (budget + 1) (.statements p (.text "") (nodes ++ others)) = (do
        let first ← evaluateAll (evaluate t budget) nodes
        let second ← evaluateAll (evaluate t budget) others
        return .list (first ++ second)) := by
      simp only [hblock, evaluateAll_append, bind_assoc, pure_bind]
    rw [hjoined, hblock, hblock]
    rcases hfirst : evaluateAll (evaluate t budget) nodes m with ⟨outcome, next⟩
    cases outcome with
    | error stop => exact Or.inl ⟨stop, next, run_bind_error hfirst, run_bind_error hfirst⟩
    | ok items =>
      refine Or.inr ⟨items, next, run_bind_ok hfirst, ?_⟩
      rw [run_bind_ok hfirst]
      rcases hsecond : evaluateAll (evaluate t budget) others next with ⟨outcome, last⟩
      cases outcome with
      | error stop => exact Or.inl ⟨stop, last, run_bind_error hsecond, run_bind_error hsecond⟩
      | ok values => exact Or.inr ⟨values, last, run_bind_ok hsecond, run_bind_ok hsecond⟩

end Evaluation

/-! ## Batches -/

namespace Session

/-- statements in one run: what the first ones do, and then what the others do after them, whatever was shown before -/
theorem execute_append (session : Session) (p q : Int) (nodes others : List Node) {outcome : Except Stop Value} {scope : Scope}
    {journal : List Event}
    (h : ∀ events, evaluate session.tracing session.budget (.statements q (.text "") others)
      ⟨(session.execute (.tree (.statements p (.text "") nodes))).2.2.scope, events⟩ = (outcome, ⟨scope, journal ++ events⟩)) :
    Chained (session.execute (.tree (.statements p (.text "") nodes)))
      (outcome.mapError .stop, session.route journal.reverse, { session with scope := scope })
      (session.execute (.tree (.statements p (.text "") (nodes ++ others)))) := by
  rcases evaluate_append session.tracing session.budget p q nodes others ⟨session.scope, []⟩ with
    ⟨stop, last, hfirst, hboth⟩ | ⟨items, next, hfirst, hrest⟩
  · rw [execute_tree session hfirst, execute_tree session hboth]
    exact .stopped
  · rw [execute_tree session hfirst] at h ⊢
    have hnext := h next.journal
    rcases hrest with ⟨stop, last, hsecond, hboth⟩ | ⟨values, last, hsecond, hboth⟩
    · cases hnext.symm.trans hsecond
      rw [execute_tree session hboth, List.reverse_append, route_append]
      exact .failed
    · cases hnext.symm.trans hsecond
      rw [execute_tree session hboth, List.reverse_append, route_append]
      exact .both

/-- **A batch does what its parts do one after the other.** The second text is run after the first with its positions marked.
Without the marks this is the run of the second text; with the marked positions further on it is what the joined text goes on
with when the first one has a value. -/
theorem runSource_joined (session : Session) {a b : String} {first second : Node} (ha : parseSource a = .ok first)
    (hb : parseSource b = .ok second) (hlast : ∃ t, (Token.tokenize a).getLast? = some t ∧ t.lexeme ≠ ";") :
    let alone := session.runSource a
    let marked := (alone.2.2.relocate plain).execute (.tree (second.relocate mark))
    alone.2.2.runSource b = Result.relocate unmark marked ∧
      Chained alone (Result.relocate (shiftMarked (a.length + 3)) marked) (session.runSource (a ++ "\n;\n" ++ b)) := by
  rw [runSource_of_ok session ha]
  intro alone marked
  constructor
  · obtain ⟨outcome, scope, journal, hresult, hrun⟩ := execute_relocated unmark_plain alone.2.2 (second.relocate mark)
    have hsecond := hrun []
    rw [Node.relocate_relocate, unmark_mark, Node.relocate_id, List.append_nil] at hsecond
    rw [runSource_of_ok _ hb, execute_tree _ hsecond, hresult]
  · obtain ⟨p, q, body, others, hfirst, hsecond, hjoined⟩ := parseSource_join ha hb hlast
    obtain ⟨outcome, scope, journal, hresult, hrun⟩ :=
      execute_relocated (shiftMarked_plain (a.length + 3)) alone.2.2 (second.relocate mark)
    rw [Node.relocate_relocate, shiftMarked_mark, hsecond, Node.relocate, Node.relocateAll_eq] at hrun
    rw [hresult, runSource_of_ok session hjoined]
    subst hfirst
    exact execute_append session p _ body _ hrun

/-- the second text fails at its own node, which stands further on in the batch -/
theorem runSource_joined_unbound :
    parseSource "let f := \\ x -> x" =
        .ok (.statements 0 (.text "") [.assign 4 (.text "f") (.lambda 9 [.text "x"] (.reference 16 (.text "x")))]) ∧
      parseSource "f y" = .ok (.statements 0 (.text "") [.call 0 (.text "f") [.reference 2 (.text "y")]]) ∧
      ((start 0 plainChannels).runSource ("let f := \\ x -> x" ++ "\n;\n" ++ "f y")).1 =
        .error (.stop (.fault (.unbound (.text "y") 22))) := by
  have htokens : Token.tokenize "let f := \\ x -> x" = [⟨.keyword, "let", 0⟩, ⟨.identifier, "f", 4⟩, ⟨.operator, ":=", 6⟩,
      ⟨.symbol, "\\", 9⟩, ⟨.identifier, "x", 11⟩, ⟨.operator, "->", 13⟩, ⟨.identifier, "x", 16⟩] := by decide
  have htokens' : Token.tokenize "f y" = [⟨.identifier, "f", 0⟩, ⟨.identifier, "y", 2⟩] := by decide
  have ha : parseSource "let f := \\ x -> x" =
      .ok (.statements 0 (.text "") [.assign 4 (.text "f") (.lambda 9 [.text "x"] (.reference 16 (.text "x")))]) := by
    rw [parseSource, htokens]
    rfl
  have hb : parseSource "f y" = .ok (.statements 0 (.text "") [.call 0 (.text "f") [.reference 2 (.text "y")]]) := by
    rw [parseSource, htokens']
    rfl
  have hlast : ∃ t, (Token.tokenize "let f := \\ x -> x").getLast? = some t ∧ t.lexeme ≠ ";" := by
    rw [htokens]
    exact ⟨_, rfl, by decide⟩
  refine ⟨ha, hb, ?_⟩
  obtain ⟨-, hchained⟩ := runSource_joined (start 0 plainChannels) ha hb hlast
  rw [runSource_of_ok _ ha] at hchained
  generalize (start 0 plainChannels).runSource ("let f := \\ x -> x" ++ "\n;\n" ++ "f y") = batch at hchained ⊢
  cases hchained with
  | failed => rfl

end Session

end LetScript
