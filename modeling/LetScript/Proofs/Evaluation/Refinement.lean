/-
The frame stack refines environment passing.

A run without tracing on a scope ends as the rules say for the environment of that scope, prints the same lines, and leaves a
scope whose environment is the one the rules leave (`evaluate_sound`); and what the rules derive, a run with enough budget does
(`evaluate_gives`). So programs cannot tell apart two scopes that bind the same names to the same nodes, however the
bindings lie in their frames.

Arguments and callee are evaluated in the scope that the call has opened, which has the environment of the scope around it. A
call leaves that scope as it was, because everything in between keeps the frames (`inScope_eq`).
-/
import LetScript.Proofs.Evaluation.Frames
import LetScript.Proofs.Evaluation.Environment

namespace LetScript.Evaluation

open Run

variable {α β : Type}

/-! ## Runs without tracing -/

theorem trace_zero {threshold : ℕ} (h : 1 ≤ threshold) (line : Unit → Except Abort String) :
    trace 0 threshold line = Pure.pure () := if_neg (Nat.not_le.2 h)

/-- a loop is its body, evaluated as often as the count says -/
theorem repeated_eq (eval : Node → Run Value) (body : Node) (times : ℕ) (done : List Value) :
    repeated (eval body) times done =
      (evaluateAll eval (List.replicate times body) >>= fun values => Pure.pure (done.reverse ++ values)) := by
  induction times generalizing done with
  | zero =>
    rw [List.replicate_zero, evaluateAll, pure_bind, List.append_nil]
    rfl
  | succ times ih =>
    have hround : repeated (eval body) (times + 1) done =
        (eval body >>= fun value => repeated (eval body) times (value :: done)) := rfl
    rw [hround, List.replicate_succ, evaluateAll]
    simp only [ih, bind_assoc, pure_bind, List.reverse_cons, List.append_assoc, List.singleton_append]

section

variable (room : ℕ) (eval : Node → Run Value) (position : Int) {mode name : Json} {nodes args : List Node} {expression : Node}

theorem step_block (plain : isLoop mode = false) :
    step 0 room eval (.statements position mode nodes) =
      (evaluateAll eval nodes >>= fun values => Pure.pure (.list values)) := by
  simp only [step, plain, Bool.false_eq_true, if_false]

theorem step_loop (marked : isLoop mode = true) (count body : Node) :
    step 0 room eval (.statements position mode [count, body]) = (eval count >>= fun value =>
      match value with
      | .int (.ofNat times) => evaluateAll eval (List.replicate times body) >>= fun values => Pure.pure (.list values)
      | other => halt (countStop other count.position)) := by
  simp only [step, marked, if_true]
  refine bind_congr fun value => ?_
  cases value with
  | int n =>
    cases n with
    | ofNat times =>
      dsimp only
      rw [trace_zero (by decide), pure_bind, repeated_eq, bind_assoc]
      simp only [pure_bind, List.reverse_nil, List.nil_append]
    | negSucc n => exact uncounted_eq _ _
  | _ => exact uncounted_eq _ _

theorem step_malformed (marked : isLoop mode = true) (malformed : ∀ count body, nodes ≠ [count, body]) :
    step 0 room eval (.statements position mode nodes) = halt (.abort .malformedLoop) := by
  simp only [step, marked, if_true]
  unfold runLoop
  split
  · exact absurd rfl (malformed _ _)
  · rfl

theorem step_define (name : Json) (place : Int) (params : List Json) (body : Node) :
    step 0 room eval (.assign position name (.lambda place params body)) =
      (assign name (.lambda place params body) >>= fun _ => Pure.pure (.text "fn")) := rfl

theorem step_assign (name : Json) (plain : ∀ place params body, expression ≠ .lambda place params body) :
    step 0 room eval (.assign position name expression) =
      (eval expression >>= fun value => assign name expression >>= fun _ => Pure.pure value) := by
  simp only [step]
  unfold runAssign
  split
  · exact absurd rfl (plain _ _ _)
  · rfl

theorem step_conditional (condition consequent alternative : Node) :
    step 0 room eval (.conditional position condition consequent alternative) =
      (eval condition >>= fun value => eval (if value.isTruthy then consequent else alternative)) := by
  refine bind_congr fun value => ?_
  rw [trace_zero (by decide), pure_bind]
  split_ifs
  · rfl
  · rfl

theorem step_print (isPrint : Key.ofJson? name = some (.text "print")) (arg : Node) :
    step 0 room eval (.call position name [arg]) = (eval arg >>= fun value => orAbort value.shown >>= fun shown =>
      emit (.printed shown) >>= fun _ => Pure.pure (.text shown)) := by
  simp only [step, runCall, isPrint, if_true]
  rfl

theorem step_print_arity (isPrint : Key.ofJson? name = some (.text "print")) (several : ∀ arg, args ≠ [arg]) :
    step 0 room eval (.call position name args) = halt (.fault (.arity (.text "print") 1 args.length position)) := by
  simp only [step, runCall, isPrint, if_true]
  unfold runPrint
  split
  · exact absurd rfl (several _)
  · rfl

theorem step_call {key : Key} (named : Key.ofJson? name = some key) (notPrint : key ≠ .text "print") :
    step 0 room eval (.call position name args) = 
      (reserve room openingDepth >>= fun _ => inScope (applyNamed eval position name args)) := by
  simp only [step, runCall, named, if_neg notPrint, runNamed]
  exact inCall_silent rfl _ _ _ _

theorem step_unusable (unnamed : Key.ofJson? name = none) :
    step 0 room eval (.call position name args) = halt (.abort .unusableName) := by
  simp only [step, runCall, unnamed]

end

/-! ## What a run does, the rules say -/

/-- printed lines as the latest part of a journal -/
def printed (lines : List String) : List Event := (lines.map .printed).reverse

theorem printed_append (lines others : List String) : printed (lines ++ others) = printed others ++ printed lines := by
  simp only [printed, List.map_append, List.reverse_append]

/-- between two machines the lines were printed -/
def Shows (m : Machine) (lines : List String) (last : Machine) : Prop := last.journal = printed lines ++ m.journal

theorem Shows.trans {m next last : Machine} {lines others : List String} (h : Shows m lines next)
    (h' : Shows next others last) : Shows m (lines ++ others) last := by
  unfold Shows at *
  rw [h', h, printed_append, List.append_assoc]

/-- every run of the evaluator that does not use up its budget follows the rules -/
def Sound (eval : Node → Run Value) : Prop :=
  ∀ node m outcome last, eval node m = (outcome, last) → Ends outcome →
    ∃ lines, Shows m lines last ∧ Evaluates (Env.of m.scope) node outcome lines (Env.of last.scope)

/-- parameters are bound in the environment of the scope, up to one that cannot be -/
theorem bindAll_of (params : List Json) (args : List Node) (values : List Value) (scope : Scope) (journal : List Event) :
    (∃ next, bindAll params args values ⟨scope, journal⟩ = (.ok (), ⟨next, journal⟩) ∧
        (Env.of scope).bindAll params args values = .ok (Env.of next)) ∨
      ∃ stop next, bindAll params args values ⟨scope, journal⟩ = (.error stop, ⟨next, journal⟩) ∧
        (Env.of scope).bindAll params args values = .error stop := by
  fun_induction bindAll params args values generalizing scope with
  | case1 param params arg args value values ih =>
    unfold Env.bindAll
    rcases Env.assign_of param (.literal arg.position value) scope journal with ⟨next, hok, hbind⟩ | ⟨stop, herror, hbind⟩
    · rw [run_bind_ok hok, hbind]
      exact ih next
    · rw [run_bind_error herror, hbind]
      exact Or.inr ⟨stop, scope, rfl, rfl⟩
  | case2 params args values hshort =>
    refine Or.inl ⟨scope, rfl, ?_⟩
    unfold Env.bindAll
    split
    · exact absurd rfl (hshort _ _ _ _ _ _ rfl rfl)
    · rfl

namespace Sound

variable {room : ℕ} {eval : Node → Run Value} (hs : Sound eval)

include hs

theorem evaluateAll {nodes : List Node} {m last : Machine} {outcome : Except Stop (List Value)}
    (h : Evaluation.evaluateAll eval nodes m = (outcome, last)) (hne : Ends outcome) :
    ∃ lines, Shows m lines last ∧ EvaluatesAll (Env.of m.scope) nodes outcome lines (Env.of last.scope) := by
  induction nodes generalizing m outcome with
  | nil =>
    cases h
    exact ⟨[], rfl, .nil⟩
  | cons node nodes ih =>
    rcases run_bind_cases h with ⟨value, mid, hfirst, h⟩ | ⟨stop, hfirst, rfl⟩
    · obtain ⟨lines, hl, hv⟩ := hs _ _ _ _ hfirst (.ok _)
      rcases run_bind_cases h with ⟨values, next, hrest, h⟩ | ⟨stop, hrest, rfl⟩
      · cases h
        obtain ⟨others, hl', hvs⟩ := ih hrest (.ok _)
        exact ⟨lines ++ others, hl.trans hl', .cons hv hvs⟩
      · obtain ⟨others, hl', hvs⟩ := ih hrest hne.error
        exact ⟨lines ++ others, hl.trans hl', .cons hv hvs⟩
    · obtain ⟨lines, hl, hv⟩ := hs _ _ _ _ hfirst hne.error
      exact ⟨lines, hl, .stops hv⟩

/-- a list of nodes, evaluated for its values -/
theorem collected {nodes : List Node} {m last : Machine} {outcome : Except Stop Value}
    (h : (Evaluation.evaluateAll eval nodes >>= fun values => Pure.pure (.list values)) m = (outcome, last))
    (hne : Ends outcome) :
    ∃ lines all, outcome = all.map .list ∧ Shows m lines last ∧
      EvaluatesAll (Env.of m.scope) nodes all lines (Env.of last.scope) := by
  rcases run_bind_cases h with ⟨values, next, hall, h⟩ | ⟨stop, hall, rfl⟩
  · cases h
    obtain ⟨lines, hl, hvs⟩ := hs.evaluateAll hall (.ok _)
    exact ⟨lines, .ok values, rfl, hl, hvs⟩
  · obtain ⟨lines, hl, hvs⟩ := hs.evaluateAll hall hne.error
    exact ⟨lines, .error stop, rfl, hl, hvs⟩

theorem statements {position : Int} {mode : Json} {nodes : List Node} {m last : Machine} {outcome : Except Stop Value}
    (h : Evaluation.step 0 room eval (.statements position mode nodes) m = (outcome, last)) (hne : Ends outcome) :
    ∃ lines, Shows m lines last ∧
      Evaluates (Env.of m.scope) (.statements position mode nodes) outcome lines (Env.of last.scope) := by
  cases hmode : isLoop mode with
  | false =>
    rw [step_block room eval position hmode] at h
    obtain ⟨lines, all, rfl, hl, hvs⟩ := hs.collected h hne
    exact ⟨lines, hl, .block hmode hvs⟩
  | true =>
    by_cases hpair : ∃ count body, nodes = [count, body]
    · obtain ⟨count, body, rfl⟩ := hpair
      rw [step_loop room eval position hmode] at h
      rcases run_bind_cases h with ⟨value, mid, hcount, h⟩ | ⟨stop, hcount, rfl⟩
      · obtain ⟨lines, hl, hv⟩ := hs _ _ _ _ hcount (.ok _)
        split at h
        · obtain ⟨others, all, rfl, hl', hvs⟩ := hs.collected h hne
          exact ⟨lines ++ others, hl.trans hl', .loop hmode hv hvs⟩
        · next uncounted =>
          cases h
          exact ⟨lines, hl, .loopUncounted hmode hv fun times he => uncounted times he⟩
      · obtain ⟨lines, hl, hv⟩ := hs _ _ _ _ hcount hne
        exact ⟨lines, hl, .loopStops hmode hv⟩
    · have hmalformed : ∀ count body, nodes ≠ [count, body] := fun count body he => hpair ⟨count, body, he⟩
      rw [step_malformed room eval position hmode hmalformed] at h
      cases h
      exact ⟨[], rfl, .loopMalformed hmode hmalformed⟩

theorem operation {position : Int} {operator : Json} {left right : Node} {m last : Machine} {outcome : Except Stop Value}
    (h : Evaluation.step 0 room eval (.operation position operator left right) m = (outcome, last))
    (hne : Ends outcome) :
    ∃ lines, Shows m lines last ∧
      Evaluates (Env.of m.scope) (.operation position operator left right) outcome lines (Env.of last.scope) := by
  rcases run_bind_cases h with ⟨a, mid, hleft, h⟩ | ⟨stop, hleft, rfl⟩
  · obtain ⟨lines, hl, ha⟩ := hs _ _ _ _ hleft (.ok _)
    rcases run_bind_cases h with ⟨b, next, hright, h⟩ | ⟨stop, hright, rfl⟩
    · cases h
      obtain ⟨others, hl', hb⟩ := hs _ _ _ _ hright (.ok _)
      exact ⟨lines ++ others, hl.trans hl', .operation ha hb⟩
    · obtain ⟨others, hl', hb⟩ := hs _ _ _ _ hright hne
      exact ⟨lines ++ others, hl.trans hl', .rightStops ha hb⟩
  · obtain ⟨lines, hl, ha⟩ := hs _ _ _ _ hleft hne
    exact ⟨lines, hl, .leftStops ha⟩

theorem reference {position : Int} {name : Json} {m last : Machine} {outcome : Except Stop Value}
    (h : Evaluation.step 0 room eval (.reference position name) m = (outcome, last)) (hne : Ends outcome) :
    ∃ lines, Shows m lines last ∧
      Evaluates (Env.of m.scope) (.reference position name) outcome lines (Env.of last.scope) := by
  rcases run_bind_cases h with ⟨node, next, hfetch, h⟩ | ⟨stop, hfetch, rfl⟩
  · obtain ⟨hfound, rfl⟩ := Prod.mk.inj hfetch
    obtain ⟨lines, hl, hv⟩ := hs _ _ _ _ h hne
    exact ⟨lines, hl, .reference hfound hv⟩
  · obtain ⟨hmissing, rfl⟩ := Prod.mk.inj hfetch
    exact ⟨[], rfl, .referenceStops hmissing⟩

theorem assign {position : Int} {name : Json} {expression : Node} {m last : Machine} {outcome : Except Stop Value}
    (h : Evaluation.step 0 room eval (.assign position name expression) m = (outcome, last)) (hne : Ends outcome) :
    ∃ lines, Shows m lines last ∧
      Evaluates (Env.of m.scope) (.assign position name expression) outcome lines (Env.of last.scope) := by
  by_cases hlambda : ∃ place params body, expression = .lambda place params body
  · obtain ⟨place, params, body, rfl⟩ := hlambda
    rw [step_define] at h
    rcases Env.assign_of name (.lambda place params body) m.scope m.journal with ⟨scope, hok, hbind⟩ | ⟨stop, herror, hbind⟩
    · rw [run_bind_ok hok] at h
      cases h
      exact ⟨[], rfl, .define hbind⟩
    · rw [run_bind_error herror] at h
      cases h
      exact ⟨[], rfl, .defineStops hbind⟩
  · have hplain : ∀ place params body, expression ≠ .lambda place params body := fun place params body he =>
      hlambda ⟨place, params, body, he⟩
    rw [step_assign room eval position name hplain] at h
    rcases run_bind_cases h with ⟨value, mid, hfirst, h⟩ | ⟨stop, hfirst, rfl⟩
    · obtain ⟨lines, hl, hv⟩ := hs _ _ _ _ hfirst (.ok _)
      rcases Env.assign_of name expression mid.scope mid.journal with ⟨scope, hok, hbind⟩ | ⟨stop, herror, hbind⟩
      · rw [run_bind_ok hok] at h
        cases h
        exact ⟨lines, hl, .assign hplain hv hbind⟩
      · rw [run_bind_error herror] at h
        cases h
        exact ⟨lines, hl, .assignUnbound hplain hv hbind⟩
    · obtain ⟨lines, hl, hv⟩ := hs _ _ _ _ hfirst hne
      exact ⟨lines, hl, .assignStops hplain hv⟩

theorem conditional {position : Int} {condition consequent alternative : Node} {m last : Machine}
    {outcome : Except Stop Value}
    (h : Evaluation.step 0 room eval (.conditional position condition consequent alternative) m = (outcome, last))
    (hne : Ends outcome) :
    ∃ lines, Shows m lines last ∧
      Evaluates (Env.of m.scope) (.conditional position condition consequent alternative) outcome lines
        (Env.of last.scope) := by
  rw [step_conditional] at h
  rcases run_bind_cases h with ⟨value, mid, htest, h⟩ | ⟨stop, htest, rfl⟩
  · obtain ⟨lines, hl, hv⟩ := hs _ _ _ _ htest (.ok _)
    obtain ⟨others, hl', hb⟩ := hs _ _ _ _ h hne
    exact ⟨lines ++ others, hl.trans hl', .conditional hv hb⟩
  · obtain ⟨lines, hl, hv⟩ := hs _ _ _ _ htest hne
    exact ⟨lines, hl, .conditionalStops hv⟩

theorem print {position : Int} {name : Json} {args : List Node} {m last : Machine} {outcome : Except Stop Value}
    (hname : Key.ofJson? name = some (.text "print"))
    (h : Evaluation.step 0 room eval (.call position name args) m = (outcome, last)) (hne : Ends outcome) :
    ∃ lines, Shows m lines last ∧
      Evaluates (Env.of m.scope) (.call position name args) outcome lines (Env.of last.scope) := by
  by_cases hone : ∃ arg, args = [arg]
  · obtain ⟨arg, rfl⟩ := hone
    rw [step_print room eval position hname] at h
    rcases run_bind_cases h with ⟨value, mid, harg, h⟩ | ⟨stop, harg, rfl⟩
    · obtain ⟨lines, hl, hv⟩ := hs _ _ _ _ harg (.ok _)
      cases hshown : value.shown with
      | ok text =>
        rw [hshown] at h
        cases h
        have hline : Shows mid [text] ⟨mid.scope, .printed text :: mid.journal⟩ := rfl
        exact ⟨lines ++ [text], hl.trans hline, .print hname hv hshown⟩
      | error abort =>
        rw [hshown] at h
        cases h
        exact ⟨lines, hl, .printUnreadable hname hv hshown⟩
    · obtain ⟨lines, hl, hv⟩ := hs _ _ _ _ harg hne
      exact ⟨lines, hl, .printStops hname hv⟩
  · have hseveral : ∀ arg, args ≠ [arg] := fun arg he => hone ⟨arg, he⟩
    rw [step_print_arity room eval position hname hseveral] at h
    cases h
    exact ⟨[], rfl, .printArity hname hseveral⟩

theorem applyNamed {position : Int} {name : Json} {args : List Node} {m last : Machine} {outcome : Except Stop Value}
    (h : Evaluation.applyNamed eval position name args m = (outcome, last)) (hne : Ends outcome) :
    ∃ lines, Shows m lines last ∧ Applies (Env.of m.scope) position name args outcome lines := by
  rcases run_bind_cases h with ⟨node, next, hfetch, h⟩ | ⟨stop, hfetch, rfl⟩
  · obtain ⟨hfound, rfl⟩ := Prod.mk.inj hfetch
    rcases run_bind_cases h with ⟨callee, mid, hcallee, h⟩ | ⟨stop, hcallee, rfl⟩
    · obtain ⟨lines, hl, hv⟩ := hs _ _ _ _ hcallee (.ok _)
      split at h
      · next params body =>
        split_ifs at h with harity
        · cases h
          exact ⟨lines, hl, .arity hfound hv harity⟩
        · have hright := not_not.1 harity
          rcases run_bind_cases h with ⟨values, after, hargs, h⟩ | ⟨stop, hargs, rfl⟩
          · obtain ⟨others, hl', hvs⟩ := hs.evaluateAll hargs (.ok _)
            rcases bindAll_of params args values after.scope after.journal with ⟨inner, hok, hbind⟩ | ⟨stop, inner, herror, hbind⟩
            · rw [run_bind_ok hok] at h
              obtain ⟨more, hl'', hr⟩ := hs _ _ _ _ h hne
              exact ⟨lines ++ others ++ more, (hl.trans hl').trans hl'', .applied hfound hv hright hvs hbind hr⟩
            · rw [run_bind_error herror] at h
              cases h
              exact ⟨lines ++ others, hl.trans hl', .parameterStops hfound hv hright hvs hbind⟩
          · obtain ⟨others, hl', hvs⟩ := hs.evaluateAll hargs hne.error
            exact ⟨lines ++ others, hl.trans hl', .argumentStops hfound hv hright hvs⟩
      · next other =>
        cases h
        exact ⟨lines, hl, .notCallable hfound hv other⟩
    · obtain ⟨lines, hl, hv⟩ := hs _ _ _ _ hcallee hne
      exact ⟨lines, hl, .calleeStops hfound hv⟩
  · obtain ⟨hmissing, rfl⟩ := Prod.mk.inj hfetch
    exact ⟨[], rfl, .unbound hmissing⟩

theorem call (hk : ∀ node, Keeps (eval node)) {position : Int} {name : Json} {args : List Node} {m last : Machine}
    {outcome : Except Stop Value} (h : Evaluation.step 0 room eval (.call position name args) m = (outcome, last))
    (hne : Ends outcome) :
    ∃ lines, Shows m lines last ∧
      Evaluates (Env.of m.scope) (.call position name args) outcome lines (Env.of last.scope) := by
  cases hkey : Key.ofJson? name with
  | none =>
    rw [step_unusable room eval position hkey] at h
    cases h
    exact ⟨[], rfl, .callUnusable hkey⟩
  | some key =>
    by_cases hprint : key = .text "print"
    · subst hprint
      exact hs.print hkey h hne
    · rw [step_call room eval position hkey hprint] at h
      by_cases hroom : openingDepth ≤ room
      · rw [reserve_of_le hroom, pure_bind, inScope_eq (Restores.applyNamed hk position name args)] at h
        cases h
        obtain ⟨lines, hl, happ⟩ := hs.applyNamed rfl hne
        rw [Env.of_push] at happ
        exact ⟨lines, hl, .call hkey hprint happ⟩
      · rw [reserve_of_lt (not_le.1 hroom)] at h
        cases h
        exact absurd rfl hne

theorem step (hk : ∀ node, Keeps (eval node)) : Sound (Evaluation.step 0 room eval) := by
  intro node m outcome last h hne
  cases node with
  | statements position mode nodes => exact hs.statements h hne
  | operation position operator left right => exact hs.operation h hne
  | literal position value => cases h; exact ⟨[], rfl, .literal⟩
  | reference position name => exact hs.reference h hne
  | assign position name expression => exact hs.assign h hne
  | lambda position params body => cases h; exact ⟨[], rfl, .lambda⟩
  | call position name args => exact hs.call hk h hne
  | conditional position condition consequent alternative => exact hs.conditional h hne
  | blank position => cases h; exact ⟨[], rfl, .blank⟩

end Sound

/-- **What a run does, the rules say**, unless it used up its budget. -/
theorem evaluate_sound (budget : ℕ) : Sound (evaluate 0 budget) := by
  induction budget with
  | zero =>
    intro node m outcome last h hne
    cases h
    exact absurd rfl hne
  | succ budget ih => exact ih.step (evaluate_restores 0 budget)

/-! ## What the rules say, a run does -/

/-- with enough budget, a run on any scope of the environment ends as given, prints the lines, and leaves a scope of the
other environment -/
def Gives (run : ℕ → Run α) (env : Env) (outcome : Except Stop α) (lines : List String) (left : Env) : Prop :=
  ∀ scope journal, Env.of scope = env → ∃ next least, Env.of next = left ∧
    ∀ budget, least ≤ budget → run budget ⟨scope, journal⟩ = (outcome, ⟨next, printed lines ++ journal⟩)

namespace Gives

variable {run : ℕ → Run α} {env mid left : Env} {lines others : List String}

theorem pure (a : α) : Gives (fun _ => Pure.pure a) env (.ok a) [] env :=
  fun scope _ h => ⟨scope, 0, h, fun _ _ => rfl⟩

theorem lift (outcome : Except Stop α) : Gives (fun _ => Run.lift outcome) env outcome [] env :=
  fun scope _ h => ⟨scope, 0, h, fun _ _ => rfl⟩

theorem halt (stop : Stop) : Gives (fun _ => (Run.halt stop : Run α)) env (.error stop) [] env :=
  fun scope _ h => ⟨scope, 0, h, fun _ _ => rfl⟩

theorem emit (line : String) : Gives (fun _ => Run.emit (.printed line)) env (.ok ()) [line] env :=
  fun scope _ h => ⟨scope, 0, h, fun _ _ => rfl⟩

theorem fetch {name : Json} {position : Int} {outcome : Except Stop Node} (h : env.fetch name position = outcome) :
    Gives (fun _ => Run.fetch name position) env outcome [] env := by
  rintro scope journal rfl
  subst h
  exact ⟨scope, 0, rfl, fun _ _ => rfl⟩

theorem assign {name : Json} {node : Node} (h : env.bind name node = .ok left) :
    Gives (fun _ => Run.assign name node) env (.ok ()) [] left := by
  rintro scope journal rfl
  rcases Env.assign_of name node scope journal with ⟨next, hok, hbind⟩ | ⟨stop, -, hbind⟩
  · rw [h] at hbind
    cases hbind
    exact ⟨next, 0, rfl, fun _ _ => hok⟩
  · rw [h] at hbind
    cases hbind

theorem assign_error {name : Json} {node : Node} {stop : Stop} (h : env.bind name node = .error stop) :
    Gives (fun _ => Run.assign name node) env (.error stop) [] env := by
  rintro scope journal rfl
  rcases Env.assign_of name node scope journal with ⟨next, -, hbind⟩ | ⟨stop, herror, hbind⟩
  · rw [h] at hbind
    cases hbind
  · rw [h] at hbind
    cases hbind
    exact ⟨scope, 0, rfl, fun _ _ => herror⟩

theorem bindAll {params : List Json} {args : List Node} {values : List Value}
    (h : env.bindAll params args values = .ok left) :
    Gives (fun _ => Evaluation.bindAll params args values) env (.ok ()) [] left := by
  rintro scope journal rfl
  rcases bindAll_of params args values scope journal with ⟨next, hok, hbind⟩ | ⟨stop, next, -, hbind⟩
  · rw [h] at hbind
    cases hbind
    exact ⟨next, 0, rfl, fun _ _ => hok⟩
  · rw [h] at hbind
    cases hbind

/-- the second part goes on where the first ended -/
theorem bind {go : ℕ → α → Run β} {a : α} {outcome : Except Stop β} (h : Gives run env (.ok a) lines mid)
    (h' : Gives (fun budget => go budget a) mid outcome others left) :
    Gives (fun budget => run budget >>= go budget) env outcome (lines ++ others) left := by
  intro scope journal hscope
  obtain ⟨next, least, hnext, hrun⟩ := h scope journal hscope
  obtain ⟨last, least', hlast, hgo⟩ := h' next (printed lines ++ journal) hnext
  refine ⟨last, max least least', hlast, fun budget hb => ?_⟩
  refine (run_bind_ok (hrun budget (le_of_max_le_left hb))).trans ((hgo budget (le_of_max_le_right hb)).trans ?_)
  rw [printed_append, List.append_assoc]

/-- a part that prints nothing -/
theorem bind_silent {go : ℕ → α → Run β} {a : α} {outcome : Except Stop β} (h : Gives run env (.ok a) [] mid)
    (h' : Gives (fun budget => go budget a) mid outcome lines left) :
    Gives (fun budget => run budget >>= go budget) env outcome lines left := h.bind h'

/-- a last part that prints nothing -/
theorem bind_last {go : ℕ → α → Run β} {a : α} {outcome : Except Stop β} (h : Gives run env (.ok a) lines mid)
    (h' : Gives (fun budget => go budget a) mid outcome [] left) :
    Gives (fun budget => run budget >>= go budget) env outcome lines left := by
  have hboth := h.bind h'
  rwa [List.append_nil] at hboth

theorem bind_error {go : ℕ → α → Run β} {stop : Stop} (h : Gives run env (.error stop) lines left) :
    Gives (fun budget => run budget >>= go budget) env (.error stop) lines left := by
  intro scope journal hscope
  obtain ⟨next, least, hnext, hrun⟩ := h scope journal hscope
  exact ⟨next, least, hnext, fun budget hb => run_bind_error (hrun budget hb)⟩

theorem map {f : α → β} {outcome : Except Stop α} (h : Gives run env outcome lines left) :
    Gives (fun budget => run budget >>= fun a => Pure.pure (f a)) env (outcome.map f) lines left := by
  intro scope journal hscope
  obtain ⟨next, least, hnext, hrun⟩ := h scope journal hscope
  refine ⟨next, least, hnext, fun budget hb => ?_⟩
  cases outcome with
  | ok a => exact run_bind_ok (hrun budget hb)
  | error stop => exact run_bind_error (hrun budget hb)

/-- a scope of its own leaves the environment as it was -/
theorem inScope {outcome : Except Stop α} (hk : ∀ budget, Keeps (run budget)) (h : Gives run env outcome lines left) :
    Gives (fun budget => Evaluation.inScope (run budget)) env outcome lines env := by
  intro scope journal hscope
  obtain ⟨next, least, -, hrun⟩ := h scope.push journal ((Env.of_push scope).trans hscope)
  refine ⟨scope, least, hscope, fun budget hb => ?_⟩
  refine (inScope_eq (hk budget) _).trans ?_
  rw [hrun budget hb]

/-- there is room for a call, with enough budget -/
theorem reserve (depth : ℕ) : Gives (fun budget => Run.reserve budget depth) env (.ok ()) [] env :=
  fun scope journal h => ⟨scope, depth, h, fun _ hb => congrFun (reserve_of_le hb) ⟨scope, journal⟩⟩

/-- one more level of nesting -/
theorem evaluate {node : Node} {outcome : Except Stop Value}
    (h : Gives (fun budget => step 0 budget (Evaluation.evaluate 0 budget) node) env outcome lines left) :
    Gives (fun budget => Evaluation.evaluate 0 budget node) env outcome lines left := by
  intro scope journal hscope
  obtain ⟨next, least, hnext, hrun⟩ := h scope journal hscope
  refine ⟨next, least + 1, hnext, fun budget hb => ?_⟩
  obtain ⟨rest, rfl⟩ := Nat.exists_eq_add_of_le' (show 1 ≤ budget by omega)
  exact hrun rest (by omega)

/-! ### Calls -/

theorem bindAll_error {params : List Json} {args : List Node} {values : List Value} {stop : Stop} {env : Env}
    (h : env.bindAll params args values = .error stop) :
    ∃ left, Gives (fun _ => Evaluation.bindAll params args values) env (.error stop) [] left := by
  fun_induction Evaluation.bindAll params args values generalizing env with
  | case1 param params arg args value values ih =>
    unfold Env.bindAll at h
    cases hbind : env.bind param (.literal arg.position value) with
    | ok next =>
      rw [hbind] at h
      obtain ⟨left, hleft⟩ := ih h
      exact ⟨left, (assign hbind).bind_silent hleft⟩
    | error stop =>
      rw [hbind] at h
      cases h
      exact ⟨env, (assign_error hbind).bind_error⟩
  | case2 params args values hshort =>
    unfold Env.bindAll at h
    split at h
    · exact absurd rfl (hshort _ _ _ _ _ _ rfl rfl)
    · cases h

section

variable {position : Int} {name : Json} {args : List Node} {node body : Node} {params : List Json} {value : Value}

theorem notCallable (found : env.fetch name position = .ok node)
    (callee : Gives (fun budget => Evaluation.evaluate 0 budget node) env (.ok value) lines mid)
    (other : ∀ params body, value ≠ .function params body) :
    Gives (fun budget => applyNamed (Evaluation.evaluate 0 budget) position name args) env
      (.error (.fault (.notCallable name value.typeName position))) lines mid := by
  refine (fetch found).bind_silent (callee.bind_last ?_)
  split
  · next params body => exact absurd rfl (other params body)
  · exact halt _

theorem arity (found : env.fetch name position = .ok node)
    (callee : Gives (fun budget => Evaluation.evaluate 0 budget node) env (.ok (.function params body)) lines mid)
    (wrong : params.length ≠ args.length) :
    Gives (fun budget => applyNamed (Evaluation.evaluate 0 budget) position name args) env
      (.error (.fault (.arity name params.length args.length position))) lines mid := by
  refine (fetch found).bind_silent (callee.bind_last ?_)
  simp only [if_pos wrong]
  exact halt _

/-- the callee is a function of the right arity, and what follows goes on from there -/
theorem callable {outcome : Except Stop Value} (found : env.fetch name position = .ok node)
    (callee : Gives (fun budget => Evaluation.evaluate 0 budget node) env (.ok (.function params body)) lines mid)
    (right : params.length = args.length)
    (rest : Gives (fun budget => Evaluation.evaluateAll (Evaluation.evaluate 0 budget) args >>= fun values =>
      Evaluation.bindAll params args values >>= fun _ => Evaluation.evaluate 0 budget body) mid outcome others left) :
    Gives (fun budget => applyNamed (Evaluation.evaluate 0 budget) position name args) env outcome (lines ++ others) left := by
  refine (fetch found).bind_silent (callee.bind ?_)
  simp only [right, ne_eq, not_true, if_false]
  exact rest

end

end Gives

mutual

theorem evaluate_gives {env left : Env} {node : Node} {outcome : Except Stop Value} {lines : List String} :
    Evaluates env node outcome lines left → Gives (fun budget => evaluate 0 budget node) env outcome lines left
  | .literal => .evaluate (.pure _)
  | .lambda => .evaluate (.pure _)
  | .blank => .evaluate (.halt _)
  | .reference found read => .evaluate ((Gives.fetch found).bind_silent (evaluate_gives read))
  | .referenceStops missing => .evaluate (Gives.fetch missing).bind_error
  | .define bound => .evaluate ((Gives.assign bound).bind_silent (.pure _))
  | .defineStops unbound => .evaluate (Gives.assign_error unbound).bind_error
  | .assign plain first bound => by
    refine .evaluate ?_
    simp only [step_assign _ _ _ _ plain]
    refine (evaluate_gives first).bind_last ?_
    exact (Gives.assign bound).bind_silent (.pure _)
  | .assignUnbound plain first unbound => by
    refine .evaluate ?_
    simp only [step_assign _ _ _ _ plain]
    refine (evaluate_gives first).bind_last ?_
    exact (Gives.assign_error unbound).bind_error
  | .assignStops plain first => by
    refine .evaluate ?_
    simp only [step_assign _ _ _ _ plain]
    exact (evaluate_gives first).bind_error
  | .operation first second => by
    refine .evaluate ((evaluate_gives first).bind ?_)
    exact (evaluate_gives second).bind_last (.lift _)
  | .leftStops first => .evaluate (evaluate_gives first).bind_error
  | .rightStops first second => by
    refine .evaluate ((evaluate_gives first).bind ?_)
    exact (evaluate_gives second).bind_error
  | .conditional test branch => by
    refine .evaluate ?_
    simp only [step_conditional]
    exact (evaluate_gives test).bind (evaluate_gives branch)
  | .conditionalStops test => by
    refine .evaluate ?_
    simp only [step_conditional]
    exact (evaluate_gives test).bind_error
  | .block plain all => by
    refine .evaluate ?_
    simp only [step_block _ _ _ plain]
    exact (evaluateAll_gives all).map
  | .loop marked counted rounds => by
    refine .evaluate ?_
    simp only [step_loop _ _ _ marked]
    exact (evaluate_gives counted).bind (evaluateAll_gives rounds).map
  | .loopStops marked counted => by
    refine .evaluate ?_
    simp only [step_loop _ _ _ marked]
    exact (evaluate_gives counted).bind_error
  | .loopUncounted marked counted uncounted => by
    refine .evaluate ?_
    simp only [step_loop _ _ _ marked]
    refine (evaluate_gives counted).bind_last ?_
    split
    · next times => exact absurd rfl (uncounted times)
    · exact .halt _
  | .loopMalformed marked malformed => by
    refine .evaluate ?_
    simp only [step_malformed _ _ _ marked malformed]
    exact .halt _
  | .print isPrint shown readable => by
    refine .evaluate ?_
    simp only [step_print _ _ _ isPrint]
    refine (evaluate_gives shown).bind ?_
    rw [readable]
    refine (Gives.lift (.ok _)).bind_silent ((Gives.emit _).bind_last ?_)
    exact .pure _
  | .printUnreadable isPrint shown unreadable => by
    refine .evaluate ?_
    simp only [step_print _ _ _ isPrint]
    refine (evaluate_gives shown).bind_last ?_
    rw [unreadable]
    exact .halt _
  | .printStops isPrint shown => by
    refine .evaluate ?_
    simp only [step_print _ _ _ isPrint]
    exact (evaluate_gives shown).bind_error
  | .printArity isPrint several => by
    refine .evaluate ?_
    simp only [step_print_arity _ _ _ isPrint several]
    exact .halt _
  | .call named notPrint applied => by
    obtain ⟨inner, hinner⟩ := applyNamed_gives applied
    refine .evaluate ?_
    simp only [step_call _ _ _ named notPrint]
    refine (Gives.reserve openingDepth).bind_silent ?_
    exact hinner.inScope fun budget => .applyNamed (evaluate_restores 0 budget) _ _ _
  | .callUnusable unnamed => by
    refine .evaluate ?_
    simp only [step_unusable _ _ _ unnamed]
    exact .halt _

theorem evaluateAll_gives {env left : Env} {nodes : List Node} {outcome : Except Stop (List Value)} {lines : List String} :
    EvaluatesAll env nodes outcome lines left →
      Gives (fun budget => evaluateAll (evaluate 0 budget) nodes) env outcome lines left
  | .nil => .pure _
  | .cons first rest => (evaluate_gives first).bind (evaluateAll_gives rest).map
  | .stops first => (evaluate_gives first).bind_error

theorem applyNamed_gives {env : Env} {position : Int} {name : Json} {args : List Node} {outcome : Except Stop Value}
    {lines : List String} : Applies env position name args outcome lines →
      ∃ left, Gives (fun budget => applyNamed (evaluate 0 budget) position name args) env outcome lines left
  | .unbound missing => ⟨_, (Gives.fetch missing).bind_error⟩
  | .calleeStops found callee => ⟨_, (Gives.fetch found).bind_silent (evaluate_gives callee).bind_error⟩
  | .notCallable found callee other => ⟨_, .notCallable found (evaluate_gives callee) other⟩
  | .arity found callee wrong => ⟨_, .arity found (evaluate_gives callee) wrong⟩
  | .argumentStops found callee right actuals =>
    ⟨_, .callable found (evaluate_gives callee) right (evaluateAll_gives actuals).bind_error⟩
  | .parameterStops found callee right actuals unbound => by
    obtain ⟨left, hleft⟩ := Gives.bindAll_error unbound
    exact ⟨left, .callable found (evaluate_gives callee) right ((evaluateAll_gives actuals).bind_last hleft.bind_error)⟩
  | .applied found callee right actuals bound result => by
    rw [List.append_assoc]
    exact ⟨_, .callable found (evaluate_gives callee) right
      ((evaluateAll_gives actuals).bind ((Gives.bindAll bound).bind_silent (evaluate_gives result)))⟩

end

/-! ## Frames and environments -/

/-- with this budget the run ends as given, having printed the lines, and leaves a scope of the environment -/
def Finishes (budget : ℕ) (node : Node) (m : Machine) (outcome : Except Stop Value) (lines : List String) (left : Env) :
    Prop :=
  Ends outcome ∧ ∃ next, evaluate 0 budget node m = (outcome, ⟨next, printed lines ++ m.journal⟩) ∧ Env.of next = left

theorem printed_injective : Function.Injective printed := by
  intro lines others h
  have hsame : lines.map Event.printed = others.map Event.printed := List.reverse_injective h
  exact List.map_injective_iff.2 (fun _ _ he => Event.printed.inj he) hsame

/-- a run that does not use up its budget has finished -/
theorem finishes_of_ends {budget : ℕ} {node : Node} {m : Machine} (h : Ends (evaluate 0 budget node m).1) :
    ∃ outcome lines left, Finishes budget node m outcome lines left := by
  rcases hrun : evaluate 0 budget node m with ⟨outcome, last⟩
  rw [hrun] at h
  obtain ⟨lines, hl, -⟩ := evaluate_sound budget _ _ _ _ hrun h
  unfold Shows at hl
  exact ⟨outcome, lines, Env.of last.scope, h, last.scope, by rw [hrun, ← hl], rfl⟩

theorem Finishes.evaluates {budget : ℕ} {node : Node} {m : Machine} {outcome : Except Stop Value} {lines : List String}
    {left : Env} (h : Finishes budget node m outcome lines left) : Evaluates (Env.of m.scope) node outcome lines left := by
  obtain ⟨hends, next, hrun, rfl⟩ := h
  obtain ⟨others, hl, hv⟩ := evaluate_sound budget _ _ _ _ hrun hends
  have hsame : lines = others := printed_injective (List.append_cancel_right hl)
  exact hsame ▸ hv

theorem Evaluates.finishes {node : Node} {m : Machine} {outcome : Except Stop Value} {lines : List String} {left : Env}
    (h : Evaluates (Env.of m.scope) node outcome lines left) :
    ∃ least, ∀ budget, least ≤ budget → Finishes budget node m outcome lines left := by
  obtain ⟨next, least, hnext, hrun⟩ := evaluate_gives h m.scope m.journal rfl
  exact ⟨least, fun budget hb => ⟨h.ends, next, hrun budget hb, hnext⟩⟩

theorem finishes_iff {node : Node} {m : Machine} {outcome : Except Stop Value} {lines : List String} {left : Env} :
    (∃ budget, Finishes budget node m outcome lines left) ↔ Evaluates (Env.of m.scope) node outcome lines left := by
  constructor
  · rintro ⟨budget, h⟩
    exact h.evaluates
  · intro h
    obtain ⟨least, hleast⟩ := h.finishes
    exact ⟨least, hleast least le_rfl⟩

/-- **The frame stack refines environment passing.** A run on any scope uses up its budget or finishes; it finishes, for some
budget, exactly as the rules say for the environment of the scope, and then for every larger one; and scopes of one
environment finish alike, whatever their frames. -/
theorem evaluate_refines_environment (node : Node) (scope : Scope) (journal : List Event) :
    (∀ budget, (evaluate 0 budget node ⟨scope, journal⟩).1 = .error .exhausted ∨
        ∃ outcome lines left, Finishes budget node ⟨scope, journal⟩ outcome lines left) ∧
      (∀ outcome lines left, (∃ budget, Finishes budget node ⟨scope, journal⟩ outcome lines left) ↔
        Evaluates (Env.of scope) node outcome lines left) ∧
      (∀ outcome lines left, Evaluates (Env.of scope) node outcome lines left →
        ∃ least, ∀ budget, least ≤ budget → Finishes budget node ⟨scope, journal⟩ outcome lines left) ∧
      ∀ other, Env.of other = Env.of scope → ∀ outcome lines left,
        (∃ budget, Finishes budget node ⟨scope, journal⟩ outcome lines left) ↔
          ∃ budget, Finishes budget node ⟨other, journal⟩ outcome lines left := by
  refine ⟨fun budget => ?_, fun outcome lines left => finishes_iff, fun outcome lines left h => h.finishes, ?_⟩
  · by_cases h : Ends (evaluate 0 budget node ⟨scope, journal⟩).1
    · exact Or.inr (finishes_of_ends h)
    · exact Or.inl (not_not.1 h)
  · intro other hsame outcome lines left
    rw [finishes_iff, finishes_iff, hsame]

/-- a name bound in an outer frame is read like one bound in the current frame -/
theorem evaluate_refines_environment_opened :
    ∃ budget, Finishes budget (.reference 0 (.text "x"))
      ⟨(Scope.empty.assign ⟨.text "x", .text "x"⟩ (.literal 0 (.int 1))).push, []⟩ (.ok (.int 1)) []
      (Env.of (Scope.empty.assign ⟨.text "x", .text "x"⟩ (.literal 0 (.int 1)))) :=
  ((evaluate_refines_environment _ _ []).2.2.2 _ (Env.of_push _) _ _ _).1 ⟨2, .ok _, _, rfl, rfl⟩

end LetScript.Evaluation
