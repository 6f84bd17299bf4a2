/-
Progress of the parser.

Every rule leaves a cursor further on in the same list, also where it complains, and what it does depends on the furthest
complaint so far nowhere: before cursors that differ in that only, its answers differ in that only. `Orderly` says both of a
parser. The body of every rule is orderly when all calls are, so the recursion is at every depth, and the parser with it
(`parser_orderly`).

Arguments are tried one after the other. The first that fails is given up, with the cursor where it was before the attempt, so
arguments are never complained about, and the cursor stands behind the last that was collected: `arguments_collected`.

`rules_progress` has these results together with the end of the recursion.
-/
import LetScript.Proofs.Parsing.Recursion
import LetScript.Proofs.Parsing.Speculation

namespace LetScript.Parsing

variable {α β : Type}

/-! ## Replies -/

theorem Twin.refl (c : Cursor) : Twin c c := ⟨rfl, rfl⟩

/-- two replies are the same but for the furthest complaint of the cursors that they left behind -/
inductive SameReply : Reply α → Reply α → Prop where
  | ok {a : α} {next next' : Cursor} (twin : Twin next next') : SameReply (.ok a next) (.ok a next')
  | fail {complaint : Complaint} {next next' : Cursor} (twin : Twin next next') :
      SameReply (.fail complaint next) (.fail complaint next')
  | unreadable {token : Token} {next next' : Cursor} (twin : Twin next next') :
      SameReply (.unreadable token next) (.unreadable token next')

/-! ## Orderly parsers -/

/-- a parser leaves a cursor further on, and does the same whatever the furthest complaint is -/
def Orderly (p : Parser α) : Prop := ∀ c c', Twin c c' → SameReply (p c) (p c') ∧ Beyond c (p c).next

namespace Orderly

variable {p q : Parser α}

theorem pure (a : α) : Orderly (Pure.pure a : Parser α) := fun c _ hc => ⟨.ok hc, .refl c⟩

theorem refuse (token : Token) : Orderly (Parsing.refuse token : Parser α) := fun c _ hc => ⟨.unreadable hc, .refl c⟩

theorem complain (wanted : Wanted) : Orderly (fun c => .fail (c.complaint wanted) c : Parser α) := by
  intro c c' hc
  refine ⟨?_, .refl c⟩
  change SameReply (.fail (c.complaint wanted) c) (.fail (c'.complaint wanted) c')
  rw [hc.complaint wanted]
  exact .fail hc

theorem bind {go : α → Parser β} (hp : Orderly p) (hgo : ∀ a, Orderly (go a)) : Orderly (p >>= go) := by
  intro c c' hc
  obtain ⟨hsame, hbeyond⟩ := hp c c' hc
  rw [bind_apply, bind_apply]
  generalize p c = reply at hsame hbeyond ⊢
  generalize p c' = reply' at hsame ⊢
  cases hsame with
  | @ok a next next' twin =>
    obtain ⟨hlast, hfurther⟩ := hgo a next next' twin
    exact ⟨hlast, hbeyond.trans hfurther⟩
  | fail twin => exact ⟨.fail twin, hbeyond⟩
  | unreadable twin => exact ⟨.unreadable twin, hbeyond⟩

/-- a question about the next token -/
theorem observe {question : Cursor → α} {go : α → Parser β} (answer : Option Token → α)
    (hq : ∀ c, question c = answer c.rest.head?) (hgo : ∀ x, Orderly (go x)) : Orderly (Parsing.look question >>= go) := by
  intro c c' hc
  rw [look_bind, look_bind, hq, hq, ← hc.rest]
  exact hgo _ c c' hc

theorem either {question : Cursor → Bool} (answer : Option Token → Bool) (hq : ∀ c, question c = answer c.rest.head?)
    (hp : Orderly p) (hp' : Orderly q) : Orderly (do if ← Parsing.look question then p else q) :=
  observe answer hq fun x => by
    cases x with
    | true => exact hp
    | false => exact hp'

/-! ### Single tokens -/

/-- a parser that decides by the next token whether to take it or to complain -/
theorem token {p : Parser Token} (accepts : Token → Bool) (wanted : Option Token → Wanted)
    (hp : ∀ c, p c = match c.rest with
      | t :: ts => if accepts t = true then .ok t { c with rest := ts } else .fail (c.complaint (wanted (some t))) c
      | [] => .fail (c.complaint (wanted none)) c) : Orderly p := by
  intro c c' hc
  rw [hp, hp, ← hc.rest]
  cases hr : c.rest with
  | nil => exact complain _ c c' hc
  | cons t ts =>
    dsimp only
    split_ifs
    · exact ⟨.ok ⟨rfl, hc.stop⟩, ⟨hr ▸ List.suffix_cons t ts, rfl⟩⟩
    · exact complain _ c c' hc

theorem advance : Orderly Parsing.advance :=
  token (fun _ => true) (fun _ => .more) fun c => by
    unfold Parsing.advance
    cases c.rest <;> rfl

theorem expectKind (kind : TokenKind) : Orderly (Parsing.expectKind kind) :=
  token (fun t => t.kind = kind) (fun _ => .kind kind) fun c => by
    unfold Parsing.expectKind
    cases c.rest with
    | nil => rfl
    | cons t ts => simp only [decide_eq_true_eq]

theorem expect (kind : TokenKind) (lexemes : List String) : Orderly (Parsing.expect kind lexemes) :=
  token (Token.isOneOf kind lexemes) (fun head => if headKind kind head = true then .oneOf lexemes else .kind kind) fun c => by
    unfold Parsing.expect
    cases c.rest with
    | nil => rfl
    | cons t ts =>
      by_cases hkind : t.kind = kind
      · simp [hkind, Token.isOneOf, headKind]
      · simp [hkind, Token.isOneOf, headKind]

/-! ### Rules -/

theorem number : Orderly Parsing.number := by
  refine (expectKind .number).bind fun t => ?_
  cases Numeral.read t.lexeme with
  | some n => exact pure _
  | none => exact refuse t

section

variable {e : Parser Node} (he : Orderly e)

include he

theorem group : Orderly (Parsing.group e) :=
  (expect _ _).bind fun _ => he.bind fun _ => (expect _ _).bind fun _ => pure _

theorem letBinding : Orderly (Parsing.letBinding e) :=
  advance.bind fun _ => (expectKind _).bind fun _ => (expect _ _).bind fun _ => he.bind fun _ => pure _

theorem atMostOnce (operators : List String) : Orderly (Parsing.atMostOnce operators e) := by
  refine he.bind fun left => either _ (sees_eq _ _) ?_ (pure _)
  exact advance.bind fun _ => he.bind fun _ => pure _

theorem operandRound (operators : List String) {more : Node → Parser Node} (hmore : ∀ left, Orderly (more left))
    (left : Node) : Orderly (Parsing.operandRound operators e more left) := by
  refine either _ (sees_eq _ _) ?_ (pure _)
  exact advance.bind fun _ => he.bind fun _ => hmore _

/-- where an attempt is given up, the cursor goes back to where it was -/
theorem speculativeRound {more : Parser (List Node)} (hmore : Orderly more) : Orderly (Parsing.speculativeRound e more) := by
  intro c c' hc
  have hstop : (c'.atEnd || c'.sees .symbol [";"]) = (c.atEnd || c.sees .symbol [";"]) := by
    simp only [atEnd_eq, sees_eq, hc.rest]
  unfold Parsing.speculativeRound
  rw [hstop]
  split_ifs
  · exact ⟨.ok hc, .refl c⟩
  · obtain ⟨hsame, hbeyond⟩ := he c c' hc
    generalize e c = reply at hsame hbeyond ⊢
    generalize e c' = reply' at hsame ⊢
    cases hsame with
    | @ok first next next' twin =>
      obtain ⟨hothers, hfurther⟩ := hmore next next' twin
      dsimp only
      generalize more next = answer at hothers hfurther ⊢
      generalize more next' = answer' at hothers ⊢
      have hlast := hbeyond.trans hfurther
      cases hothers with
      | ok twin => exact ⟨.ok twin, hlast⟩
      | fail twin => exact ⟨.fail twin, hlast⟩
      | unreadable twin => exact ⟨.unreadable twin, hlast⟩
    | @fail complaint next next' twin =>
      refine ⟨.ok ⟨hc.rest, ?_⟩, ⟨List.suffix_rfl, ?_⟩⟩
      · exact ((remember_stop next complaint).trans twin.stop).trans (remember_stop next' complaint).symm
      · exact (remember_stop next complaint).trans hbeyond.stop
    | unreadable twin => exact ⟨.unreadable twin, hbeyond⟩

end

theorem parameterRound {more : Parser (List Json)} (hmore : Orderly more) : Orderly (Parsing.parameterRound more) :=
  either _ (seesKind_eq _) (advance.bind fun _ => hmore.bind fun _ => pure _) (pure _)

end Orderly

/-! ## The recursion -/

namespace Rule

/-- **A body is orderly when all calls are.** -/
theorem body_orderly {call : Table} (h : ∀ (β : Type) (called : Rule β), Orderly (call β called)) (rule : Rule α) :
    Orderly (rule.body call) := by
  have hexpression : Orderly (call _ .expression) := h _ .expression
  cases rule with
  | statements position => exact .observe _ (openingPosition_eq position) fun _ => (h _ .statementRun).bind fun _ => .pure _
  | statementRun =>
    refine .either _ closes_eq (.pure _) ((h _ .statement).bind fun _ => .either _ (sees_eq _ _) ?_ (.pure _))
    exact Orderly.advance.bind fun _ => (h _ .statementRun).bind fun _ => .pure _
  | statement =>
    refine .either _ (sees_eq _ _) ?_ (.either _ seesLet_eq (h _ .letBinding) hexpression)
    exact Orderly.advance.bind fun _ => hexpression.bind fun _ => .pure _
  | letBinding => exact hexpression.letBinding
  | loop => exact Orderly.advance.bind fun _ => (h _ .loopCount).bind fun _ => hexpression.bind fun _ => .pure _
  | loopCount =>
    refine .either _ (seesKind_eq _) ?_ (.either _ (sees_eq _ _) (h _ .group) (h _ .number))
    exact Orderly.advance.bind fun _ => .pure _
  | expression => exact .either _ (sees_eq _ _) (h _ .lambda) (.either _ (sees_eq _ _) (h _ .conditional) (h _ .equality))
  | conditional =>
    refine (Orderly.expect _ _).bind fun _ => (h _ .equality).bind fun _ => (Orderly.expect _ _).bind fun _ => ?_
    exact hexpression.bind fun _ => (Orderly.expect _ _).bind fun _ => hexpression.bind fun _ => .pure _
  | lambda =>
    refine (Orderly.expect _ _).bind fun _ => (h _ .parameterRun).bind fun _ => (Orderly.expect _ _).bind fun _ => ?_
    exact hexpression.bind fun _ => .pure _
  | parameterRun => exact (h _ .parameterRun).parameterRound
  | equality => exact (h _ .relational).atMostOnce _
  | relational => exact (h _ .additive).atMostOnce _
  | additive => exact (h _ .term).bind fun left => h _ (.additiveRun left)
  | additiveRun left => exact (h _ .term).operandRound _ (fun left => h _ (.additiveRun left)) left
  | term => exact (h _ .factor).bind fun left => h _ (.termRun left)
  | termRun left => exact (h _ .factor).operandRound _ (fun left => h _ (.termRun left)) left
  | factor =>
    refine .either _ (sees_eq _ _) (h _ .group) (.either _ (sees_eq _ _) (h _ .loop) (.either _ (sees_eq _ _) ?_ ?_))
    · refine Orderly.advance.bind fun brace => (h _ (.statements brace.position)).bind fun _ => ?_
      exact (Orderly.expect _ _).bind fun _ => .pure _
    · refine .either _ (seesKind_eq _) (Orderly.advance.bind fun _ => (h _ .arguments).bind fun args => ?_) (h _ .number)
      split_ifs
      · exact .pure _
      · exact .pure _
  | group => exact hexpression.group
  | arguments => exact hexpression.speculativeRound (h _ .arguments)
  | number => exact .number

theorem unrolled_orderly (bottom : Table) (h : ∀ (β : Type) (called : Rule β), Orderly (bottom β called)) (depth : ℕ)
    (rule : Rule α) : Orderly (unrolled bottom depth α rule) := by
  induction depth generalizing α with
  | zero => exact h α rule
  | succ depth ih => exact body_orderly (fun β called => ih called) rule

/-- **Every rule is orderly**: unrolled deep enough, the recursion is the parser, whatever the furthest complaint is. -/
theorem parser_orderly (rule : Rule α) : Orderly rule.parser := by
  intro c c' hc
  let bottom : Table := fun _ _ c => .fail (c.complaint .more) c
  have horderly := unrolled_orderly bottom (fun _ _ => .complain .more)
    (10 * c.rest.length + rule.level + 1) rule c c' hc
  rw [unrolled_eq bottom rule c (Nat.lt_succ_self _), unrolled_eq bottom rule c' (by rw [← hc.rest]; exact Nat.lt_succ_self _)]
    at horderly
  exact horderly

/-! ## Arguments -/

/-- expressions one after the other, up to a semicolon, the end, or one that fails; the cursor stands behind the last -/
inductive Collected : Cursor → List Node → Cursor → Prop where
  | none {c next : Cursor} (back : Twin c next)
      (stopped : (c.atEnd || c.sees .symbol [";"]) = true ∨
        ∃ complaint after, Rule.expression.parser c = .fail complaint after) : Collected c [] next
  | more {c next last : Cursor} {first : Node} {others : List Node} (argument : Rule.expression.parser c = .ok first next)
      (behind : Collected next others last) : Collected c (first :: others) last

/-- **Arguments are never complained about**, and the cursor stands behind the last one. -/
theorem arguments_collected (c : Cursor) :
    (∃ args next, Rule.arguments.parser c = .ok args next ∧ Collected c args next) ∨
      ∃ token next, Rule.arguments.parser c = .unreadable token next := by
  induction hn : c.rest.length using Nat.strong_induction_on generalizing c with
  | _ n ih =>
    have hround : Rule.arguments.parser c = speculativeRound Rule.expression.parser Rule.arguments.parser c :=
      congrFun (parser_eq_body .arguments) c
    rw [hround]
    unfold speculativeRound
    split_ifs with hstop
    · exact Or.inl ⟨[], c, rfl, .none (.refl c) (Or.inl hstop)⟩
    · cases hfirst : Rule.expression.parser c with
      | ok first next =>
        have htaken : next.rest.length + 1 ≤ c.rest.length := parser_takes .expression hfirst
        dsimp only
        rcases ih next.rest.length (by omega) next rfl with ⟨others, last, hothers, hcollected⟩ | ⟨token, last, hunreadable⟩
        · rw [hothers]
          exact Or.inl ⟨first :: others, last, rfl, .more hfirst hcollected⟩
        · rw [hunreadable]
          exact Or.inr ⟨token, last, rfl⟩
      | fail complaint next =>
        have hbeyond := (parser_orderly .expression c c (.refl c)).2
        rw [hfirst] at hbeyond
        have hback : (next.remember complaint).stop = c.stop := (remember_stop next complaint).trans hbeyond.stop
        exact Or.inl ⟨[], _, rfl, .none ⟨rfl, hback.symm⟩ (Or.inr ⟨complaint, next, hfirst⟩)⟩
      | unreadable token next => exact Or.inr ⟨token, next, rfl⟩

/-! ## Progress -/

/-- **Every rule ends, and makes progress.** Before any tokens, the recursion never goes deeper than the tokens and the level of
the rule ask for. The rule leaves a cursor further on in the same list, however it ends, and a success takes the tokens that it
takes at least. The furthest complaint so far changes nothing but itself. Arguments end in the expressions that were collected,
with the cursor behind the last, or at a number that cannot be read. -/
theorem rules_progress (rule : Rule α) (c : Cursor) :
    (∀ (bottom : Table) (depth : ℕ), 10 * c.rest.length + rule.level < depth →
        unrolled bottom depth α rule c = rule.parser c) ∧
      Beyond c (rule.parser c).next ∧
      (∀ a next, rule.parser c = .ok a next → next.rest.length + rule.least ≤ c.rest.length) ∧
      (∀ furthest, SameReply (rule.parser c) (rule.parser { c with furthest := furthest })) ∧
      ((∃ args next, Rule.arguments.parser c = .ok args next ∧ Collected c args next) ∨
        ∃ token next, Rule.arguments.parser c = .unreadable token next) := by
  refine ⟨fun bottom depth h => unrolled_eq bottom rule c h, (parser_orderly rule c c (.refl c)).2,
    fun a next h => parser_takes rule h, fun furthest => ?_, arguments_collected c⟩
  exact (parser_orderly rule c { c with furthest := furthest } ⟨rfl, rfl⟩).1

/-- an opening parenthesis and nothing else is given up as an argument, and the cursor goes back before it -/
theorem rules_progress_rewound :
    unrolled (fun _ _ c => .fail (c.complaint .more) c) 20 _ .arguments (Cursor.start [⟨.paren, "(", 0⟩]) =
      .ok [] ⟨[⟨.paren, "(", 0⟩], 1, some ⟨none, .kind .number, 1⟩⟩ :=
  ((rules_progress .arguments (Cursor.start [⟨.paren, "(", 0⟩])).1 _ 20 (by decide)).trans rfl

end Rule

end LetScript.Parsing
