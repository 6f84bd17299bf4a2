/-
A semicolon closes an expression as the end of the input does.

The predictive parser asks for an operator, an argument or a parameter; a semicolon is none of these, and neither is the end.
So an expression that takes all tokens also takes them before a semicolon, with the same result (`Closing`). Only statements
tell the two apart: a semicolon after the last one lets them go on. Hence programs can be joined: where all tokens of the first
are taken and its last statement has no semicolon after it, a semicolon and the tokens of the second may follow, and the
statements are those of both: `statementLoop_join`.
-/
import LetScript.Proofs.Parsing.Lookahead

namespace LetScript.Parsing

variable {α β : Type}

/-- a semicolon -/
def IsSemicolon (t : Token) : Prop := t.isOneOf .symbol [";"] = true

/-- an answer that is the same at a semicolon and at the end -/
def SameAtEnd (answer : Option Token → β) : Prop := ∀ t, IsSemicolon t → answer (some t) = answer none

theorem headIs_sameAtEnd (kind : TokenKind) (lexemes : List String) (h : kind ≠ .symbol ∨ ";" ∉ lexemes) :
    SameAtEnd (headIs kind lexemes) := by
  intro t ht
  simp only [IsSemicolon, Token.isOneOf, Bool.and_eq_true, decide_eq_true_eq, List.contains_cons, List.contains_nil,
    Bool.or_false, beq_iff_eq] at ht
  simp only [headIs, Option.any_some, Option.any_none, Token.isOneOf, ht.1, ht.2, Bool.and_eq_false_iff,
    decide_eq_false_iff_not, List.contains_eq_mem]
  exact h.imp Ne.symm id

theorem headKind_sameAtEnd (kind : TokenKind) (h : kind ≠ .symbol) : SameAtEnd (headKind kind) := by
  intro t ht
  simp only [IsSemicolon, Token.isOneOf, Bool.and_eq_true, decide_eq_true_eq] at ht
  simp only [headKind, Option.any_some, Option.any_none, ht.1, decide_eq_false_iff_not]
  exact Ne.symm h

theorem headStarts_sameAtEnd : SameAtEnd headStarts := by
  intro t ht
  simp only [headStarts, headIs_sameAtEnd .symbol ["\\"] (Or.inr (by decide)) t ht,
    headIs_sameAtEnd .keyword _ (Or.inl (by decide)) t ht, headIs_sameAtEnd .paren _ (Or.inl (by decide)) t ht,
    headKind_sameAtEnd .identifier (by decide) t ht, headKind_sameAtEnd .number (by decide) t ht]

/-! ## Parsers that close -/

/-- with fewer than `n` tokens left: a success that takes all of them is one before a semicolon too -/
def Closing (n : ℕ) (p : Parser α) : Prop :=
  ∀ w s f a, w.length < n → p ⟨w, s, f⟩ = .ok a ⟨[], s, f⟩ →
    ∀ t k s' f', IsSemicolon t → p ⟨w ++ t :: k, s', f'⟩ = .ok a ⟨t :: k, s', f'⟩

namespace Closing

variable {n m b : ℕ} {Q : Option Token → Prop} {p : Parser α}

theorem mono (h : Closing n p) (hm : m ≤ n) : Closing m p := fun w s f a hw => h w s f a (hw.trans_le hm)

theorem pure (n : ℕ) (a : α) : Closing n (Pure.pure a : Parser α) := by
  intro w s f a' _ h
  cases h
  exact fun _ _ _ _ _ => rfl

/-- a parser of one token has taken it -/
theorem of_single {p : Parser Token} (h : ∀ w s f t next, p ⟨w, s, f⟩ = .ok t next →
    ∃ ts, w = t :: ts ∧ next = ⟨ts, s, f⟩ ∧ ∀ ts' s' f', p ⟨t :: ts', s', f'⟩ = .ok t ⟨ts', s', f'⟩) : Closing n p := by
  intro w s f a _ hok t k s' f' _
  obtain ⟨ts, rfl, hnext, hall⟩ := h w s f a _ hok
  cases hnext
  exact hall _ _ _

theorem advance (n : ℕ) : Closing n Parsing.advance := by
  refine of_single fun w s f t next h => ?_
  cases w with
  | nil => cases h
  | cons x ts =>
    cases h
    exact ⟨ts, rfl, rfl, fun _ _ _ => rfl⟩

theorem expectKind (n : ℕ) (kind : TokenKind) : Closing n (Parsing.expectKind kind) := by
  refine of_single fun w s f t next h => ?_
  cases w with
  | nil => cases h
  | cons x ts =>
    by_cases hk : x.kind = kind
    · have hall : ∀ ts' s' f', Parsing.expectKind kind ⟨x :: ts', s', f'⟩ = .ok x ⟨ts', s', f'⟩ := fun _ _ _ => if_pos hk
      rw [hall] at h
      cases h
      exact ⟨ts, rfl, rfl, hall⟩
    · have hfail : Parsing.expectKind kind ⟨x :: ts, s, f⟩ = .fail _ ⟨x :: ts, s, f⟩ := if_neg hk
      rw [hfail] at h
      cases h

theorem expect (n : ℕ) (kind : TokenKind) (lexemes : List String) : Closing n (Parsing.expect kind lexemes) := by
  refine of_single fun w s f t next h => ?_
  cases hm : headIs kind lexemes w.head? with
  | false =>
    obtain ⟨wanted, hfail⟩ := expect_of_not (c := ⟨w, s, f⟩) hm
    rw [hfail] at h
    cases h
  | true =>
    cases w with
    | nil => cases hm
    | cons x ts =>
      have hx : x.kind = kind ∧ lexemes.contains x.lexeme = true := by
        simpa only [headIs, List.head?_cons, Option.any_some, Token.isOneOf, Bool.and_eq_true, decide_eq_true_eq] using hm
      have hall : ∀ ts' s' f', Parsing.expect kind lexemes ⟨x :: ts', s', f'⟩ = .ok x ⟨ts', s', f'⟩ := by
        intro ts' s' f'
        simp only [Parsing.expect, hx, ne_eq, not_true, if_false, if_true]
      rw [hall] at h
      cases h
      exact ⟨ts, rfl, rfl, hall⟩

/-- what follows a parser that has left tokens, is asked the same question with more tokens behind them -/
theorem bind_of {go : α → Parser β} (hp : OneAhead n b Q p) (hgo : ∀ a, Closing (n - b) (go a))
    (hlast : ∀ w s f a c, w.length < n → p ⟨w, s, f⟩ = .ok a ⟨[], s, f⟩ → go a ⟨[], s, f⟩ = .ok c ⟨[], s, f⟩ →
      ∀ t k s' f', IsSemicolon t → p ⟨w ++ t :: k, s', f'⟩ = .ok a ⟨t :: k, s', f'⟩) : Closing n (p >>= go) := by
  intro w s f c hw h t k s' f' ht
  have hahead := hp w s f hw
  rw [bind_apply] at h
  generalize hr : p ⟨w, s, f⟩ = reply at hahead h
  cases hahead with
  | fail => cases h
  | unreadable => cases h
  | @ok u r a split taken same =>
    have hlength : r.length < n - b := by
      have := congrArg List.length split
      simp only [List.length_append] at this
      omega
    have hnext := hgo a r s f c hlength h t k s' f' ht
    cases r with
    | nil => exact (bind_ok (hlast w s f a c hw hr h t k s' f' ht)).trans hnext
    | cons x xs =>
      have hfirst := same (x :: xs ++ t :: k) s' f' rfl
      rw [split, List.append_assoc]
      exact (bind_ok hfirst).trans hnext

/-- a sequence closes when its parts do -/
theorem bind {go : α → Parser β} (hp : OneAhead n b Q p) (h : Closing n p) (hgo : ∀ a, Closing (n - b) (go a)) :
    Closing n (p >>= go) :=
  bind_of hp hgo fun w s f a _ hw ha _ => h w s f a hw ha

theorem andThen {go : α → Parser β} (hp : OneAhead n b Q p) (h : Closing n p) (hgo : ∀ a, Closing n (go a)) :
    Closing n (p >>= go) :=
  bind (hp.weaken le_rfl) h hgo

/-- what stands before a token that has to come need not close -/
theorem before {go : α → Parser β} (hp : OneAhead n b Q p) (hgo : ∀ a, Closing n (go a))
    (hneeds : ∀ a s f c, go a ⟨[], s, f⟩ ≠ .ok c ⟨[], s, f⟩) : Closing n (p >>= go) :=
  bind_of (hp.weaken le_rfl) hgo fun _ s f a c _ _ hc => absurd hc (hneeds a s f c)

/-- two ways to go on, chosen by an answer that a semicolon does not change -/
theorem either {question : Cursor → Bool} {q : Parser α} (answer : Option Token → Bool)
    (hq : ∀ c, question c = answer c.rest.head?) (hs : SameAtEnd answer) (h : Closing n p) (h' : Closing n q) :
    Closing n (do if ← Parsing.look question then p else q) := by
  intro w s f a hw hok t k s' f' ht
  have hanswer : answer (w ++ t :: k).head? = answer w.head? := by
    cases w with
    | nil => exact hs t ht
    | cons x xs => rfl
  rw [look_bind, hq] at hok ⊢
  dsimp only at hok ⊢
  rw [hanswer]
  cases hx : answer w.head? with
  | true =>
    rw [hx] at hok
    exact h w s f a hw hok t k s' f' ht
  | false =>
    rw [hx] at hok
    exact h' w s f a hw hok t k s' f' ht

/-! ### Rules -/

theorem number (n : ℕ) : Closing n Parsing.number := by
  refine bind (OneAhead.expectKind n .number) (expectKind n .number) fun t => ?_
  cases Numeral.read t.lexeme with
  | some i => exact pure _ _
  | none => exact fun _ _ _ _ _ h => by cases h

section

variable {e : Parser Node} (ho : OneAhead n 1 Q e) (he : Closing n e)

include ho he

theorem group : Closing (n + 1) (Parsing.group e) :=
  bind (OneAhead.expect _ _ _) (expect _ _ _) fun _ => andThen ho he fun _ =>
    andThen (OneAhead.expect _ _ _) (expect _ _ _) fun _ => pure _ _

theorem loopCount : Closing (n + 1) (Parsing.loopCount e) :=
  either _ (seesKind_eq _) (headKind_sameAtEnd _ (by decide)) (bind (OneAhead.advance _) (advance _) fun _ => pure _ _)
    (either _ (sees_eq _ _) (headIs_sameAtEnd _ _ (Or.inl (by decide))) (group ho he) (number _))

theorem loop : Closing (n + 1) (Parsing.loop e) :=
  bind (OneAhead.advance _) (advance _) fun _ =>
    andThen (ho.loopCount.weaken (Nat.le_succ n)) ((loopCount ho he).mono (Nat.le_succ n)) fun _ =>
    andThen ho he fun _ => pure _ _

theorem letBinding : Closing (n + 1) (Parsing.letBinding e) :=
  bind (OneAhead.advance _) (advance _) fun _ => andThen (OneAhead.expectKind _ _) (expectKind _ _) fun _ =>
    andThen (OneAhead.expect _ _ _) (expect _ _ _) fun _ => andThen ho he fun _ => pure _ _

theorem statement : Closing n (Parsing.statement e) := by
  have hlet : SameAtEnd headLet := by
    intro t ht
    simp only [headLet, headIs_sameAtEnd .identifier _ (Or.inl (by decide)) t ht,
      headIs_sameAtEnd .keyword _ (Or.inl (by decide)) t ht]
  refine either _ (sees_eq _ _) (headIs_sameAtEnd _ _ (Or.inl (by decide))) ?_
    (either _ seesLet_eq hlet ((letBinding ho he).mono (Nat.le_succ n)) he)
  exact andThen (OneAhead.advance _) (advance _) fun _ => andThen ho he fun _ => pure _ _

omit he in
/-- the statements of a block stand before its closing brace -/
theorem block (hc : Consumes e) : Closing (n + 1) (Parsing.block e) :=
  bind (OneAhead.advance _) (advance _) fun _ => before (ho.statements hc _)
    (fun _ => andThen (OneAhead.expect _ _ _) (expect _ _ _) fun _ => pure _ _) fun _ _ _ _ h => by cases h

theorem operandLoop (operators : List String) (hc : Consumes e) (left : Node) :
    Closing n (Parsing.operandLoop operators e left) := by
  induction n generalizing left with
  | zero => exact fun _ _ _ _ h => by cases h
  | succ n ih =>
    have ho' := ho.mono (R := Q) (Nat.le_succ n) le_rfl fun _ h => h
    have he' := he.mono (Nat.le_succ n)
    rw [operandLoop_unfold operators hc]
    refine either _ (sees_eq _ _) (headIs_sameAtEnd _ _ (Or.inl (by decide))) ?_ (pure _ _)
    exact bind (OneAhead.advance _) (advance _) fun _ => andThen ho' he' fun _ => ih ho' he' _

theorem leftChain (operators : List String) (hc : Consumes e) : Closing n (Parsing.leftChain operators e) := by
  rw [leftChain_eq]
  exact andThen ho he fun left => operandLoop ho he operators hc left

theorem atMostOnce (operators : List String) : Closing n (Parsing.atMostOnce operators e) := by
  refine andThen ho he fun _ => either _ (sees_eq _ _) (headIs_sameAtEnd _ _ (Or.inl (by decide))) ?_ (pure _ _)
  exact andThen (OneAhead.advance _) (advance _) fun _ => andThen ho he fun _ => pure _ _

/-- the parameters stand before an arrow -/
theorem lambda : Closing (n + 1) (Parsing.lambda e) := by
  rw [lambda_eq]
  refine bind (OneAhead.expect _ _ _) (expect _ _ _) fun _ => before (OneAhead.parameterLoop _) (fun _ => ?_) ?_
  · exact andThen (OneAhead.expect _ _ _) (expect _ _ _) fun _ => andThen ho he fun _ => pure _ _
  · exact fun _ _ _ _ h => by cases h

theorem predictive (hc : Consumes e) : Closing n (Parsing.predictive e) := by
  induction n with
  | zero => exact fun _ _ _ _ h => by cases h
  | succ n ih =>
    have ho' := ho.mono (R := Q) (Nat.le_succ n) le_rfl fun _ h => h
    have hmore := ih ho' (he.mono (Nat.le_succ n))
    rw [predictive_unfold hc]
    refine either _ startsExpression_eq headStarts_sameAtEnd (bind ho he fun _ => ?_) (pure _ _)
    exact andThen (ho'.predictive hc) hmore fun _ => pure _ _

/-! ### Expressions -/

theorem application (hc : Consumes e) : Closing (n + 1) (Parsing.application Parsing.predictive e) := by
  refine bind (OneAhead.advance _) (advance _) fun _ => andThen (ho.predictive hc) (predictive ho he hc) fun args => ?_
  split_ifs
  · exact pure _ _
  · exact pure _ _

theorem factor (hc : Consumes e) : Closing (n + 1) (Parsing.factor Parsing.predictive e) := by
  refine either _ (sees_eq _ _) (headIs_sameAtEnd _ _ (Or.inl (by decide))) (group ho he) ?_
  refine either _ (sees_eq _ _) (headIs_sameAtEnd _ _ (Or.inl (by decide))) (loop ho he) ?_
  refine either _ (sees_eq _ _) (headIs_sameAtEnd _ _ (Or.inl (by decide))) (block ho hc) ?_
  exact either _ (seesKind_eq _) (headKind_sameAtEnd _ (by decide)) (application ho he hc) (number _)

theorem equality (hc : Consumes e) : Closing (n + 1) (Parsing.equality Parsing.predictive e) := by
  have hf : Consumes (Parsing.factor Parsing.predictive e) := fun n =>
    ((hc n).factor predictive_steady).mono (Nat.le_succ n) le_rfl
  have hterm : Consumes (term Parsing.predictive e) := fun n => (hf n).leftChain _
  have ho₁ := (ho.factor hc).leftChain multiplicativeOperators hf
  have he₁ := leftChain (ho.factor hc) (factor ho he hc) multiplicativeOperators hf
  have ho₂ := ho₁.leftChain additiveOperators hterm
  have he₂ := leftChain ho₁ he₁ additiveOperators hterm
  exact atMostOnce (ho₂.atMostOnce relationalOperators) (atMostOnce ho₂ he₂ relationalOperators) equalityOperators

theorem conditional (hc : Consumes e) : Closing (n + 1) (Parsing.conditional Parsing.predictive e) := by
  refine bind (OneAhead.expect _ _ _) (expect _ _ _) fun _ =>
    andThen ((ho.equality hc).weaken (Nat.le_succ n)) ((equality ho he hc).mono (Nat.le_succ n)) fun _ => ?_
  exact andThen (OneAhead.expect _ _ _) (expect _ _ _) fun _ => andThen ho he fun _ =>
    andThen (OneAhead.expect _ _ _) (expect _ _ _) fun _ => andThen ho he fun _ => pure _ _

theorem expressionStep (hc : Consumes e) : Closing (n + 1) (Parsing.expressionStep Parsing.predictive e) := by
  refine either _ (sees_eq _ _) (headIs_sameAtEnd _ _ (Or.inr (by decide))) (lambda ho he) ?_
  exact either _ (sees_eq _ _) (headIs_sameAtEnd _ _ (Or.inl (by decide))) (conditional ho he hc) (equality ho he hc)

end

end Closing

/-- **An expression closes.** -/
theorem expression_closing (n : ℕ) : Closing n (expression predictive) := by
  induction n with
  | zero => exact fun _ _ _ _ h => by cases h
  | succ n ih =>
    rw [expression_unfold predictive_steady]
    exact Closing.expressionStep (expression_oneAhead n) ih predictive_consumes

/-! ## Joining programs -/

section

variable {e : Parser Node} (hc : Consumes e) {w : List Token} {s : Int} {f : Option Complaint}

include hc

/-- a statement with a semicolon after it, and then more statements -/
theorem statementLoop_of_semicolon {first : Node} {x : Token} {xs : List Token} {others : List Node} {next : Cursor}
    (hopen : headCloses w.head? = false) (hfirst : statement e ⟨w, s, f⟩ = .ok first ⟨x :: xs, s, f⟩) (hx : IsSemicolon x)
    (hothers : statementLoop e ⟨xs, s, f⟩ = .ok others next) :
    statementLoop e ⟨w, s, f⟩ = .ok (first :: others) next := by
  have hsees : Cursor.sees .symbol [";"] ⟨x :: xs, s, f⟩ = true := hx
  rw [statementLoop_unfold hc]
  unfold statementRound
  rw [look_bind, closes_eq, hopen]
  simp only [Bool.false_eq_true, if_false]
  rw [bind_ok hfirst, look_bind, hsees]
  exact (bind_ok (show advance ⟨x :: xs, s, f⟩ = .ok x ⟨xs, s, f⟩ from rfl)).trans (bind_ok hothers)

/-- statements that take all tokens: one that does, or one with a semicolon after it and then more statements -/
theorem statementLoop_cases (ho : ∀ n, OneAhead n 1 noToken e) (hne : w ≠ []) {body : List Node}
    (h : statementLoop e ⟨w, s, f⟩ = .ok body ⟨[], s, f⟩) :
    headCloses w.head? = false ∧ ∃ first r, statement e ⟨w, s, f⟩ = .ok first ⟨r, s, f⟩ ∧
      (r = [] ∧ body = [first] ∨ ∃ x xs others, r = x :: xs ∧ IsSemicolon x ∧ body = first :: others ∧
        statementLoop e ⟨xs, s, f⟩ = .ok others ⟨[], s, f⟩) := by
  rw [statementLoop_unfold hc] at h
  unfold statementRound at h
  rw [look_bind, closes_eq] at h
  cases hclose : headCloses w.head? with
  | true =>
    rw [hclose] at h
    cases h
    exact absurd rfl hne
  | false =>
    rw [hclose] at h
    refine ⟨rfl, ?_⟩
    obtain ⟨first, mid, hfirst, h⟩ := bind_eq_ok h
    have hahead := (ho (w.length + 1)).statement w s f (Nat.lt_succ_self _)
    rw [hfirst] at hahead
    cases hahead with
    | @ok u r _ split taken same =>
      refine ⟨first, r, hfirst, ?_⟩
      rw [look_bind, sees_eq] at h
      cases r with
      | nil =>
        cases h
        exact Or.inl ⟨rfl, rfl⟩
      | cons x xs =>
        cases hsemi : headIs .symbol [";"] (x :: xs).head? with
        | false =>
          rw [hsemi] at h
          cases h
        | true =>
          rw [hsemi] at h
          obtain ⟨semicolon, after, hadv, h⟩ := bind_eq_ok h
          cases hadv
          obtain ⟨others, last, hloop, h⟩ := bind_eq_ok h
          cases h
          exact Or.inr ⟨x, xs, others, rfl, hsemi, rfl, hloop⟩

/-- **Programs can be joined by a semicolon.** -/
theorem statementLoop_join (ho : ∀ n, OneAhead n 1 noToken e) (he : ∀ n, Closing n e) {body : List Node}
    (h : statementLoop e ⟨w, s, f⟩ = .ok body ⟨[], s, f⟩) (hlast : ∃ t, w.getLast? = some t ∧ ¬ IsSemicolon t)
    {t : Token} (ht : IsSemicolon t) {v : List Token} {s' : Int} {f' : Option Complaint} {others : List Node}
    (hv : statementLoop e ⟨v, s', f'⟩ = .ok others ⟨[], s', f'⟩) :
    statementLoop e ⟨w ++ t :: v, s', f'⟩ = .ok (body ++ others) ⟨[], s', f'⟩ := by
  -- by the number of tokens: every statement of the first program has one semicolon less after it
  induction hm : w.length using Nat.strong_induction_on generalizing w body with
  | _ m ih =>
    subst hm
    have hne : w ≠ [] := by
      rintro rfl
      obtain ⟨_, hnone, -⟩ := hlast
      cases hnone
    obtain ⟨hopen, first, r, hfirst, hrest⟩ := statementLoop_cases hc ho hne h
    have hopen' : headCloses (w ++ t :: v).head? = false := by
      rwa [List.head?_append_of_ne_nil w hne]
    rcases hrest with ⟨rfl, rfl⟩ | ⟨x, xs, more, rfl, hx, rfl, hmore⟩
    · have hstatement := (Closing.statement (ho (w.length + 1)) (he _)) w s f first (Nat.lt_succ_self _) hfirst t v s' f' ht
      exact statementLoop_of_semicolon hc hopen' hstatement ht hv
    · have hahead := (ho (w.length + 1)).statement w s f (Nat.lt_succ_self _)
      rw [hfirst] at hahead
      generalize hr : x :: xs = r at hahead
      cases hahead with
      | @ok u _ _ split taken same =>
        subst hr
        have hstatement := same (x :: (xs ++ t :: v)) s' f' rfl
        have hlength : xs.length < w.length := by
          rw [split, List.length_append, List.length_cons]
          omega
        have hlast' : ∃ t, xs.getLast? = some t ∧ ¬ IsSemicolon t := by
          obtain ⟨t', ht', hno⟩ := hlast
          rw [split, List.getLast?_append_of_ne_nil u (List.cons_ne_nil x xs)] at ht'
          cases xs with
          | nil =>
            cases ht'
            exact absurd hx hno
          | cons y ys => exact ⟨t', ht', hno⟩
        rw [split, List.append_assoc, List.cons_append] at hopen' ⊢
        exact statementLoop_of_semicolon hc hopen' hstatement hx (ih _ hlength hmore hlast' rfl)

end

end LetScript.Parsing
