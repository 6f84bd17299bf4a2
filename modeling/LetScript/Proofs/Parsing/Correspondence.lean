/-
What the parser does depends on the kinds and words of the tokens, not on their positions; and what it builds, it builds from
the tokens it takes.

A `Correspondence` relates tokens of the same kind and word, and nodes, such that nodes built from related parts are related:
there is one condition for every way in which the parser builds a node. Then the answers before related tokens are related:
both are results, and these are related; or both are the same complaint about related tokens or about the end; or both are
words of unreadable numbers, which are related.
This holds of every rule, hence of programs: `wholeInput_corresponds`.

A relation between equal tokens and equal nodes is a predicate, so this also says what every parsed tree has in common.
-/
import LetScript.Proofs.Parsing.Speculation

namespace LetScript.Parsing

variable {α β : Type}

/-! ## Related tokens and nodes -/

/-- the operators of all levels -/
def operatorWords : List String := equalityOperators ++ relationalOperators ++ additiveOperators ++ multiplicativeOperators

/-- related tokens, of the same kind and word, and related nodes, among them those built from related parts -/
structure Correspondence where
  token : Token → Token → Prop
  node : Node → Node → Prop
  kind : ∀ {t t'}, token t t' → t'.kind = t.kind
  lexeme : ∀ {t t'}, token t t' → t'.lexeme = t.lexeme
  literal : ∀ {t t' n}, token t t' → Numeral.read t.lexeme = some n →
    node (.literal t.position (.int n)) (.literal t'.position (.int n))
  reference : ∀ {t t'}, token t t' → t.kind = .identifier →
    node (.reference t.position (.text t.lexeme)) (.reference t'.position (.text t.lexeme))
  assign : ∀ {t t' a a'}, token t t' → t.kind = .identifier → node a a' →
    node (.assign t.position (.text t.lexeme) a) (.assign t'.position (.text t.lexeme) a')
  print : ∀ {t t' a a'}, token t t' → node a a' →
    node (.call t.position (.text "print") [a]) (.call t'.position (.text "print") [a'])
  call : ∀ {t t' args args'}, token t t' → t.kind = .identifier → List.Forall₂ node args args' →
    node (.call t.position (.text t.lexeme) args) (.call t'.position (.text t.lexeme) args')
  operation : ∀ {t t' a a' b b'}, token t t' → t.lexeme ∈ operatorWords → node a a' → node b b' →
    node (.operation t.position (.text t.lexeme) a b) (.operation t'.position (.text t.lexeme) a' b')
  lambda : ∀ {t t' params a a'}, token t t' →
    (∀ param ∈ params, ∃ s s', token s s' ∧ s.kind = .identifier ∧ param = .text s.lexeme) → node a a' →
    node (.lambda t.position params a) (.lambda t'.position params a')
  conditional : ∀ {a a' b b' d d'}, node a a' → node b b' → node d d' →
    node (.conditional a.position a b d) (.conditional a'.position a' b' d')
  loop : ∀ {t t' a a' b b'}, token t t' → node a a' → node b b' →
    node (.statements t.position (.text loopMode) [a, b]) (.statements t'.position (.text loopMode) [a', b'])
  block : ∀ {t t' body body'}, token t t' → List.Forall₂ node body body' →
    node (.statements t.position (.text "") body) (.statements t'.position (.text "") body')

/-- lists related item by item to themselves -/
theorem forall₂_diagonal {P : Node → Prop} {nodes nodes' : List Node}
    (h : List.Forall₂ (fun a a' => a' = a ∧ P a) nodes nodes') : nodes' = nodes ∧ ∀ node ∈ nodes, P node := by
  induction h with
  | nil => exact ⟨rfl, fun _ hn => by cases hn⟩
  | cons first _ ih => exact ⟨by rw [first.1, ih.1], List.forall_mem_cons.2 ⟨first.2, ih.2⟩⟩

/-! ## Questions about the next token -/

/-- what the parser sees of a next token -/
def headWord (head : Option Token) : Option (TokenKind × String) := head.map fun t => (t.kind, t.lexeme)

/-- an answer that depends on kind and word only -/
def ByWord (answer : Option Token → α) : Prop := ∀ head head', headWord head' = headWord head → answer head' = answer head

theorem byWord_any {accepts : Token → Bool}
    (h : ∀ t t' : Token, t'.kind = t.kind → t'.lexeme = t.lexeme → accepts t' = accepts t) :
    ByWord fun head => head.any accepts := by
  intro head head' hw
  cases head with
  | none =>
    cases head' with
    | none => rfl
    | some t' => cases hw
  | some t =>
    cases head' with
    | none => cases hw
    | some t' =>
      simp only [headWord, Option.map_some, Option.some.injEq, Prod.mk.injEq] at hw
      exact h t t' hw.1 hw.2

theorem headIs_byWord (kind : TokenKind) (lexemes : List String) : ByWord (headIs kind lexemes) :=
  byWord_any fun t t' hk hl => by simp only [Token.isOneOf, hk, hl]

theorem headKind_byWord (kind : TokenKind) : ByWord (headKind kind) :=
  byWord_any fun t t' hk _ => by simp only [hk]

theorem lexeme_of_headIs {kind : TokenKind} {lexemes : List String} {t : Token} (h : headIs kind lexemes (some t) = true) :
    t.lexeme ∈ lexemes := by
  simp only [headIs, Option.any_some, Token.isOneOf, Bool.and_eq_true, List.contains_iff_mem] at h
  exact h.2

theorem isNone_byWord : ByWord fun head : Option Token => head.isNone := by
  intro head head' hw
  cases head with
  | none => cases head' with
    | none => rfl
    | some t' => cases hw
  | some t => cases head' with
    | none => cases hw
    | some t' => rfl

theorem headStarts_byWord : ByWord headStarts := by
  intro head head' hw
  simp only [headStarts, headIs_byWord _ _ head head' hw, headKind_byWord _ head head' hw]

theorem headLet_byWord : ByWord headLet := by
  intro head head' hw
  simp only [headLet, headIs_byWord _ _ head head' hw]

theorem headCloses_byWord : ByWord headCloses := by
  intro head head' hw
  simp only [headCloses, headIs_byWord _ _ head head' hw, isNone_byWord head head' hw]

theorem headMore_byWord : ByWord headMore := by
  intro head head' hw
  simp only [headMore, isNone_byWord head head' hw]

/-! ## Related answers -/

/-- two complaints ask for the same: instead of related tokens, or of the end of two lists that end at the given positions -/
inductive Complain (C : Correspondence) (s s' : Int) : Complaint → Complaint → Prop where
  | token {t t' : Token} {wanted : Wanted} (related : C.token t t') :
      Complain C s s' ⟨some t, wanted, t.position⟩ ⟨some t', wanted, t'.position⟩
  | stop {wanted : Wanted} : Complain C s s' ⟨none, wanted, s⟩ ⟨none, wanted, s'⟩

/-- two answers, in lists that end at the given positions, are results that are related, before related tokens; or the same
complaint; or related unreadable numbers -/
inductive Alike (C : Correspondence) (R : α → α → Prop) (s s' : Int) : Reply α → Reply α → Prop where
  | ok {a a' : α} {next next' : Cursor} (result : R a a') (rest : List.Forall₂ C.token next.rest next'.rest)
      (stop : next.stop = s) (stop' : next'.stop = s') : Alike C R s s' (.ok a next) (.ok a' next')
  | fail {complaint complaint' : Complaint} {next next' : Cursor} (same : Complain C s s' complaint complaint')
      (stop : next.stop = s) (stop' : next'.stop = s') : Alike C R s s' (.fail complaint next) (.fail complaint' next')
  | unreadable {t t' : Token} {next next' : Cursor} (related : C.token t t') (number : t.kind = .number)
      (unread : Numeral.read t.lexeme = none) : Alike C R s s' (.unreadable t next) (.unreadable t' next')

/-- before related tokens, the first of which satisfies `Q`, the two parsers give related answers -/
def Corresponds (C : Correspondence) (Q : Option Token → Prop) (R : α → α → Prop) (p p' : Parser α) : Prop :=
  ∀ c c', List.Forall₂ C.token c.rest c'.rest → Q c.rest.head? → Alike C R c.stop c'.stop (p c) (p' c')

/-- every first token, and none -/
abbrev anyToken : Option Token → Prop := fun _ => True

namespace Corresponds

variable {C : Correspondence} {Q Q' : Option Token → Prop} {R : α → α → Prop} {S : β → β → Prop} {p p' : Parser α}

theorem head_word {w w' : List Token} (h : List.Forall₂ C.token w w') : headWord w'.head? = headWord w.head? := by
  cases h with
  | nil => rfl
  | cons ht _ => simp only [List.head?_cons, headWord, Option.map_some, C.kind ht, C.lexeme ht]

theorem weaken (h : Corresponds C Q R p p') (hQ : ∀ head, Q' head → Q head) : Corresponds C Q' R p p' :=
  fun c c' hc hq => h c c' hc (hQ _ hq)

theorem pure {a a' : α} (h : R a a') : Corresponds C Q R (Pure.pure a) (Pure.pure a') := fun _ _ hc _ => .ok h hc rfl rfl

theorem bind {go go' : α → Parser β} (h : Corresponds C Q R p p')
    (hgo : ∀ a a', R a a' → Corresponds C anyToken S (go a) (go' a')) : Corresponds C Q S (p >>= go) (p' >>= go') := by
  intro c c' hc hq
  have hp := h c c' hc hq
  rw [bind_apply, bind_apply]
  generalize p c = reply at hp ⊢
  generalize p' c' = reply' at hp ⊢
  cases hp with
  | ok result rest stop stop' =>
    have hnext := hgo _ _ result _ _ rest trivial
    rwa [stop, stop'] at hnext
  | fail same stop stop' => exact .fail same stop stop'
  | unreadable related number unread => exact .unreadable related number unread

/-- a question about kind and word of the next token has one answer -/
theorem observe {question : Cursor → β} {go go' : β → Parser α} (answer : Option Token → β)
    (hq : ∀ c, question c = answer c.rest.head?) (hw : ByWord answer)
    (hgo : ∀ x, Corresponds C (fun head => Q head ∧ answer head = x) R (go x) (go' x)) :
    Corresponds C Q R (Parsing.look question >>= go) (Parsing.look question >>= go') := by
  intro c c' hc hQ
  rw [look_bind, look_bind, hq, hq, hw _ _ (head_word hc)]
  exact hgo _ c c' hc ⟨hQ, rfl⟩

/-- two ways to go on, chosen by the next token -/
theorem either {question : Cursor → Bool} {q q' : Parser α} (answer : Option Token → Bool)
    (hq : ∀ c, question c = answer c.rest.head?) (hw : ByWord answer)
    (hp : Corresponds C (fun head => Q head ∧ answer head = true) R p p')
    (hp' : Corresponds C (fun head => Q head ∧ answer head = false) R q q') :
    Corresponds C Q R (do if ← Parsing.look question then p else q) (do if ← Parsing.look question then p' else q') :=
  observe answer hq hw fun x => by
    cases x with
    | true => exact hp
    | false => exact hp'

/-- the number of tokens left is the same -/
theorem remaining {go go' : ℕ → Parser α} (hgo : ∀ x, Corresponds C Q R (go x) (go' x)) :
    Corresponds C Q R (Parsing.look (·.rest.length) >>= go) (Parsing.look (·.rest.length) >>= go') := by
  intro c c' hc hQ
  rw [look_bind, look_bind, ← hc.length_eq]
  exact hgo _ c c' hc hQ

/-! ### Single tokens -/

/-- related tokens, the first with a property -/
abbrev tokens (C : Correspondence) (P : Token → Prop) : Token → Token → Prop := fun t t' => C.token t t' ∧ P t

/-- the same is wanted instead of what comes next -/
theorem complain {c c' : Cursor} (hc : List.Forall₂ C.token c.rest c'.rest) (wanted : Wanted) :
    Alike C R c.stop c'.stop (.fail (c.complaint wanted) c) (.fail (c'.complaint wanted) c') := by
  refine .fail ?_ rfl rfl
  unfold Cursor.complaint
  generalize c.rest = w at hc
  generalize c'.rest = w' at hc
  cases hc with
  | nil => exact .stop
  | cons ht _ => exact .token ht

theorem advance : Corresponds C Q (tokens C fun t => Q (some t)) Parsing.advance Parsing.advance := by
  intro c c' hc hq
  have hfail := complain (R := tokens C fun t => Q (some t)) hc .more
  unfold Parsing.advance
  cases hr : c.rest with
  | nil =>
    rw [hr] at hc
    rw [List.forall₂_nil_left_iff.1 hc]
    exact hfail
  | cons t ts =>
    rw [hr] at hc hq
    obtain ⟨t', ts', ht, hts, hr'⟩ := List.forall₂_cons_left_iff.1 hc
    rw [hr']
    exact .ok ⟨ht, hq⟩ hts rfl rfl

theorem expectKind (kind : TokenKind) :
    Corresponds C Q (tokens C fun t => t.kind = kind) (Parsing.expectKind kind) (Parsing.expectKind kind) := by
  intro c c' hc _
  have hfail := complain (R := tokens C fun t => t.kind = kind) hc (.kind kind)
  unfold Parsing.expectKind
  cases hr : c.rest with
  | nil =>
    rw [hr] at hc
    rw [List.forall₂_nil_left_iff.1 hc]
    exact hfail
  | cons t ts =>
    rw [hr] at hc
    obtain ⟨t', ts', ht, hts, hr'⟩ := List.forall₂_cons_left_iff.1 hc
    simp only [hr', C.kind ht]
    split_ifs with hk
    · exact .ok ⟨ht, hk⟩ hts rfl rfl
    · exact hfail

theorem expect (kind : TokenKind) (lexemes : List String) :
    Corresponds C Q (tokens C fun _ => True) (Parsing.expect kind lexemes) (Parsing.expect kind lexemes) := by
  intro c c' hc _
  have hfail := complain (R := tokens C fun _ => True) hc
  unfold Parsing.expect
  cases hr : c.rest with
  | nil =>
    rw [hr] at hc
    rw [List.forall₂_nil_left_iff.1 hc]
    exact hfail _
  | cons t ts =>
    rw [hr] at hc
    obtain ⟨t', ts', ht, hts, hr'⟩ := List.forall₂_cons_left_iff.1 hc
    simp only [hr', C.kind ht, C.lexeme ht]
    split_ifs
    · exact hfail _
    · exact .ok ⟨ht, trivial⟩ hts rfl rfl
    · exact hfail _

/-! ### Rules -/

theorem number : Corresponds C Q C.node Parsing.number Parsing.number := by
  refine (expectKind .number).bind fun t t' ⟨ht, hk⟩ => ?_
  rw [C.lexeme ht]
  cases hread : Numeral.read t.lexeme with
  | some n => exact pure (C.literal ht hread)
  | none => exact fun _ _ _ _ => .unreadable ht hk hread

section

variable {e e' : Parser Node} (he : Corresponds C anyToken C.node e e')

include he

theorem group : Corresponds C Q C.node (Parsing.group e) (Parsing.group e') :=
  (expect _ _).bind fun _ _ _ => he.bind fun _ _ ha => (expect _ _).bind fun _ _ _ => pure ha

theorem loopCount : Corresponds C Q C.node (Parsing.loopCount e) (Parsing.loopCount e') := by
  refine either _ (seesKind_eq _) (headKind_byWord _) ?_ (either _ (sees_eq _ _) (headIs_byWord _ _) he.group number)
  refine advance.bind fun t t' ⟨ht, _, hk⟩ => ?_
  rw [C.lexeme ht]
  exact pure (C.reference ht (by simpa [headKind] using hk))

theorem loop : Corresponds C Q C.node (Parsing.loop e) (Parsing.loop e') :=
  advance.bind fun _ _ ht => he.loopCount.bind fun _ _ hcount => he.bind fun _ _ hbody => pure (C.loop ht.1 hcount hbody)

theorem letBinding : Corresponds C Q C.node (Parsing.letBinding e) (Parsing.letBinding e') := by
  refine advance.bind fun _ _ _ => (expectKind .identifier).bind fun t t' ⟨ht, hk⟩ => ?_
  rw [C.lexeme ht]
  exact (expect _ _).bind fun _ _ _ => he.bind fun _ _ ha => pure (C.assign ht hk ha)

theorem statement : Corresponds C Q C.node (Parsing.statement e) (Parsing.statement e') := by
  refine either _ (sees_eq _ _) (headIs_byWord _ _) ?_ (either _ seesLet_eq headLet_byWord he.letBinding
    (he.weaken fun _ _ => trivial))
  exact advance.bind fun _ _ ht => he.bind fun _ _ ha => pure (C.print ht.1 ha)

theorem statementRun (bound : ℕ) :
    Corresponds C Q (List.Forall₂ C.node) (Parsing.statementRun e bound) (Parsing.statementRun e' bound) := by
  induction bound generalizing Q with
  | zero => exact pure .nil
  | succ bound ih =>
    refine either _ closes_eq headCloses_byWord (pure .nil) (he.statement.bind fun _ _ ha => ?_)
    refine either _ (sees_eq _ _) (headIs_byWord _ _) ?_ (pure (.cons ha .nil))
    exact advance.bind fun _ _ _ => ih.bind fun _ _ hothers => pure (.cons ha hothers)

theorem statementLoop :
    Corresponds C Q (List.Forall₂ C.node) (Parsing.statementLoop e) (Parsing.statementLoop e') := by
  intro c c' hc hq
  have hrun := he.statementRun c.rest.length c c' hc hq
  simpa only [Parsing.statementLoop, unbounded, ← hc.length_eq] using hrun

/-- statements inside a block stand at the first token, or at the brace -/
theorem statements {t t' : Token} (ht : C.token t t') :
    Corresponds C Q C.node (Parsing.statements e t.position) (Parsing.statements e' t'.position) := by
  intro c c' hc _
  have hopening : ∃ s s', C.token s s' ∧ openingPosition t.position c = s.position ∧
      openingPosition t'.position c' = s'.position := by
    unfold openingPosition
    cases hr : c.rest with
    | nil =>
      rw [hr] at hc
      rw [List.forall₂_nil_left_iff.1 hc]
      exact ⟨t, t', ht, rfl, rfl⟩
    | cons s ss =>
      rw [hr] at hc
      obtain ⟨s', ss', hs, -, hr'⟩ := List.forall₂_cons_left_iff.1 hc
      simp only [hr', Token.isOneOf, C.kind hs, C.lexeme hs]
      by_cases hbrace : (decide (s.kind = .paren) && ["\x7d"].contains s.lexeme) = true
      · exact ⟨t, t', ht, if_pos hbrace, if_pos hbrace⟩
      · exact ⟨s, s', hs, if_neg hbrace, if_neg hbrace⟩
  obtain ⟨s, s', hs, hpos, hpos'⟩ := hopening
  rw [statements_eq, statements_eq, look_bind, look_bind, hpos, hpos']
  exact (he.statementLoop (Q := anyToken)).bind (fun _ _ hbody => pure (C.block hs hbody)) c c' hc trivial

theorem block : Corresponds C Q C.node (Parsing.block e) (Parsing.block e') :=
  advance.bind fun _ _ ht => (he.statements ht.1).bind fun _ _ hbody => (expect _ _).bind fun _ _ _ => pure hbody

theorem operandRun (operators : List String) (hops : ∀ operator ∈ operators, operator ∈ operatorWords) (bound : ℕ)
    {left left' : Node} (hleft : C.node left left') :
    Corresponds C Q C.node (Parsing.operandRun operators e bound left) (Parsing.operandRun operators e' bound left') := by
  induction bound generalizing Q left left' with
  | zero => exact pure hleft
  | succ bound ih =>
    refine either _ (sees_eq _ _) (headIs_byWord _ _) (advance.bind fun t t' ⟨ht, _, hop⟩ => ?_) (pure hleft)
    rw [C.lexeme ht]
    exact he.bind fun _ _ hright => ih (C.operation ht (hops _ (lexeme_of_headIs hop)) hleft hright)

theorem leftChain (operators : List String) (hops : ∀ operator ∈ operators, operator ∈ operatorWords) :
    Corresponds C anyToken C.node (Parsing.leftChain operators e) (Parsing.leftChain operators e') :=
  he.bind fun _ _ hleft => remaining fun bound => he.operandRun operators hops bound hleft

theorem atMostOnce (operators : List String) (hops : ∀ operator ∈ operators, operator ∈ operatorWords) :
    Corresponds C anyToken C.node (Parsing.atMostOnce operators e) (Parsing.atMostOnce operators e') := by
  refine he.bind fun left left' hleft => ?_
  refine either _ (sees_eq _ _) (headIs_byWord _ _) (advance.bind fun t t' ⟨ht, _, hop⟩ => ?_) (pure hleft)
  rw [C.lexeme ht]
  exact he.bind fun _ _ hright => pure (C.operation ht (hops _ (lexeme_of_headIs hop)) hleft hright)

omit he in
theorem parameterRun (bound : ℕ) : Corresponds C Q
    (fun params params' => params' = params ∧
      ∀ param ∈ params, ∃ s s', C.token s s' ∧ s.kind = .identifier ∧ param = .text s.lexeme)
    (Parsing.parameterRun bound) (Parsing.parameterRun bound) := by
  induction bound generalizing Q with
  | zero => exact pure ⟨rfl, fun _ h => by cases h⟩
  | succ bound ih =>
    refine either _ (seesKind_eq _) (headKind_byWord _) (advance.bind fun t t' ⟨ht, _, hk⟩ => ?_)
      (pure ⟨rfl, fun _ h => by cases h⟩)
    refine ih.bind fun others others' ⟨heq, hothers⟩ => ?_
    rw [heq, C.lexeme ht]
    refine pure ⟨rfl, List.forall_mem_cons.2 ⟨⟨t, t', ht, by simpa [headKind] using hk, rfl⟩, hothers⟩⟩

theorem lambda : Corresponds C Q C.node (Parsing.lambda e) (Parsing.lambda e') := by
  refine (expect _ _).bind fun t t' ⟨ht, _⟩ => remaining fun bound => (parameterRun bound).bind ?_
  intro params params' ⟨heq, hparams⟩
  rw [heq]
  exact (expect _ _).bind fun _ _ _ => he.bind fun _ _ hbody => pure (C.lambda ht hparams hbody)

end

end Corresponds

/-! ## Arguments -/

/-- arguments are gathered alike, whatever the parser for one of them is -/
def Gathers (gather : Gather) : Prop :=
  ∀ {C : Correspondence} {e e' : Parser Node}, Corresponds C anyToken C.node e e' →
    Corresponds C anyToken (List.Forall₂ C.node) (gather e) (gather e')

theorem speculative_gathers : Gathers speculative := by
  intro C e e' he c c' hc hq
  have hattempts : ∀ bound, Corresponds C anyToken (List.Forall₂ C.node) (attempts e bound) (attempts e' bound) := by
    intro bound
    induction bound with
    | zero => exact .pure .nil
    | succ bound ih =>
      intro c c' hc hq
      have hstop : (c'.atEnd || c'.sees .symbol [";"]) = (c.atEnd || c.sees .symbol [";"]) := by
        have hw := Corresponds.head_word hc
        simp only [atEnd_eq, sees_eq, isNone_byWord _ _ hw, headIs_byWord _ _ _ _ hw]
      simp only [attempts, hstop]
      split_ifs
      · exact .ok .nil hc rfl rfl
      · have hfirst := he c c' hc trivial
        generalize e c = reply at hfirst ⊢
        generalize e' c' = reply' at hfirst ⊢
        cases hfirst with
        | fail same stop stop' =>
          refine .ok .nil hc ?_ ?_
          · rw [← stop]
            exact remember_stop _ _
          · rw [← stop']
            exact remember_stop _ _
        | unreadable related number unread => exact .unreadable related number unread
        | @ok a a' next next' result rest stop stop' =>
          have hothers := ih next next' rest trivial
          rw [stop, stop'] at hothers
          dsimp only
          generalize attempts e bound next = answer at hothers ⊢
          generalize attempts e' bound next' = answer' at hothers ⊢
          cases hothers with
          | ok results last stop stop' => exact .ok (.cons result results) last stop stop'
          | fail same stop stop' => exact .fail same stop stop'
          | unreadable related number unread => exact .unreadable related number unread
  simpa only [speculative, ← hc.length_eq] using hattempts c.rest.length c c' hc hq

theorem predictive_gathers : Gathers predictive := by
  intro C e e' he c c' hc hq
  have hrun : ∀ bound, Corresponds C anyToken (List.Forall₂ C.node) (expressionRun e bound) (expressionRun e' bound) := by
    intro bound
    induction bound with
    | zero => exact .pure .nil
    | succ bound ih =>
      refine .either _ startsExpression_eq headStarts_byWord ?_ (.pure .nil)
      exact (he.weaken fun _ _ => trivial).bind fun _ _ ha => ih.bind fun _ _ hothers => .pure (.cons ha hothers)
  simpa only [predictive, ← hc.length_eq] using hrun c.rest.length c c' hc hq

/-! ## Expressions and programs -/

namespace Corresponds

variable {C : Correspondence} {gather : Gather} {Q : Option Token → Prop} {e e' : Parser Node}

theorem application (hg : Gathers gather) (he : Corresponds C anyToken C.node e e') :
    Corresponds C (fun head => headKind .identifier head = true) C.node (Parsing.application gather e)
      (Parsing.application gather e') := by
  refine advance.bind fun t t' ⟨ht, hk⟩ => (hg he).bind fun args args' hargs => ?_
  have hname : t.kind = .identifier := by simpa [headKind] using hk
  rw [C.lexeme ht]
  cases hargs with
  | nil => exact pure (C.reference ht hname)
  | cons first rest => exact pure (C.call ht hname (.cons first rest))

theorem factor (hg : Gathers gather) (he : Corresponds C anyToken C.node e e') :
    Corresponds C anyToken C.node (Parsing.factor gather e) (Parsing.factor gather e') := by
  refine either _ (sees_eq _ _) (headIs_byWord _ _) he.group ?_
  refine either _ (sees_eq _ _) (headIs_byWord _ _) he.loop ?_
  refine either _ (sees_eq _ _) (headIs_byWord _ _) he.block ?_
  exact either _ (seesKind_eq _) (headKind_byWord _) ((he.application hg).weaken fun _ h => h.2) number

theorem equality (hg : Gathers gather) (he : Corresponds C anyToken C.node e e') :
    Corresponds C anyToken C.node (Parsing.equality gather e) (Parsing.equality gather e') := by
  have hterm := (he.factor hg).leftChain multiplicativeOperators (by decide)
  have hadditive := hterm.leftChain additiveOperators (by decide)
  exact (hadditive.atMostOnce relationalOperators (by decide)).atMostOnce equalityOperators (by decide)

theorem conditional (hg : Gathers gather) (he : Corresponds C anyToken C.node e e') :
    Corresponds C Q C.node (Parsing.conditional gather e) (Parsing.conditional gather e') := by
  refine (expect _ _).bind fun _ _ _ => (he.equality hg).bind fun _ _ ha => (expect _ _).bind fun _ _ _ => ?_
  exact he.bind fun _ _ hb => (expect _ _).bind fun _ _ _ => he.bind fun _ _ hd => pure (C.conditional ha hb hd)

theorem expressionStep (hg : Gathers gather) (he : Corresponds C anyToken C.node e e') :
    Corresponds C anyToken C.node (Parsing.expressionStep gather e) (Parsing.expressionStep gather e') := by
  refine either _ (sees_eq _ _) (headIs_byWord _ _) he.lambda ?_
  exact either _ (sees_eq _ _) (headIs_byWord _ _) (he.conditional hg) ((he.equality hg).weaken fun _ _ => trivial)

end Corresponds

/-- **Expressions before related tokens are related.** -/
theorem expression_corresponds {gather : Gather} (hg : Gathers gather) (C : Correspondence) :
    Corresponds C anyToken C.node (expression gather) (expression gather) := by
  have hwithin : ∀ bound, Corresponds C anyToken C.node (expressionWithin gather bound) (expressionWithin gather bound) := by
    intro bound
    induction bound with
    | zero => exact .number
    | succ bound ih => exact ih.expressionStep hg
  intro c c' hc hq
  simpa only [expression, ← hc.length_eq] using hwithin c.rest.length c c' hc hq

/-- two programs are related statement by statement, wherever they stand -/
def RelatedPrograms (C : Correspondence) (tree tree' : Node) : Prop :=
  ∃ position position' body body', tree = .statements position (.text "") body ∧
    tree' = .statements position' (.text "") body' ∧ List.Forall₂ C.node body body'

/-- **Programs before related tokens are related.** -/
theorem wholeInput_corresponds {gather : Gather} (hg : Gathers gather) (C : Correspondence) :
    Corresponds C anyToken (RelatedPrograms C) (wholeInput gather) (wholeInput gather) := by
  have hbody : Corresponds C anyToken (RelatedPrograms C) (statements (expression gather) 0)
      (statements (expression gather) 0) := by
    intro c c' hc hq
    rw [statements_eq, look_bind, look_bind]
    exact (expression_corresponds hg C).statementLoop.bind
      (fun _ _ hbody => .pure ⟨_, _, _, _, rfl, rfl, hbody⟩) c c' hc hq
  refine hbody.bind fun tree tree' htree => ?_
  exact .either _ more_eq headMore_byWord ((Corresponds.expect _ _).bind fun _ _ _ => .pure htree) (.pure htree)

/-- what the parser answers before tokens that are related to themselves -/
theorem parse_corresponds (C : Correspondence) {tokens : List Token} (h : ∀ t ∈ tokens, C.token t t) :
    (∃ tree, parse tokens = .ok tree ∧ RelatedPrograms C tree tree) ∨
      (∃ complaint, parse tokens = .error (.complaint complaint)) ∨
      ∃ t t', parse tokens = .error (.unreadable t) ∧ C.token t t' ∧ t.kind = .number ∧ Numeral.read t.lexeme = none := by
  have hself : List.Forall₂ C.token (Cursor.start tokens).rest (Cursor.start tokens).rest := List.forall₂_same.2 h
  have halike := wholeInput_corresponds speculative_gathers C _ _ hself trivial
  unfold parse parseWith program
  generalize wholeInput speculative (Cursor.start tokens) = reply at halike ⊢
  cases halike with
  | ok result rest => exact Or.inl ⟨_, rfl, result⟩
  | fail => exact Or.inr (Or.inl ⟨_, rfl⟩)
  | unreadable related number unread => exact Or.inr (Or.inr ⟨_, _, rfl, related, number, unread⟩)

end LetScript.Parsing
