/-
Both spellings of `let`.

A list of tokens put together by hand may spell the word `let` as an identifier. An identifier can be a reference, an argument
or a parameter, so it must be seen that in a program every keyword `let` stands where a statement starts, and that nothing
before it goes on over an identifier there.

The predictive parser shows both at once. Expressions take no keyword `let`: one that succeeds, and after which none stands,
has none before it either. So whatever comes before a statement that starts with one has stopped at something else, and every
question about a next token was asked where it has one spelling. `Respells Q R S p` says that a success of `p` before a token
in `Q`, after which stands a token in `R`, comes before a token in `S`, and is the same before respelled tokens. Every rule
has it because its parts do, hence programs: `parse_respelled`.
-/
import LetScript.Proofs.Parsing.Joining

namespace LetScript.Parsing

variable {α β : Type}

/-! ## Respelled tokens -/

/-- the same token, or the word `let` as a keyword and as an identifier -/
inductive Respelled : Token → Token → Prop where
  | same (token : Token) : Respelled token token
  | letWord (position : Int) : Respelled ⟨.keyword, "let", position⟩ ⟨.identifier, "let", position⟩

theorem respelled_self (tokens : List Token) : List.Forall₂ Respelled tokens tokens :=
  List.forall₂_same.2 fun token _ => .same token

/-- the next token is no keyword `let` -/
def NoLet (head : Option Token) : Prop := headIs .keyword ["let"] head = false

theorem noLet_of_word {t : Token} (h : t.kind ≠ .keyword ∨ t.lexeme ≠ "let") : NoLet (some t) := by
  change t.isOneOf .keyword ["let"] = false
  rw [← Bool.not_eq_true, Token.isOneOf, Bool.and_eq_true, decide_eq_true_eq, List.contains_iff_mem, List.mem_singleton]
  exact not_and_or.2 h

theorem noLet_of_headKind {kind : TokenKind} (hkind : kind ≠ .keyword) {head : Option Token}
    (h : headKind kind head = true) : NoLet head := by
  cases head with
  | none => rfl
  | some t => exact noLet_of_word (Or.inl (of_decide_eq_true h ▸ hkind))

theorem noLet_of_headIs {kind : TokenKind} {lexemes : List String} (hword : kind ≠ .keyword ∨ "let" ∉ lexemes)
    {head : Option Token} (h : headIs kind lexemes head = true) : NoLet head := by
  cases head with
  | none => rfl
  | some t =>
    obtain ⟨hkind, hlexeme⟩ := Language.isOneOf_iff.1 h
    refine noLet_of_word (hword.imp (fun hk => hkind ▸ hk) fun hl hlet => hl ?_)
    rwa [← hlet]

/-- only the keyword `let` has another spelling -/
theorem Respelled.eq {t t' : Token} (h : Respelled t t') (hlet : NoLet (some t)) : t' = t := by
  cases h with
  | same => rfl
  | letWord position =>
    change Token.isOneOf .keyword ["let"] ⟨.keyword, "let", position⟩ = false at hlet
    simp [Token.isOneOf] at hlet

/-- the next token is the same unless it is a keyword `let` -/
theorem respelled_head {w w' : List Token} (h : List.Forall₂ Respelled w w') (hlet : NoLet w.head?) :
    w'.head? = w.head? := by
  cases h with
  | nil => rfl
  | cons ht _ => exact congrArg some (ht.eq hlet)

/-- an answer that is the same for both spellings -/
def SameSpelled (answer : Option Token → α) : Prop := ∀ {t t'}, Respelled t t' → answer (some t') = answer (some t)

theorem SameSpelled.head {answer : Option Token → α} (h : SameSpelled answer) {w w' : List Token}
    (hw : List.Forall₂ Respelled w w') : answer w'.head? = answer w.head? := by
  cases hw with
  | nil => rfl
  | cons ht _ => exact h ht

theorem sameSpelled_print : SameSpelled (headIs .identifier ["print"]) := by
  intro t t' ht
  cases ht with
  | same => rfl
  | letWord position => simp [headIs, Token.isOneOf]

theorem sameSpelled_let : SameSpelled headLet := by
  intro t t' ht
  cases ht with
  | same => rfl
  | letWord position => simp [headLet, headIs, Token.isOneOf]

theorem sameSpelled_closes : SameSpelled headCloses := by
  intro t t' ht
  cases ht with
  | same => rfl
  | letWord position => simp [headCloses, headIs, Token.isOneOf]

theorem sameSpelled_opening (position : Int) : SameSpelled (headOpening position) := by
  intro t t' ht
  cases ht with
  | same => rfl
  | letWord place => simp [headOpening, Token.isOneOf]

/-! ## Parsers before respelled tokens -/

/-- a success before a token in `Q`, after which stands a token in `R`, comes before a token in `S`, and before respelled
tokens it is the same -/
def Respells (Q R S : Option Token → Prop) (p : Parser α) : Prop :=
  ∀ c c' a next, List.Forall₂ Respelled c.rest c'.rest → Q c.rest.head? → p c = .ok a next → R next.rest.head? →
    S c.rest.head? ∧ ∃ next', p c' = .ok a next' ∧ List.Forall₂ Respelled next.rest next'.rest

/-- a success after which no keyword `let` stands has none before it, and is the same before respelled tokens -/
abbrev Spares (Q : Option Token → Prop) (p : Parser α) : Prop := Respells Q NoLet NoLet p

namespace Respells

variable {Q Q' R R' S S' : Option Token → Prop} {p q : Parser α}

theorem mono (h : Respells Q R S p) (hQ : ∀ head, Q' head → Q head) (hR : ∀ head, R' head → R head)
    (hS : ∀ head, S head → S' head) : Respells Q' R' S' p := by
  intro c c' a next hc hq hok hr
  obtain ⟨hs, hsame⟩ := h c c' a next hc (hQ _ hq) hok (hR _ hr)
  exact ⟨hS _ hs, hsame⟩

/-- a parser that is the same whatever stands behind it -/
theorem spares (h : Respells Q anyToken NoLet p) : Spares Q p :=
  h.mono (fun _ hq => hq) (fun _ _ => trivial) fun _ hs => hs

theorem weaken (h : Respells anyToken R S p) : Respells Q R S p :=
  h.mono (fun _ _ => trivial) (fun _ hr => hr) fun _ hs => hs

/-- nothing is said about the token before -/
theorem forget (h : Respells Q R S p) : Respells Q R anyToken p := h.mono (fun _ hq => hq) (fun _ hr => hr) fun _ _ => trivial

theorem pure (a : α) : Respells Q R R (Pure.pure a : Parser α) := by
  intro c c' b next hc _ hok hr
  cases hok
  exact ⟨hr, c', rfl, hc⟩

/-- what the second parser says about the token before it, the first needs about the token after it -/
theorem bind {go : α → Parser β} (hp : Respells Q R S p) (hgo : ∀ a, Respells anyToken R' R (go a)) :
    Respells Q R' S (p >>= go) := by
  intro c c' b last hc hq hok hr
  obtain ⟨a, mid, hfirst, hsecond⟩ := bind_eq_ok hok
  obtain ⟨hmid, -⟩ := hgo a mid mid b last (respelled_self mid.rest) trivial hsecond hr
  obtain ⟨hs, mid', hfirst', hrest⟩ := hp c c' a mid hc hq hfirst hmid
  obtain ⟨-, last', hsecond', hlast⟩ := hgo a mid mid' b last hrest trivial hsecond hr
  exact ⟨hs, last', (bind_ok hfirst').trans hsecond', hlast⟩

/-- a question that both spellings answer alike -/
theorem observe {question : Cursor → α} {go : α → Parser β} (answer : Option Token → α)
    (hq : ∀ c, question c = answer c.rest.head?) (hsame : SameSpelled answer)
    (hgo : ∀ x, Respells (fun head => Q head ∧ answer head = x) R S (go x)) :
    Respells Q R S (Parsing.look question >>= go) := by
  intro c c' b last hc hQ hok hr
  rw [look_bind, hq] at hok
  rw [look_bind, hq, hsame.head hc]
  exact hgo _ c c' b last hc ⟨hQ, rfl⟩ hok hr

theorem choose {question : Cursor → Bool} (answer : Option Token → Bool) (hq : ∀ c, question c = answer c.rest.head?)
    (hsame : SameSpelled answer) (hp : Respells (fun head => Q head ∧ answer head = true) R S p)
    (hp' : Respells (fun head => Q head ∧ answer head = false) R S q) :
    Respells Q R S (do if ← Parsing.look question then p else q) :=
  observe answer hq hsame fun x => by
    cases x with
    | true => exact hp
    | false => exact hp'

/-- where neither way to go on starts before a keyword `let`, the question is answered for one spelling only -/
theorem either {question : Cursor → Bool} (answer : Option Token → Bool) (hq : ∀ c, question c = answer c.rest.head?)
    (hp : Respells (fun head => Q head ∧ answer head = true) R NoLet p)
    (hp' : Respells (fun head => Q head ∧ answer head = false) R NoLet q) :
    Respells Q R NoLet (do if ← Parsing.look question then p else q) := by
  intro c c' b last hc hQ hok hr
  have hbranch : ∀ x, Respells (fun head => Q head ∧ answer head = x) R NoLet (if x = true then p else q) := by
    intro x
    cases x with
    | true => exact hp
    | false => exact hp'
  rw [look_bind, hq] at hok
  have hgo := hbranch (answer c.rest.head?) c
  obtain ⟨hlet, -⟩ := hgo c b last (respelled_self c.rest) ⟨hQ, rfl⟩ hok hr
  rw [look_bind, hq, respelled_head hc hlet]
  exact hgo c' b last hc ⟨hQ, rfl⟩ hok hr

/-- the number of tokens left is the same -/
theorem remaining {go : ℕ → Parser α} (hgo : ∀ x, Respells Q R S (go x)) :
    Respells Q R S (Parsing.look (·.rest.length) >>= go) := by
  intro c c' a next hc hQ hok hr
  rw [look_bind] at hok
  rw [look_bind, ← hc.length_eq]
  exact hgo _ c c' a next hc hQ hok hr

/-- a family of parsers with the number of tokens left as its bound -/
theorem bounded {run : ℕ → Parser α} (h : ∀ bound, Respells Q R S (run bound)) :
    Respells Q R S fun c => run c.rest.length c := by
  intro c c' a next hc hQ hok hr
  have hrun := h c.rest.length c c' a next hc hQ hok hr
  rwa [hc.length_eq] at hrun

/-! ### Single tokens -/

/-- a parser that takes the next token, which is no keyword `let`, if it accepts it -/
theorem token {p : Parser Token} (accepts : Token → Prop)
    (hok : ∀ c t ts, c.rest = t :: ts → accepts t → p c = .ok t { c with rest := ts })
    (htaken : ∀ c t next, p c = .ok t next → accepts t ∧ ∃ ts, c.rest = t :: ts)
    (hlet : ∀ t, Q (some t) → accepts t → NoLet (some t)) : Respells Q anyToken NoLet p := by
  intro c c' t next hc hq hp _
  obtain ⟨ha, ts, hr⟩ := htaken c t next hp
  rw [hok c t ts hr ha] at hp
  cases hp
  rw [hr] at hc hq
  obtain ⟨t', ts', ht, hts, hr'⟩ := List.forall₂_cons_left_iff.1 hc
  rw [ht.eq (hlet t hq ha)] at hr'
  rw [hr]
  exact ⟨hlet t hq ha, _, hok c' t ts' hr' ha, hts⟩

theorem advance (hQ : ∀ head, Q head → NoLet head) : Respells Q anyToken NoLet Parsing.advance := by
  refine token (fun _ => True) (fun c t ts hr _ => ?_) (fun c t next h => ?_) fun t hq _ => hQ _ hq
  · simp only [Parsing.advance, hr]
  · unfold Parsing.advance at h
    cases hr : c.rest with
    | nil => rw [hr] at h; cases h
    | cons s ss => rw [hr] at h; cases h; exact ⟨trivial, ss, rfl⟩

/-- a word that was seen to come next is taken -/
theorem advance_word {kind : TokenKind} {lexemes : List String} (hword : kind ≠ .keyword ∨ "let" ∉ lexemes) :
    Respells (fun head => Q head ∧ headIs kind lexemes head = true) anyToken NoLet Parsing.advance :=
  advance fun _ h => noLet_of_headIs hword h.2

theorem advance_kind {kind : TokenKind} (hkind : kind ≠ .keyword) :
    Respells (fun head => Q head ∧ headKind kind head = true) anyToken NoLet Parsing.advance :=
  advance fun _ h => noLet_of_headKind hkind h.2

theorem expectKind {kind : TokenKind} (hkind : kind ≠ .keyword) : Respells Q anyToken NoLet (Parsing.expectKind kind) := by
  refine token (fun t => t.kind = kind) (fun c t ts hr ht => ?_) (fun c t next h => ?_) fun t _ ht => ?_
  · simp only [Parsing.expectKind, hr, if_pos ht]
  · unfold Parsing.expectKind at h
    cases hr : c.rest with
    | nil => rw [hr] at h; cases h
    | cons s ss =>
      rw [hr] at h
      dsimp only at h
      split_ifs at h with hs
      cases h
      exact ⟨hs, ss, rfl⟩
  · exact noLet_of_word (Or.inl (ht ▸ hkind))

theorem expect {kind : TokenKind} {lexemes : List String} (hword : kind ≠ .keyword ∨ "let" ∉ lexemes) :
    Respells Q anyToken NoLet (Parsing.expect kind lexemes) := by
  refine token (fun t => t.kind = kind ∧ lexemes.contains t.lexeme = true) (fun c t ts hr ht => ?_) (fun c t next h => ?_)
    fun t _ ht => ?_
  · simp only [Parsing.expect, hr, ht.1, ht.2, ne_eq, not_true, if_false, if_true]
  · unfold Parsing.expect at h
    cases hr : c.rest with
    | nil => rw [hr] at h; cases h
    | cons s ss =>
      rw [hr] at h
      dsimp only at h
      split_ifs at h with hk hl
      cases h
      exact ⟨⟨not_not.1 hk, hl⟩, ss, rfl⟩
  · exact noLet_of_headIs hword (Language.isOneOf_iff.2 ⟨ht.1, List.contains_iff_mem.1 ht.2⟩)

/-- the word that a binding starts with may have either spelling -/
theorem skip (h : Respells anyToken R S p) : Respells Q R anyToken (Parsing.advance >>= fun _ => p) := by
  intro c c' a last hc _ hok hr
  obtain ⟨t, mid, hadvance, hp⟩ := bind_eq_ok hok
  unfold Parsing.advance at hadvance
  cases hrest : c.rest with
  | nil => rw [hrest] at hadvance; cases hadvance
  | cons s ss =>
    rw [hrest] at hadvance hc
    cases hadvance
    obtain ⟨s', ss', -, hss, hr'⟩ := List.forall₂_cons_left_iff.1 hc
    have hadvance' : Parsing.advance c' = .ok s' { c' with rest := ss' } := by simp only [Parsing.advance, hr']
    obtain ⟨-, last', hp', hlast⟩ := h { c with rest := ss } { c' with rest := ss' } a last hss trivial hp hr
    exact ⟨trivial, last', (bind_ok hadvance').trans hp', hlast⟩

/-! ### Rules -/

theorem number : Spares Q Parsing.number := by
  refine (expectKind (by decide)).spares.bind fun t => ?_
  cases Numeral.read t.lexeme with
  | some n => exact pure _
  | none =>
    intro c c' a next _ _ hok _
    cases hok

section

variable {e : Parser Node} (he : Spares anyToken e)

include he

theorem group : Spares Q (Parsing.group e) := by
  refine (expect (Or.inl (by decide))).spares.bind fun _ => he.bind fun inner => ?_
  exact (expect (Or.inl (by decide))).spares.bind fun _ => pure _

theorem loopCount : Spares Q (Parsing.loopCount e) := by
  refine either _ (seesKind_eq _) ?_ (either _ (sees_eq _ _) he.group number)
  refine (advance_kind (by decide)).spares.bind fun _ => ?_
  exact pure _

theorem loop (hQ : ∀ head, Q head → NoLet head) : Spares Q (Parsing.loop e) := by
  refine (advance hQ).spares.bind fun _ => he.loopCount.bind fun _ => he.bind fun _ => ?_
  exact pure _

/-- a binding is the same in both spellings -/
theorem letBinding : Respells Q NoLet anyToken (Parsing.letBinding e) := by
  refine skip ((expectKind (by decide)).spares.bind fun name => ?_)
  refine (expect (Or.inl (by decide))).spares.bind fun _ => he.bind fun _ => ?_
  exact pure _

theorem statement : Respells Q NoLet anyToken (Parsing.statement e) := by
  refine choose _ (sees_eq _ _) sameSpelled_print ?_ (choose _ seesLet_eq sameSpelled_let he.letBinding he.weaken.forget)
  refine (advance_word (Or.inl (by decide))).spares.forget.bind fun _ => ?_
  exact he.bind fun _ => pure _

theorem statementRun (bound : ℕ) : Respells Q NoLet anyToken (Parsing.statementRun e bound) := by
  induction bound generalizing Q with
  | zero => exact (pure _).forget
  | succ bound ih =>
    refine choose _ closes_eq sameSpelled_closes (pure _).forget (he.statement.bind fun first => ?_)
    -- behind a statement stands a semicolon, or something that is no keyword `let`
    refine either _ (sees_eq _ _) ?_ (pure _)
    refine (advance_word (Or.inl (by decide))).bind fun _ => ?_
    exact ih.bind fun _ => pure _

theorem statementLoop : Respells Q NoLet anyToken (Parsing.statementLoop e) := bounded he.statementRun

theorem statements (position : Int) : Respells Q NoLet anyToken (Parsing.statements e position) := by
  refine observe _ (openingPosition_eq position) (sameSpelled_opening position) fun opening => ?_
  exact remaining fun bound => (he.statementRun bound).bind fun _ => pure _

/-- behind the brace that closes a block anything may stand, and inside the block anything may come first -/
theorem block (hQ : ∀ head, Q head → NoLet head) : Spares Q (Parsing.block e) := by
  refine (advance hQ).bind fun brace => (he.statements brace.position).bind fun body => ?_
  exact (expect (Or.inl (by decide))).spares.bind fun _ => pure _

theorem operandRun (operators : List String) (bound : ℕ) (left : Node) :
    Spares Q (Parsing.operandRun operators e bound left) := by
  induction bound generalizing Q left with
  | zero => exact pure _
  | succ bound ih =>
    refine either _ (sees_eq _ _) ?_ (pure _)
    refine (advance_word (Or.inl (by decide))).spares.bind fun _ => ?_
    exact he.bind fun _ => ih _

theorem leftChain (operators : List String) : Spares anyToken (Parsing.leftChain operators e) :=
  he.bind fun left => remaining fun bound => he.operandRun operators bound left

theorem atMostOnce (operators : List String) : Spares anyToken (Parsing.atMostOnce operators e) := by
  refine he.bind fun left => either _ (sees_eq _ _) ?_ (pure _)
  refine (advance_word (Or.inl (by decide))).spares.bind fun _ => ?_
  exact he.bind fun _ => pure _

omit he in
theorem parameterRun (bound : ℕ) : Spares Q (Parsing.parameterRun bound) := by
  induction bound generalizing Q with
  | zero => exact pure _
  | succ bound ih =>
    refine either _ (seesKind_eq _) ?_ (pure _)
    refine (advance_kind (by decide)).spares.bind fun _ => ?_
    exact ih.bind fun _ => pure _

theorem lambda : Spares Q (Parsing.lambda e) := by
  refine (expect (Or.inl (by decide))).spares.bind fun _ => remaining fun bound => (parameterRun bound).bind fun _ => ?_
  exact (expect (Or.inl (by decide))).spares.bind fun _ => he.bind fun _ => pure _

theorem expressionRun (bound : ℕ) : Spares Q (Parsing.expressionRun e bound) := by
  induction bound generalizing Q with
  | zero => exact pure _
  | succ bound ih =>
    refine either _ startsExpression_eq (he.weaken.bind fun _ => ?_) (pure _)
    exact ih.bind fun _ => pure _

/-- arguments never go on over a binding -/
theorem predictive : Spares anyToken (Parsing.predictive e) := bounded he.expressionRun

/-! ### Expressions -/

theorem application (hQ : ∀ head, Q head → NoLet head) : Spares Q (Parsing.application Parsing.predictive e) := by
  refine (advance hQ).spares.bind fun name => he.predictive.bind fun args => ?_
  split_ifs
  · exact pure _
  · exact pure _

theorem factor : Spares anyToken (Parsing.factor Parsing.predictive e) := by
  refine either _ (sees_eq _ _) he.group ?_
  refine either _ (sees_eq _ _) (he.loop fun head h => noLet_of_headIs (Or.inr (by decide)) h.2) ?_
  refine either _ (sees_eq _ _) (he.block fun head h => noLet_of_headIs (Or.inl (by decide)) h.2) ?_
  exact either _ (seesKind_eq _) (he.application fun head h => noLet_of_headKind (by decide) h.2) number

theorem equality : Spares anyToken (Parsing.equality Parsing.predictive e) :=
  (((he.factor.leftChain multiplicativeOperators).leftChain additiveOperators).atMostOnce relationalOperators).atMostOnce
    equalityOperators

theorem conditional : Spares Q (Parsing.conditional Parsing.predictive e) := by
  refine (expect (Or.inr (by decide))).spares.bind fun _ => he.equality.bind fun _ => ?_
  refine (expect (Or.inr (by decide))).spares.bind fun _ => he.bind fun _ => ?_
  exact (expect (Or.inr (by decide))).spares.bind fun _ => he.bind fun _ => pure _

theorem expressionStep : Spares anyToken (Parsing.expressionStep Parsing.predictive e) :=
  either _ (sees_eq _ _) he.lambda (either _ (sees_eq _ _) he.conditional he.equality.weaken)

end

end Respells

/-! ## Programs -/

/-- **Expressions take no binding**: one that succeeds, and behind which no keyword `let` stands, is the same before respelled
tokens. -/
theorem expression_spares : Spares anyToken (expression predictive) := by
  refine Respells.bounded fun bound => ?_
  induction bound with
  | zero => exact .number
  | succ bound ih => exact ih.expressionStep

/-- **Both spellings of `let` agree.** Where a token list is a program, it is the same program with any of its keywords `let`
spelled as identifiers, tree and positions included. -/
theorem parse_respelled {tokens tokens' : List Token} {tree : Node} (h : List.Forall₂ Respelled tokens tokens')
    (hparse : parse tokens = .ok tree) : parse tokens' = .ok tree := by
  obtain ⟨body, rfl, hbody⟩ := (parse_eq_ok_iff tokens tree).1 hparse
  rw [parse_eq_ok_iff]
  refine ⟨body, by rw [SameSpelled.head (sameSpelled_opening 0) h], ?_⟩
  obtain ⟨-, next, hbody', hrest⟩ := expression_spares.statementLoop (Q := anyToken) (Cursor.start tokens)
    (Cursor.start tokens') body _ h trivial hbody rfl
  have hnext := statementLoop_next hbody'
  rw [List.forall₂_nil_left_iff.1 hrest] at hnext
  rw [hbody', hnext]
  rfl

/-- `let x := y; f { let z := x }`, with the binding inside the argument spelled in either way -/
def nestedBindings (inner : TokenKind) : List Token :=
  [⟨.keyword, "let", 0⟩, ⟨.identifier, "x", 4⟩, ⟨.operator, ":=", 6⟩, ⟨.identifier, "y", 9⟩, ⟨.symbol, ";", 10⟩,
    ⟨.identifier, "f", 12⟩, ⟨.paren, "\x7b", 14⟩, ⟨inner, "let", 16⟩, ⟨.identifier, "z", 20⟩, ⟨.operator, ":=", 22⟩,
    ⟨.identifier, "x", 25⟩, ⟨.paren, "\x7d", 27⟩]

/-- the block stays an argument of the call, and its binding a statement -/
theorem parse_respelled_nested :
    parse (nestedBindings .identifier) = .ok (.statements 0 (.text "") [.assign 4 (.text "x") (.reference 9 (.text "y")),
      .call 12 (.text "f") [.statements 16 (.text "") [.assign 20 (.text "z") (.reference 25 (.text "x"))]]]) := by
  have hspelled : List.Forall₂ Respelled (nestedBindings .keyword) (nestedBindings .identifier) := by
    have hword : Respelled ⟨.keyword, "let", 16⟩ ⟨.identifier, "let", 16⟩ := .letWord 16
    simp only [nestedBindings, List.forall₂_cons, List.forall₂_nil_left_iff, Respelled.same, hword, and_self]
  exact parse_respelled hspelled rfl

end LetScript.Parsing
