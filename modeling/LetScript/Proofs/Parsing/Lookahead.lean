/-
One token of lookahead.

The predictive parser never goes back, so what it does is settled by the tokens it takes and the one after them:
- when it succeeds, it gives the same result before any other tokens that start with the same one;
- when it complains, it complains about the next token, in the same words, whatever follows that token;
- an expression that fails at all fails behind its first token, if that token can start an expression.

`OneAhead n b Q p` says this of a parser where fewer than `n` tokens are left: a success takes at least `b` tokens, and a
failure before a token in `Q` takes at least that token. Main statement: `expression_oneAhead`, from which the same follows
for whole programs (`wholeInput_oneAhead`).
-/
import LetScript.Proofs.Parsing.Unfolding

namespace LetScript.Parsing

variable {α β : Type}

/-! ## Questions about the next token -/

/-- whether a next token is there, of the given kind and with one of the given lexemes -/
def headIs (kind : TokenKind) (lexemes : List String) (head : Option Token) : Bool :=
  head.any (Token.isOneOf kind lexemes)

/-- whether a next token of the given kind is there -/
def headKind (kind : TokenKind) (head : Option Token) : Bool := head.any fun token => token.kind = kind

/-- whether a next token is there that can start an expression -/
def headStarts (head : Option Token) : Bool :=
  headIs .symbol ["\\"] head || headIs .keyword ["if", "loop"] head || headIs .paren ["(", "\x7b"] head ||
    headKind .identifier head || headKind .number head

/-- what can start a factor: anything that can start an expression but a function or a conditional -/
abbrev headStartsFactor (head : Option Token) : Prop :=
  headStarts head = true ∧ headIs .symbol ["\\"] head = false ∧ headIs .keyword ["if"] head = false

/-- whether the next token is the word `let`, as a keyword or as an identifier -/
def headLet (head : Option Token) : Bool := headIs .identifier ["let"] head || headIs .keyword ["let"] head

/-- whether statements end here: no token is left, or the next one closes a block -/
def headCloses (head : Option Token) : Bool := head.isNone || headIs .paren ["\x7d"] head

/-- whether a next token is there -/
def headMore (head : Option Token) : Bool := !head.isNone

/-- the position of statements that start here -/
def headOpening (position : Int) : Option Token → Int
  | some token => if token.isOneOf .paren ["\x7d"] then position else token.position
  | none => position

theorem sees_eq (kind : TokenKind) (lexemes : List String) (c : Cursor) :
    c.sees kind lexemes = headIs kind lexemes c.rest.head? := by
  cases h : c.rest with
  | nil => simp [Cursor.sees, headIs, h]
  | cons t ts => simp [Cursor.sees, headIs, h]

theorem seesKind_eq (kind : TokenKind) (c : Cursor) : c.seesKind kind = headKind kind c.rest.head? := by
  cases h : c.rest with
  | nil => simp [Cursor.seesKind, headKind, h]
  | cons t ts => simp [Cursor.seesKind, headKind, h]

theorem atEnd_eq (c : Cursor) : c.atEnd = c.rest.head?.isNone := by
  cases h : c.rest with
  | nil => simp [Cursor.atEnd, h]
  | cons t ts => simp [Cursor.atEnd, h]

theorem more_eq (c : Cursor) : (!c.atEnd) = headMore c.rest.head? := by
  simp only [headMore, atEnd_eq]

theorem seesLet_eq (c : Cursor) : (c.sees .identifier ["let"] || c.sees .keyword ["let"]) = headLet c.rest.head? := by
  simp only [headLet, sees_eq]

theorem closes_eq (c : Cursor) : (c.atEnd || c.sees .paren ["\x7d"]) = headCloses c.rest.head? := by
  simp only [headCloses, sees_eq, atEnd_eq]

theorem openingPosition_eq (position : Int) (c : Cursor) : openingPosition position c = headOpening position c.rest.head? := by
  cases h : c.rest with
  | nil => simp [openingPosition, headOpening, h]
  | cons t ts => simp [openingPosition, headOpening, h]

theorem startsExpression_eq (c : Cursor) : startsExpression c = headStarts c.rest.head? := by
  simp only [startsExpression, headStarts, sees_eq, seesKind_eq]

/-- what can start an expression closes nothing and is no operator -/
theorem starts_excludes {head : Option Token} (h : headStarts head = true) :
    headIs .paren [")"] head = false ∧ headIs .paren ["\x7d"] head = false ∧ headIs .keyword ["then"] head = false ∧
      headIs .keyword ["else"] head = false ∧ headIs .symbol [";"] head = false ∧
      ∀ operators, headIs .operator operators head = false := by
  cases head with
  | none => cases h
  | some t =>
    simp only [headStarts, headIs, headKind, Token.isOneOf, Option.any_some, Bool.or_eq_true, Bool.and_eq_true,
      decide_eq_true_eq, List.contains_cons, List.contains_nil, beq_iff_eq, Bool.or_false] at h ⊢
    grind

/-- a token that is not the wanted one is complained about -/
theorem expect_of_not {kind : TokenKind} {lexemes : List String} {c : Cursor}
    (h : headIs kind lexemes c.rest.head? = false) : ∃ wanted, expect kind lexemes c = .fail (c.complaint wanted) c := by
  unfold expect
  cases hr : c.rest with
  | nil => exact ⟨.kind kind, rfl⟩
  | cons t ts =>
    rw [hr] at h
    simp only [headIs, List.head?_cons, Option.any_some, Token.isOneOf, Bool.and_eq_false_iff, decide_eq_false_iff_not] at h
    by_cases hkind : t.kind = kind
    · have hl : lexemes.contains t.lexeme = false := h.resolve_left (not_not.2 hkind)
      exact ⟨.oneOf lexemes, by simp only [hkind, ne_eq, not_true, if_false, hl, Bool.false_eq_true]⟩
    · exact ⟨.kind kind, by simp only [ne_eq, hkind, not_false_iff, if_true]⟩

/-! ## Parsers that look one token ahead -/

/-- an answer that depends on the tokens taken and the next one only -/
inductive Foreseen (p : Parser α) (b : ℕ) (Q : Option Token → Prop) (w : List Token) (s : Int) (f : Option Complaint) :
    Reply α → Prop where
  | ok {u r : List Token} {a : α} (split : w = u ++ r) (taken : b ≤ u.length)
      (same : ∀ r' s' f', r'.head? = r.head? → p ⟨u ++ r', s', f'⟩ = .ok a ⟨r', s', f'⟩) :
      Foreseen p b Q w s f (.ok a ⟨r, s, f⟩)
  | fail {u r : List Token} {wanted : Wanted} (split : w = u ++ r) (taken : Q w.head? → 0 < u.length)
      (same : ∀ r' s' f', r'.head? = r.head? →
        p ⟨u ++ r', s', f'⟩ = .fail (Cursor.complaint wanted ⟨r', s', f'⟩) ⟨r', s', f'⟩) :
      Foreseen p b Q w s f (.fail (Cursor.complaint wanted ⟨r, s, f⟩) ⟨r, s, f⟩)
  | unreadable {u r : List Token} {token : Token} (split : w = u ++ r)
      (same : ∀ r' s' f', r'.head? = r.head? → p ⟨u ++ r', s', f'⟩ = .unreadable token ⟨r', s', f'⟩) :
      Foreseen p b Q w s f (.unreadable token ⟨r, s, f⟩)

/-- with fewer than `n` tokens left a parser looks one token ahead; a success takes at least `b` tokens, and a failure
before a token in `Q` takes that token -/
def OneAhead (n b : ℕ) (Q : Option Token → Prop) (p : Parser α) : Prop :=
  ∀ w s f, w.length < n → Foreseen p b Q w s f (p ⟨w, s, f⟩)

/-- no token is certain to be taken -/
abbrev noToken : Option Token → Prop := fun _ => False

theorem head?_append_congr {u r r' : List Token} (h : r'.head? = r.head?) : (u ++ r').head? = (u ++ r).head? := by
  cases u with
  | nil => exact h
  | cons t ts => rfl

namespace OneAhead

theorem mono {n m b d : ℕ} {Q R : Option Token → Prop} {p : Parser α} (h : OneAhead n b Q p) (hm : m ≤ n) (hd : d ≤ b)
    (hR : ∀ head, R head → Q head) : OneAhead m d R p := by
  intro w s f hw
  have hp := h w s f (by omega)
  generalize p ⟨w, s, f⟩ = reply at hp ⊢
  cases hp with
  | ok split taken same => exact .ok split (by omega) same
  | fail split taken same => exact .fail split (fun hq => taken (hR _ hq)) same
  | unreadable split same => exact .unreadable split same

theorem pure (n : ℕ) (a : α) : OneAhead n 0 noToken (Pure.pure a : Parser α) :=
  fun w _ _ _ => .ok (u := []) (r := w) rfl le_rfl fun _ _ _ _ => rfl

/-- a parser that stops before the next token or goes on behind it, whatever follows -/
theorem of_first {n : ℕ} {Q : Option Token → Prop} {p : Parser Token} (accepts : Token → Bool)
    (wanted : Option Token → Wanted) (hQ : ∀ head, Q head → ∃ t, head = some t ∧ accepts t = true)
    (hok : ∀ t ts s f, accepts t = true → p ⟨t :: ts, s, f⟩ = .ok t ⟨ts, s, f⟩)
    (hfail : ∀ w s f, (∀ t, w.head? = some t → accepts t = false) →
      p ⟨w, s, f⟩ = .fail (Cursor.complaint (wanted w.head?) ⟨w, s, f⟩) ⟨w, s, f⟩) : OneAhead n 1 Q p := by
  intro w s f _
  by_cases h : ∃ t ts, w = t :: ts ∧ accepts t = true
  · obtain ⟨t, ts, rfl, ht⟩ := h
    rw [hok t ts s f ht]
    exact .ok (u := [t]) rfl le_rfl fun r' s' f' _ => hok t r' s' f' ht
  · have hall : ∀ t, w.head? = some t → accepts t = false := by
      intro t ht
      obtain ⟨ts, rfl⟩ := List.head?_eq_some_iff.1 ht
      by_contra hc
      exact h ⟨t, ts, rfl, by simpa using hc⟩
    rw [hfail w s f hall]
    refine .fail (u := []) (r := w) rfl (fun hq => ?_) fun r' s' f' hr => ?_
    · obtain ⟨t, ht, ha⟩ := hQ _ hq
      rw [hall t ht] at ha
      cases ha
    · rw [List.nil_append, hfail r' s' f' (by rw [hr]; exact hall), hr]

theorem advance (n : ℕ) : OneAhead n 1 (fun head => head.isSome = true) Parsing.advance := by
  refine of_first (fun _ => true) (fun _ => .more) (fun head h => ?_) (fun _ _ _ _ _ => rfl) fun w s f h => ?_
  · obtain ⟨t, rfl⟩ := Option.isSome_iff_exists.1 h
    exact ⟨t, rfl, rfl⟩
  · cases w with
    | nil => rfl
    | cons t ts => cases h t rfl

theorem expectKind (n : ℕ) (kind : TokenKind) :
    OneAhead n 1 (fun head => headKind kind head = true) (Parsing.expectKind kind) := by
  refine of_first (fun t => t.kind = kind) (fun _ => .kind kind) (fun head h => ?_) (fun t ts s f h => ?_)
    fun w s f h => ?_
  · cases head with
    | none => cases h
    | some t => exact ⟨t, rfl, h⟩
  · simp only [Parsing.expectKind]
    rw [if_pos (by simpa using h)]
  · cases w with
    | nil => rfl
    | cons t ts =>
      simp only [Parsing.expectKind]
      rw [if_neg (by simpa using h t rfl)]

theorem expect (n : ℕ) (kind : TokenKind) (lexemes : List String) :
    OneAhead n 1 (fun head => headIs kind lexemes head = true) (Parsing.expect kind lexemes) := by
  refine of_first (Token.isOneOf kind lexemes) (fun head => if headKind kind head then .oneOf lexemes else .kind kind)
    (fun head h => ?_) (fun t ts s f h => ?_) fun w s f h => ?_
  · cases head with
    | none => cases h
    | some t => exact ⟨t, rfl, h⟩
  · simp only [Token.isOneOf, Bool.and_eq_true, decide_eq_true_eq] at h
    simp only [Parsing.expect, h, ne_eq, not_true, if_false, if_true]
  · cases w with
    | nil => rfl
    | cons t ts =>
      have ht := h t rfl
      by_cases hk : t.kind = kind
      · have hl : t.lexeme ∉ lexemes := by simpa [Token.isOneOf, hk] using ht
        simp [Parsing.expect, headKind, hk, hl, Cursor.complaint]
      · simp [Parsing.expect, headKind, hk, Cursor.complaint]

theorem bind {n b : ℕ} {Q : Option Token → Prop} {p : Parser α} {go : α → Parser β} (hp : OneAhead n b Q p)
    (hgo : ∀ a, OneAhead (n - b) 0 noToken (go a)) (hQ : ∀ head, Q head → 1 ≤ b) : OneAhead n b Q (p >>= go) := by
  intro w s f hw
  have h := hp w s f hw
  rw [bind_apply]
  generalize p ⟨w, s, f⟩ = reply at h ⊢
  cases h with
  | @ok u r a split taken same =>
    have hlen : r.length < n - b := by
      have := congrArg List.length split
      simp only [List.length_append] at this
      omega
    have h' := hgo a r s f hlen
    -- what the first parser takes stays the same, since the tokens after it start alike
    have hfirst : ∀ v r' s' f', (v ++ r').head? = r.head? → (p >>= go) ⟨u ++ v ++ r', s', f'⟩ = go a ⟨v ++ r', s', f'⟩ :=
      fun v r' s' f' hr => by rw [List.append_assoc]; exact bind_ok (same _ s' f' hr)
    dsimp only
    generalize go a ⟨r, s, f⟩ = reply' at h' ⊢
    cases h' with
    | @ok v r₂ a' split' taken' same' =>
      refine .ok (u := u ++ v) (by rw [split, split', List.append_assoc]) (by simp; omega) fun r' s' f' hr => ?_
      rw [hfirst v r' s' f' (by rw [split', head?_append_congr hr])]
      exact same' r' s' f' hr
    | @fail v r₂ wanted split' _ same' =>
      refine .fail (u := u ++ v) (by rw [split, split', List.append_assoc])
        (fun hq => by have := hQ _ hq; simp; omega) fun r' s' f' hr => ?_
      rw [hfirst v r' s' f' (by rw [split', head?_append_congr hr])]
      exact same' r' s' f' hr
    | @unreadable v r₂ token split' same' =>
      refine .unreadable (u := u ++ v) (by rw [split, split', List.append_assoc]) fun r' s' f' hr => ?_
      rw [hfirst v r' s' f' (by rw [split', head?_append_congr hr])]
      exact same' r' s' f' hr
  | fail split taken same =>
    exact .fail split taken fun r' s' f' hr => by rw [bind_apply, same r' s' f' hr]
  | unreadable split same =>
    exact .unreadable split fun r' s' f' hr => by rw [bind_apply, same r' s' f' hr]

/-- a sequence takes the token that its first parser is certain to take -/
theorem first {n : ℕ} {Q : Option Token → Prop} {p : Parser α} {go : α → Parser β} (hp : OneAhead n 1 Q p)
    (hgo : ∀ a, OneAhead (n - 1) 0 noToken (go a)) : OneAhead n 1 Q (p >>= go) :=
  hp.bind hgo fun _ _ => le_rfl

theorem andThen {n b : ℕ} {Q : Option Token → Prop} {p : Parser α} {go : α → Parser β} (hp : OneAhead n b Q p)
    (hgo : ∀ a, OneAhead n 0 noToken (go a)) : OneAhead n 0 noToken (p >>= go) :=
  (hp.mono (R := noToken) le_rfl (Nat.zero_le b) fun _ h => h.elim).bind hgo fun _ h => h.elim

/-- nothing is promised about the number of tokens taken -/
theorem weaken {n m b : ℕ} {Q : Option Token → Prop} {p : Parser α} (h : OneAhead n b Q p) (hm : m ≤ n) :
    OneAhead m 0 noToken p :=
  h.mono hm (Nat.zero_le b) fun _ h => h.elim

/-- a question about the next token is answered alike before tokens that start alike -/
theorem look {n b : ℕ} {Q : α → Option Token → Prop} {question : Cursor → α} {go : α → Parser β}
    (answer : Option Token → α) (hq : ∀ c, question c = answer c.rest.head?) (hgo : ∀ x, OneAhead n b (Q x) (go x)) :
    OneAhead n b (fun head => Q (answer head) head) (Parsing.look question >>= go) := by
  intro w s f hw
  have h := hgo (answer w.head?) w s f hw
  have hsame : ∀ u r r' s' f', w = u ++ r → r'.head? = r.head? →
      (Parsing.look question >>= go) ⟨u ++ r', s', f'⟩ = go (answer w.head?) ⟨u ++ r', s', f'⟩ := by
    intro u r r' s' f' split hr
    rw [look_bind, hq, split, ← head?_append_congr (u := u) hr]
  have hw' : (Parsing.look question >>= go) ⟨w, s, f⟩ = go (answer w.head?) ⟨w, s, f⟩ := by rw [look_bind, hq]
  rw [hw']
  generalize go (answer w.head?) ⟨w, s, f⟩ = reply at h ⊢
  cases h with
  | ok split taken same =>
    exact .ok split taken fun r' s' f' hr => (hsame _ _ r' s' f' split hr).trans (same r' s' f' hr)
  | fail split taken same =>
    exact .fail split taken fun r' s' f' hr => (hsame _ _ r' s' f' split hr).trans (same r' s' f' hr)
  | unreadable split same =>
    exact .unreadable split fun r' s' f' hr => (hsame _ _ r' s' f' split hr).trans (same r' s' f' hr)

/-- two ways to go on, chosen by the next token -/
theorem choice {n b : ℕ} {Q R : Option Token → Prop} {question : Cursor → Bool} {p q : Parser α}
    (answer : Option Token → Bool) (hq : ∀ c, question c = answer c.rest.head?) (hp : OneAhead n b Q p)
    (hp' : OneAhead n b R q) :
    OneAhead n b (fun head => if answer head = true then Q head else R head)
      (do if ← Parsing.look question then p else q) :=
  look (Q := fun x head => if x = true then Q head else R head) answer hq fun x => by
    cases x
    · exact hp'.mono le_rfl le_rfl fun _ h => h
    · exact hp.mono le_rfl le_rfl fun _ h => h

theorem either {n b : ℕ} {Q R : Option Token → Prop} {question : Cursor → Bool} {p q : Parser α}
    (answer : Option Token → Bool) (hq : ∀ c, question c = answer c.rest.head?) (hp : OneAhead n b Q p)
    (hp' : OneAhead n b R q) : OneAhead n b noToken (do if ← Parsing.look question then p else q) :=
  (choice answer hq hp hp').mono le_rfl le_rfl fun _ h => h.elim

/-! ### Rules -/

section

variable {n b : ℕ} {e : Parser Node} {Q : Option Token → Prop}

theorem number (n : ℕ) : OneAhead n 1 (fun head => headKind .number head = true) Parsing.number := by
  refine (expectKind n .number).first fun t => ?_
  cases Numeral.read t.lexeme with
  | some i => exact pure _ _
  | none => exact fun w s f _ => .unreadable (u := []) (r := w) rfl fun _ _ _ _ => rfl

theorem group (he : OneAhead n b Q e) :
    OneAhead (n + 1) 1 (fun head => headIs .paren ["("] head = true) (Parsing.group e) :=
  (expect _ _ _).first fun _ => he.andThen fun _ => (expect _ _ _).andThen fun _ => pure _ _

theorem loopCount (he : OneAhead n b Q e) : OneAhead (n + 1) 1 noToken (Parsing.loopCount e) :=
  either _ (seesKind_eq _) ((advance _).first fun _ => pure _ _) (either _ (sees_eq _ _) he.group (number _))

theorem loop (he : OneAhead n b Q e) : OneAhead (n + 1) 1 (fun head => head.isSome = true) (Parsing.loop e) :=
  (advance _).first fun _ => (he.loopCount.weaken (Nat.le_succ n)).andThen fun _ => he.andThen fun _ => pure _ _

theorem letBinding (he : OneAhead n b Q e) :
    OneAhead (n + 1) 1 (fun head => head.isSome = true) (Parsing.letBinding e) :=
  (advance _).first fun _ => (expectKind _ _).andThen fun _ => (expect _ _ _).andThen fun _ =>
    he.andThen fun _ => pure _ _

theorem statement (he : OneAhead n 1 Q e) : OneAhead n 1 noToken (Parsing.statement e) :=
  either _ (sees_eq _ _) ((advance _).first fun _ => (he.weaken (Nat.sub_le n 1)).andThen fun _ => pure _ _)
    (either headLet seesLet_eq (he.letBinding.mono (Nat.le_succ n) le_rfl fun _ h => h) he)

theorem statementLoop (hc : Consumes e) (he : OneAhead n 1 Q e) : OneAhead n 0 noToken (Parsing.statementLoop e) := by
  induction n with
  | zero => exact fun _ _ _ h => by cases h
  | succ n ih =>
    have hmore := ih (he.mono (Nat.le_succ n) le_rfl fun _ h => h)
    rw [statementLoop_unfold hc]
    refine either headCloses closes_eq (pure _ _) ((he.statement.first fun _ => ?_).weaken le_rfl)
    refine either _ (sees_eq _ _) (((advance _).first fun _ => ?_).weaken le_rfl) (pure _ _)
    exact (hmore.weaken (Nat.sub_le _ _)).andThen fun _ => pure _ _

theorem statements (hc : Consumes e) (he : OneAhead n 1 Q e) (position : Int) :
    OneAhead n 0 noToken (Parsing.statements e position) := by
  rw [statements_eq]
  exact look (headOpening position) (openingPosition_eq position) fun _ => (he.statementLoop hc).andThen fun _ => pure _ _

theorem block (hc : Consumes e) (he : OneAhead n 1 Q e) :
    OneAhead (n + 1) 1 (fun head => head.isSome = true) (Parsing.block e) :=
  (advance _).first fun _ => (he.statements hc _).andThen fun _ => (expect _ _ _).andThen fun _ => pure _ _

theorem operandLoop (operators : List String) (hc : Consumes e) (he : OneAhead n b Q e) (left : Node) :
    OneAhead n 0 noToken (Parsing.operandLoop operators e left) := by
  induction n generalizing left with
  | zero => exact fun _ _ _ h => by cases h
  | succ n ih =>
    have he' := he.weaken (Nat.le_succ n)
    rw [operandLoop_unfold operators hc]
    refine either _ (sees_eq _ _) (((advance _).first fun op => ?_).weaken le_rfl) (pure _ _)
    exact he'.andThen fun right => ih (he.mono (Nat.le_succ n) le_rfl fun _ h => h) _

theorem leftChain (operators : List String) (hc : Consumes e) (he : OneAhead n 1 Q e) :
    OneAhead n 1 Q (Parsing.leftChain operators e) := by
  rw [leftChain_eq]
  exact he.first fun left => (he.weaken (Nat.sub_le n 1)).operandLoop operators hc left

theorem atMostOnce (operators : List String) (he : OneAhead n 1 Q e) :
    OneAhead n 1 Q (Parsing.atMostOnce operators e) := by
  refine he.first fun left => either _ (sees_eq _ _) (((advance _).first fun op => ?_).weaken le_rfl) (pure _ _)
  exact (he.weaken (show n - 1 - 1 ≤ n by omega)).andThen fun _ => pure _ _

theorem parameterLoop (n : ℕ) : OneAhead n 0 noToken Parsing.parameterLoop := by
  induction n with
  | zero => exact fun _ _ _ h => by cases h
  | succ n ih =>
    rw [parameterLoop_unfold]
    refine either _ (seesKind_eq _) (((advance _).first fun _ => ?_).weaken le_rfl) (pure _ _)
    exact ih.andThen fun _ => pure _ _

theorem lambda (he : OneAhead n b Q e) :
    OneAhead (n + 1) 1 (fun head => headIs .symbol ["\\"] head = true) (Parsing.lambda e) := by
  rw [lambda_eq]
  exact (expect _ _ _).first fun _ => (parameterLoop _).andThen fun _ => (expect _ _ _).andThen fun _ =>
    he.andThen fun _ => pure _ _

theorem predictive (hc : Consumes e) (he : OneAhead n 1 Q e) : OneAhead n 0 noToken (Parsing.predictive e) := by
  induction n with
  | zero => exact fun _ _ _ h => by cases h
  | succ n ih =>
    have hmore := ih (he.mono (Nat.le_succ n) le_rfl fun _ h => h)
    rw [predictive_unfold hc]
    exact either headStarts startsExpression_eq
      ((he.first fun _ => hmore.andThen fun _ => pure _ _).weaken le_rfl) (pure _ _)

/-! ### Expressions -/

theorem application (hc : Consumes e) (he : OneAhead n 1 Q e) :
    OneAhead (n + 1) 1 (fun head => head.isSome = true) (Parsing.application Parsing.predictive e) := by
  refine (advance _).first fun name => (he.predictive hc).andThen fun args => ?_
  split_ifs
  · exact pure _ _
  · exact pure _ _

theorem factor (hc : Consumes e) (he : OneAhead n 1 Q e) :
    OneAhead (n + 1) 1 headStartsFactor (Parsing.factor Parsing.predictive e) := by
  have h := choice _ (sees_eq .paren ["("]) he.group (choice _ (sees_eq .keyword ["loop"]) he.loop
    (choice _ (sees_eq .paren ["\x7b"]) (he.block hc) (choice _ (seesKind_eq .identifier) (he.application hc) (number _))))
  refine h.mono le_rfl le_rfl fun head ⟨hs, hl, hi⟩ => ?_
  cases head with
  | none => cases hs
  | some t =>
    simp only [headStarts, headIs, headKind, Token.isOneOf, Option.any_some, Bool.or_eq_true, Bool.and_eq_true,
      decide_eq_true_eq, List.contains_cons, List.contains_nil, beq_iff_eq, Bool.or_false] at hs hl hi ⊢
    grind

theorem equality (hc : Consumes e) (he : OneAhead n 1 Q e) :
    OneAhead (n + 1) 1 headStartsFactor (Parsing.equality Parsing.predictive e) := by
  have hf : Consumes (Parsing.factor Parsing.predictive e) := fun n =>
    ((hc n).factor predictive_steady).mono (Nat.le_succ n) le_rfl
  have ht : Consumes (term Parsing.predictive e) := fun n => (hf n).leftChain _
  exact (((he.factor hc).leftChain multiplicativeOperators hf).leftChain additiveOperators ht).atMostOnce
    relationalOperators |>.atMostOnce equalityOperators

theorem conditional (hc : Consumes e) (he : OneAhead n 1 Q e) :
    OneAhead (n + 1) 1 (fun head => headIs .keyword ["if"] head = true) (Parsing.conditional Parsing.predictive e) :=
  (expect _ _ _).first fun _ => ((he.equality hc).weaken (Nat.le_succ n)).andThen fun _ => (expect _ _ _).andThen fun _ =>
    he.andThen fun _ => (expect _ _ _).andThen fun _ => he.andThen fun _ => pure _ _

theorem expressionStep (hc : Consumes e) (he : OneAhead n 1 Q e) :
    OneAhead (n + 1) 1 (fun head => headStarts head = true) (Parsing.expressionStep Parsing.predictive e) := by
  have h := choice _ (sees_eq .symbol ["\\"]) he.lambda (choice _ (sees_eq .keyword ["if"]) (he.conditional hc)
    (he.equality hc))
  refine h.mono le_rfl le_rfl fun head hs => ?_
  split_ifs with h₁ h₂
  · exact h₁
  · exact h₂
  · exact ⟨hs, by simpa using h₁, by simpa using h₂⟩

end

end OneAhead

/-! ## The predictive parser -/

theorem predictive_consumes : Consumes (expression predictive) := expression_consumes predictive_steady

/-- **An expression looks one token ahead**, and fails behind its first token if that can start an expression. -/
theorem expression_oneAhead (n : ℕ) : OneAhead n 1 (fun head => headStarts head = true) (expression predictive) := by
  induction n with
  | zero => exact fun _ _ _ h => by cases h
  | succ n ih =>
    rw [expression_unfold predictive_steady]
    exact ih.expressionStep predictive_consumes

/-- **A whole program looks one token ahead.** -/
theorem wholeInput_oneAhead (n : ℕ) : OneAhead n 0 noToken (wholeInput predictive) := by
  refine ((expression_oneAhead n).statements predictive_consumes 0).andThen fun body => ?_
  exact .either headMore more_eq ((OneAhead.expect _ _ _).andThen fun _ => .pure _ _) (.pure _ _)

end LetScript.Parsing
