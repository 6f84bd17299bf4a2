/-
Every program of the language is accepted.

The grammar is ambiguous and the parser greedy: it gives each argument to the innermost identifier and each operator to the
innermost operand that can take it. Why this loses no program: whatever may follow an expression is *absorbing*. If it
starts with a token at which the parser goes on, then the parser may go on, and what is left may still follow the expression.
- What may follow an operand inside an operation is that operation's rest, then what may follow the operation
  (`Absorbing.extend`); what may follow an argument is more arguments, then what may follow the call (`Absorbing.arguments`).
- What follows in parentheses, braces, conditionals and between statements starts with a token that no expression goes on at
  (`Absorbing.of_closed`).

`Gives p w a r` says what a parser answers before `w`, `Leaves p w K` only that it succeeds and leaves something of `K`.
`Complete n p X` says that the parser `p`, before a word of `X` and something absorbing, succeeds and leaves something that
may follow in the same way. It holds of every rule, hence of programs: `wholeInput_of_program`.
-/
import LetScript.Proofs.Parsing.Soundness
import LetScript.Proofs.Parsing.Speculation

namespace LetScript.Language

open Parsing

variable {α β : Type}

/-! ## What may follow an expression -/

/-- the levels of operators, tightest binding first -/
inductive Level where
  | multiplicative
  | additive
  | relational
  | equality
  deriving DecidableEq

def Level.operators : Level → List String
  | .multiplicative => multiplicativeOperators
  | .additive => additiveOperators
  | .relational => relationalOperators
  | .equality => equalityOperators

/-- what stands between the operators of a level -/
def Level.operand : Level → Phrase Node
  | .multiplicative => Factor
  | .additive => Term
  | .relational => Additive
  | .equality => Relational

/-- no operator belongs to two levels -/
theorem Level.eq_of_operator {l l' : Level} {t : Token} (h : t.isOneOf .operator l.operators = true)
    (h' : t.isOneOf .operator l'.operators = true) : l = l' := by
  have hdisjoint : ∀ lexeme ∈ l.operators, lexeme ∈ l'.operators → l = l' := by
    cases l <;> cases l' <;> decide
  exact hdisjoint t.lexeme (isOneOf_iff.1 h).2 (isOneOf_iff.1 h').2

/-- whatever the parser goes on with can be taken off the front: an operator with its operand, or an argument -/
structure Absorbing (K : List Token → Prop) : Prop where
  operator : ∀ (l : Level) t w, K (t :: w) → t.isOneOf .operator l.operators = true →
    ∃ u a v, w = u ++ v ∧ l.operand u a ∧ K v
  argument : ∀ w, K w → headStarts w.head? = true → ∃ u a v, w = u ++ v ∧ Expr u a ∧ K v

/-- a token, or the end, at which no expression goes on -/
structure Closed (head : Option Token) : Prop where
  operator : ∀ l : Level, headIs .operator l.operators head = false
  argument : headStarts head = false

theorem Absorbing.of_closed {K : List Token → Prop} (h : ∀ w, K w → Closed w.head?) : Absorbing K where
  operator l t w hw ht := by
    have := (h _ hw).operator l
    simp only [headIs, List.head?_cons, Option.any_some] at this
    rw [this] at ht
    cases ht
  argument w hw hs := by
    rw [(h w hw).argument] at hs
    cases hs

/-- more operands of a level may follow, as long as what follows them may -/
theorem Absorbing.extend {K T : List Token → Prop} (l : Level) (h : Absorbing K) (hK : ∀ w, K w → T w)
    (hT : ∀ w, T w → K w ∨ ∃ op u a v, w = op :: (u ++ v) ∧ op.isOneOf .operator l.operators = true ∧ l.operand u a ∧ T v) :
    Absorbing T where
  operator l' t w hw ht := by
    rcases hT _ hw with hk | ⟨op, u, a, v, heq, hop, hu, hv⟩
    · obtain ⟨u, a, v, rfl, hu, hv⟩ := h.operator l' t w hk ht
      exact ⟨u, a, v, rfl, hu, hK v hv⟩
    · obtain ⟨rfl, rfl⟩ := List.cons.inj heq
      obtain rfl := Level.eq_of_operator hop ht
      exact ⟨u, a, v, rfl, hu, hv⟩
  argument w hw hs := by
    rcases hT w hw with hk | ⟨op, u, a, v, rfl, hop, hu, hv⟩
    · obtain ⟨u, a, v, rfl, hu, hv⟩ := h.argument w hk hs
      exact ⟨u, a, v, rfl, hu, hK v hv⟩
    · have hno := (starts_excludes hs).2.2.2.2.2 l.operators
      rw [List.head?_cons, headIs, Option.any_some, hop] at hno
      cases hno

/-- operands of a level, each behind an operator, and then something of `K` -/
inductive ChainTail (l : Level) (K : List Token → Prop) : List Token → Prop where
  | done {w : List Token} (last : K w) : ChainTail l K w
  | more {op : Token} {u v : List Token} {a : Node} (operator : op.isOneOf .operator l.operators = true)
      (operand : l.operand u a) (rest : ChainTail l K v) : ChainTail l K (op :: (u ++ v))

/-- at most one operand of a level behind an operator, and then something of `K` -/
inductive OnceTail (l : Level) (K : List Token → Prop) : List Token → Prop where
  | done {w : List Token} (last : K w) : OnceTail l K w
  | more {op : Token} {u v : List Token} {a : Node} (operator : op.isOneOf .operator l.operators = true)
      (operand : l.operand u a) (last : K v) : OnceTail l K (op :: (u ++ v))

/-- arguments, and then something of `K` -/
inductive ArgumentTail (K : List Token → Prop) : List Token → Prop where
  | done {w : List Token} (last : K w) : ArgumentTail K w
  | more {u v : List Token} {a : Node} (first : Expr u a) (rest : ArgumentTail K v) : ArgumentTail K (u ++ v)

theorem Absorbing.chain {K : List Token → Prop} (l : Level) (h : Absorbing K) : Absorbing (ChainTail l K) := by
  refine h.extend l (fun w => .done) fun w hw => ?_
  cases hw with
  | done last => exact Or.inl last
  | more operator operand rest => exact Or.inr ⟨_, _, _, _, rfl, operator, operand, rest⟩

theorem Absorbing.once {K : List Token → Prop} (l : Level) (h : Absorbing K) : Absorbing (OnceTail l K) := by
  refine h.extend l (fun w => .done) fun w hw => ?_
  cases hw with
  | done last => exact Or.inl last
  | more operator operand last => exact Or.inr ⟨_, _, _, _, rfl, operator, operand, .done last⟩

theorem Absorbing.arguments {K : List Token → Prop} (h : Absorbing K) : Absorbing (ArgumentTail K) where
  operator l t w hw ht := by
    generalize hz : t :: w = z at hw
    cases hw with
    | done last =>
      subst hz
      obtain ⟨u, a, v, rfl, hu, hv⟩ := h.operator l t w last ht
      exact ⟨u, a, v, rfl, hu, .done hv⟩
    | @more u v a first rest =>
      have hs : headStarts (u ++ v).head? = true := Expr.starts.head first v
      rw [← hz] at hs
      have hno := (starts_excludes hs).2.2.2.2.2 l.operators
      rw [List.head?_cons, headIs, Option.any_some, ht] at hno
      cases hno
  argument w hw hs := by
    cases hw with
    | done last =>
      obtain ⟨u, a, v, rfl, hu, hv⟩ := h.argument w last hs
      exact ⟨u, a, v, rfl, hu, .done hv⟩
    | more first rest => exact ⟨_, _, _, rfl, first, rest⟩

/-! ## Answers that are known -/

/-- before `w` a parser answers `a` and leaves `r`, whatever else the cursor holds -/
def Gives (p : Parser α) (w : List Token) (a : α) (r : List Token) : Prop := ∀ s f, p ⟨w, s, f⟩ = .ok a ⟨r, s, f⟩

namespace Gives

variable {p q : Parser α} {w v r : List Token} {a : α}

theorem pure (a : α) (w : List Token) : Gives (Pure.pure a : Parser α) w a w := fun _ _ => rfl

theorem bind {go : α → Parser β} {b : β} (hp : Gives p w a v) (hgo : Gives (go a) v b r) : Gives (p >>= go) w b r :=
  fun s f => by rw [bind_ok (hp s f), hgo s f]

theorem either_true {question : Cursor → Bool} {g : Option Token → Bool} (hq : ∀ c, question c = g c.rest.head?)
    (ha : g w.head? = true) (h : Gives p w a r) : Gives (do if ← look question then p else q) w a r :=
  fun s f => by rw [look_bind, hq, ha]; exact h s f

theorem either_false {question : Cursor → Bool} {g : Option Token → Bool} (hq : ∀ c, question c = g c.rest.head?)
    (ha : g w.head? = false) (h : Gives q w a r) : Gives (do if ← look question then p else q) w a r :=
  fun s f => by rw [look_bind, hq, ha]; exact h s f

theorem advance (t : Token) (w : List Token) : Gives Parsing.advance (t :: w) t w := fun _ _ => rfl

theorem expectKind {kind : TokenKind} {t : Token} (h : t.kind = kind) (w : List Token) :
    Gives (Parsing.expectKind kind) (t :: w) t w :=
  fun _ _ => by simp only [Parsing.expectKind, h, if_true]

theorem expect {kind : TokenKind} {lexemes : List String} {t : Token} (h : t.isOneOf kind lexemes = true) (w : List Token) :
    Gives (Parsing.expect kind lexemes) (t :: w) t w := by
  obtain ⟨hkind, hlexeme⟩ := isOneOf_iff.1 h
  intro s f
  simp only [Parsing.expect, hkind, ne_eq, not_true, if_false, List.contains_iff_mem, hlexeme, if_true]

theorem number {t : Token} (h : t.kind = .number) (hord : Ordinary t) (w : List Token) :
    Gives Parsing.number (t :: w) (literal t) w := by
  refine (expectKind h w).bind ?_
  rw [hord.readable h]
  exact pure _ w

theorem parameterLoop {params : List Token} (h : ∀ t ∈ params, t.kind = .identifier)
    (hw : headKind .identifier w.head? = false) :
    Gives Parsing.parameterLoop (params ++ w) (params.map fun t => .text t.lexeme) w := by
  induction params with
  | nil =>
    rw [parameterLoop_unfold]
    exact either_false (seesKind_eq _) hw (pure [] w)
  | cons t params ih =>
    obtain ⟨hkind, hparams⟩ := List.forall_mem_cons.1 h
    have ht : headKind .identifier (some t) = true := by simpa [headKind] using hkind
    rw [parameterLoop_unfold]
    exact either_true (seesKind_eq _) ht ((advance t _).bind ((ih hparams).bind (pure _ w)))

end Gives

/-! ## Parsers that leave something -/

/-- before `w` a parser succeeds, whatever else the cursor holds, and leaves something of `K` -/
def Leaves (p : Parser α) (w : List Token) (K : List Token → Prop) : Prop :=
  ∃ a r, K r ∧ r <:+ w ∧ ∀ s f, p ⟨w, s, f⟩ = .ok a ⟨r, s, f⟩

namespace Leaves

variable {p q : Parser α} {w r : List Token} {K K' : List Token → Prop}

theorem pure (a : α) (h : K w) : Leaves (Pure.pure a : Parser α) w K := ⟨a, w, h, List.suffix_rfl, fun _ _ => rfl⟩

theorem bind {go : α → Parser β} (hp : Leaves p w K) (hgo : ∀ a r, K r → r <:+ w → Leaves (go a) r K') :
    Leaves (p >>= go) w K' := by
  obtain ⟨a, r, hr, hsuffix, hok⟩ := hp
  obtain ⟨b, r', hr', hsuffix', hok'⟩ := hgo a r hr hsuffix
  exact ⟨b, r', hr', hsuffix'.trans hsuffix, Gives.bind hok hok'⟩

/-- a sequence whose first part leaves exactly the given rest -/
theorem next {go : α → Parser β} (hp : Leaves p w (· = r)) (hgo : ∀ a, Leaves (go a) r K) : Leaves (p >>= go) w K :=
  hp.bind fun a _ hr _ => hr ▸ hgo a

theorem either_true {question : Cursor → Bool} {g : Option Token → Bool} (hq : ∀ c, question c = g c.rest.head?)
    (ha : g w.head? = true) (h : Leaves p w K) : Leaves (do if ← look question then p else q) w K := by
  obtain ⟨a, r, hr, hsuffix, hok⟩ := h
  exact ⟨a, r, hr, hsuffix, Gives.either_true hq ha hok⟩

theorem either_false {question : Cursor → Bool} {g : Option Token → Bool} (hq : ∀ c, question c = g c.rest.head?)
    (ha : g w.head? = false) (h : Leaves q w K) : Leaves (do if ← look question then p else q) w K := by
  obtain ⟨a, r, hr, hsuffix, hok⟩ := h
  exact ⟨a, r, hr, hsuffix, Gives.either_false hq ha hok⟩

theorem advance (t : Token) (w : List Token) : Leaves Parsing.advance (t :: w) (· = w) :=
  ⟨t, w, rfl, List.suffix_cons t w, Gives.advance t w⟩

theorem expectKind {kind : TokenKind} {t : Token} (h : t.kind = kind) (w : List Token) :
    Leaves (Parsing.expectKind kind) (t :: w) (· = w) :=
  ⟨t, w, rfl, List.suffix_cons t w, Gives.expectKind h w⟩

theorem expect {kind : TokenKind} {lexemes : List String} {t : Token} (h : t.isOneOf kind lexemes = true) (w : List Token) :
    Leaves (Parsing.expect kind lexemes) (t :: w) (· = w) :=
  ⟨t, w, rfl, List.suffix_cons t w, Gives.expect h w⟩

theorem number {t : Token} (h : t.kind = .number) (hord : Ordinary t) (w : List Token) :
    Leaves Parsing.number (t :: w) (· = w) :=
  ⟨literal t, w, rfl, List.suffix_cons t w, Gives.number h hord w⟩

theorem parameterLoop {params : List Token} (h : ∀ t ∈ params, t.kind = .identifier)
    (hw : headKind .identifier w.head? = false) : Leaves Parsing.parameterLoop (params ++ w) (· = w) :=
  ⟨_, w, rfl, List.suffix_append params w, Gives.parameterLoop h hw⟩

end Leaves

/-! ## Parsers that take every word -/

/-- before a word of `X` and something absorbing, fewer than `n` ordinary tokens in all, a parser succeeds and leaves
something that may follow in the same way -/
def Complete (n : ℕ) (p : Parser α) (X : Phrase α) : Prop :=
  ∀ K, Absorbing K → ∀ u a k, X u a → K k → (∀ t ∈ u ++ k, Ordinary t) → (u ++ k).length < n → Leaves p (u ++ k) K

/-- what is left of ordinary tokens is ordinary -/
theorem ordinary_of_suffix {r w : List Token} (hs : r <:+ w) (h : ∀ t ∈ w, Ordinary t) : ∀ t ∈ r, Ordinary t :=
  fun t ht => h t (hs.subset ht)

/-- the tokens that close what an expression stands in -/
theorem closed_of_word {t : Token} (h : t.isOneOf .paren [")"] = true ∨ t.isOneOf .paren ["\x7d"] = true ∨
    t.isOneOf .symbol [";"] = true ∨ t.isOneOf .keyword ["then"] = true ∨ t.isOneOf .keyword ["else"] = true) :
    Closed (some t) := by
  simp only [isOneOf_iff, List.mem_singleton] at h
  refine ⟨fun l => ?_, ?_⟩
  · have hkind : t.kind ≠ .operator := by grind
    simp [headIs, Token.isOneOf, hkind]
  · simp only [headStarts, headIs, headKind, Option.any_some, Token.isOneOf]
    rcases h with ⟨hk, hl⟩ | ⟨hk, hl⟩ | ⟨hk, hl⟩ | ⟨hk, hl⟩ | ⟨hk, hl⟩ <;> rw [hk, hl] <;> decide

theorem closed_of_closes {head : Option Token} (h : headCloses head = true) : Closed head := by
  cases head with
  | none => exact ⟨fun _ => rfl, rfl⟩
  | some t => exact closed_of_word (Or.inr (Or.inl (by simpa [headCloses, headIs] using h)))

/-- where something is known to follow that no expression goes on at, the parser leaves exactly that -/
theorem Complete.exactly {n : ℕ} {p : Parser α} {X : Phrase α} (h : Complete n p X) {u k : List Token} {a : α} (hu : X u a)
    (hk : Closed k.head?) (hord : ∀ t ∈ u ++ k, Ordinary t) (hl : (u ++ k).length < n) : Leaves p (u ++ k) (· = k) :=
  h _ (.of_closed fun w hw => by rw [hw]; exact hk) u a k hu rfl hord hl

namespace Complete

section

variable {n : ℕ} {e : Parser Node}

theorem mono {m : ℕ} {p : Parser α} {X : Phrase α} (h : Complete n p X) (hm : m ≤ n) : Complete m p X :=
  fun K hK u a k hu hk hord hl => h K hK u a k hu hk hord (hl.trans_le hm)

theorem group (he : Complete n e Expr) {left right : Token} {u k : List Token} {a : Node}
    (hleft : left.isOneOf .paren ["("] = true) (hu : Expr u a) (hright : right.isOneOf .paren [")"] = true)
    (hord : ∀ t ∈ left :: (u ++ right :: k), Ordinary t) (hl : (u ++ right :: k).length < n) :
    Leaves (Parsing.group e) (left :: (u ++ right :: k)) (· = k) := by
  refine (Leaves.expect hleft _).next fun _ => ?_
  refine (he.exactly (k := right :: k) hu (closed_of_word (Or.inl hright)) (fun t ht => hord t (List.mem_cons_of_mem _ ht)) hl).next
    fun inner => ?_
  exact (Leaves.expect hright k).next fun _ => .pure inner rfl

theorem loopCount (he : Complete n e Expr) {u k : List Token} {a : Node} (hu : Count u a)
    (hord : ∀ t ∈ u ++ k, Ordinary t) (hl : (u ++ k).length < n + 1) : Leaves (Parsing.loopCount e) (u ++ k) (· = k) := by
  cases hu with
  | @number t ht =>
    have hident : headKind .identifier (some t) = false := by simp [headKind, ht]
    have hparen : headIs .paren ["("] (some t) = false := by simp [headIs, Token.isOneOf, ht]
    exact .either_false (seesKind_eq _) hident (.either_false (sees_eq _ _) hparen
      (.number ht (hord t List.mem_cons_self) k))
  | @reference t ht =>
    have hident : headKind .identifier (some t) = true := by simp [headKind, ht]
    exact .either_true (seesKind_eq _) hident ((Leaves.advance t k).next fun _ => .pure _ rfl)
  | @group left right u a hleft hu hright =>
    have hident : headKind .identifier (some left) = false := by simp [headKind, (isOneOf_iff.1 hleft).1]
    rw [List.cons_append, List.append_assoc] at hord hl ⊢
    exact .either_false (seesKind_eq _) hident (.either_true (sees_eq _ _) hleft
      (he.group hleft hu hright hord (Nat.lt_of_succ_lt_succ hl)))

theorem loop (he : Complete n e Expr) {K : List Token → Prop} (hK : Absorbing K) {word : Token} {u v k : List Token}
    {a b : Node} (hu : Count u a) (hv : Expr v b) (hk : K k) (hord : ∀ t ∈ word :: (u ++ (v ++ k)), Ordinary t)
    (hl : (u ++ (v ++ k)).length < n) : Leaves (Parsing.loop e) (word :: (u ++ (v ++ k))) K := by
  have hord' : ∀ t ∈ u ++ (v ++ k), Ordinary t := fun t ht => hord t (List.mem_cons_of_mem word ht)
  refine (Leaves.advance word _).next fun _ => (he.loopCount hu hord' (hl.trans (Nat.lt_succ_self n))).next fun count => ?_
  refine (he K hK v b k hv hk (fun t ht => hord' t (List.mem_append_right u ht)) ?_).bind fun body r hr _ => .pure _ hr
  rw [List.length_append] at hl
  omega

theorem statement (he : Complete n e Expr) : Complete n (Parsing.statement e) Statement := by
  intro K hK u a k hu hk hord hl
  cases hu with
  | @print word u a hword hu =>
    refine .either_true (sees_eq _ _) hword ((Leaves.advance word _).next fun _ => ?_)
    refine (he K hK u a k hu hk (fun t ht => hord t (List.mem_cons_of_mem word ht)) ?_).bind fun shown r hr _ => .pure _ hr
    exact (Nat.lt_succ_self _).trans hl
  | @binding word name sign u a hword hname hsign hu =>
    have hkind := (isOneOf_iff.1 hword).1
    have hprint : headIs .identifier ["print"] (some word) = false := by simp [headIs, Token.isOneOf, hkind]
    have hlet : headLet (some word) = true := by simp only [headLet, headIs, Option.any_some, hword, Bool.or_true]
    refine .either_false (sees_eq _ _) hprint (.either_true (g := headLet) seesLet_eq hlet ?_)
    refine (Leaves.advance word _).next fun _ => (Leaves.expectKind hname _).next fun _ => (Leaves.expect hsign _).next
      fun _ => ?_
    refine (he K hK u a k hu hk (fun t ht => hord t ?_) ?_).bind fun bound r hr _ => .pure _ hr
    · exact List.mem_cons_of_mem _ (List.mem_cons_of_mem _ (List.mem_cons_of_mem _ ht))
    · simp only [List.cons_append, List.length_cons] at hl
      omega
  | bare hprint hu =>
    obtain ⟨hs, hne⟩ := Expr.starts.append hu k
    have hhead : (u ++ k).head? = u.head? := List.head?_append_of_ne_nil u (Expr.starts u a hu).2
    refine .either_false (sees_eq _ _) (by rw [hhead]; exact hprint) (.either_false (g := headLet) seesLet_eq ?_
      (he K hK u a k hu hk hord hl))
    -- an expression starts with no keyword `let`, and an ordinary token is no identifier `let`
    obtain ⟨t, w, hw⟩ := List.exists_cons_of_ne_nil hne
    rw [hw] at hs ⊢
    have hnot := (hord t (by rw [hw]; exact List.mem_cons_self)).notLet
    simp only [List.head?_cons, headLet, headIs, Option.any_some, hnot, Bool.false_or]
    simp only [List.head?_cons, headStarts, headIs, headKind, Option.any_some, Token.isOneOf] at hs ⊢
    grind

/-- statements up to where they end -/
theorem statementLoop (hc : Consumes e) (he : Complete n e Expr) {u k : List Token} {body : List Node} (hu : Program u body)
    (hk : headCloses k.head? = true) (hord : ∀ t ∈ u ++ k, Ordinary t) (hl : (u ++ k).length < n) :
    Leaves (Parsing.statementLoop e) (u ++ k) (· = k) := by
  induction n generalizing u body with
  | zero => cases hl
  | succ n ih =>
    rw [statementLoop_unfold hc]
    cases hu with
    | empty => exact .either_true (g := headCloses) closes_eq hk (.pure _ rfl)
    | @last u a hu =>
      refine .either_false (g := headCloses) closes_eq (Statement.starts.head hu k) ?_
      refine (he.statement.exactly hu (closed_of_closes hk) hord hl).next fun first => ?_
      exact .either_false (sees_eq _ _) (not_semicolon_of_closes hk) (.pure _ rfl)
    | @more u v semicolon a others hu hsemi hv =>
      rw [List.append_assoc, List.cons_append] at hord hl ⊢
      refine .either_false (g := headCloses) closes_eq (Statement.starts.head hu _) ?_
      refine (he.statement.exactly (k := semicolon :: (v ++ k)) hu (closed_of_word (by simp [hsemi])) hord hl).next
        fun first => ?_
      refine .either_true (sees_eq _ _) hsemi ((Leaves.advance semicolon _).next fun _ => ?_)
      refine (ih (he.mono (Nat.le_succ n)) hv (fun t ht => hord t ?_) ?_).next fun _ => .pure _ rfl
      · exact List.mem_append_right u (List.mem_cons_of_mem _ ht)
      · simp only [List.length_append, List.length_cons] at hl ⊢
        omega

theorem statements (hc : Consumes e) (he : Complete n e Expr) {u k : List Token} {body : List Node} (hu : Program u body)
    (hk : headCloses k.head? = true) (hord : ∀ t ∈ u ++ k, Ordinary t) (hl : (u ++ k).length < n) (position : Int) :
    Leaves (Parsing.statements e position) (u ++ k) (· = k) := by
  rw [statements_eq]
  obtain ⟨nodes, r, rfl, hsuffix, hok⟩ := he.statementLoop hc hu hk hord hl
  refine ⟨.statements (headOpening position (u ++ r).head?) (.text "") nodes, r, rfl, hsuffix, fun s f => ?_⟩
  rw [look_bind, bind_ok (hok s f), openingPosition_eq]
  rfl

theorem block (hc : Consumes e) (he : Complete n e Expr) {left right : Token} {u k : List Token} {body : List Node}
    (hu : Program u body) (hright : right.isOneOf .paren ["\x7d"] = true)
    (hord : ∀ t ∈ left :: (u ++ right :: k), Ordinary t) (hl : (u ++ right :: k).length < n) :
    Leaves (Parsing.block e) (left :: (u ++ right :: k)) (· = k) := by
  have hclose : headCloses (some right) = true := by simp [headCloses, headIs, hright]
  refine (Leaves.advance left _).next fun brace => ?_
  refine (he.statements hc (k := right :: k) hu hclose (fun t ht => hord t (List.mem_cons_of_mem _ ht)) hl _).next
    fun inner => ?_
  exact (Leaves.expect hright k).next fun _ => .pure inner rfl

/-! ### Operators -/

/-- the rest of an operation, up to what may follow it -/
theorem operandLoop (l : Level) (hc : Consumes e) (he : Complete n e l.operand) {K : List Token → Prop} (hK : Absorbing K)
    {w : List Token} (hw : ChainTail l K w) (hord : ∀ t ∈ w, Ordinary t) (hl : w.length < n) (left : Node) :
    Leaves (Parsing.operandLoop l.operators e left) w K := by
  induction n generalizing w left with
  | zero => cases hl
  | succ n ih =>
    rw [operandLoop_unfold _ hc]
    by_cases hop : headIs .operator l.operators w.head? = true
    · obtain ⟨t, w', hcons⟩ : ∃ t w', w = t :: w' := by
        cases w with
        | nil => cases hop
        | cons t w' => exact ⟨t, w', rfl⟩
      subst hcons
      obtain ⟨u, a, v, rfl, hu, hv⟩ := (hK.chain l).operator l t _ hw hop
      have hord' : ∀ t' ∈ u ++ v, Ordinary t' := fun t' ht' => hord t' (List.mem_cons_of_mem t ht')
      refine .either_true (sees_eq _ _) hop ((Leaves.advance t _).next fun op => ?_)
      refine (he _ (hK.chain l) u a v hu hv hord' ((Nat.lt_succ_self _).trans hl)).bind fun right r hr hsuffix => ?_
      refine ih (he.mono (Nat.le_succ n)) hr (ordinary_of_suffix hsuffix hord') ?_ _
      have := hsuffix.length_le
      simp only [List.length_cons] at hl
      omega
    · have hno : headIs .operator l.operators w.head? = false := by simpa using hop
      refine .either_false (sees_eq _ _) hno (.pure _ ?_)
      cases hw with
      | done last => exact last
      | more operator operand rest =>
        rw [List.head?_cons, headIs, Option.any_some, operator] at hno
        cases hno

/-- a chain is its first operand and the rest of the operation -/
theorem leftChain_split (l : Level) {u : List Token} {a : Node} (h : LeftChain l.operators l.operand u a) :
    ∃ x b v, u = x ++ v ∧ l.operand x b ∧ ∀ K k, ChainTail l K k → ChainTail l K (v ++ k) := by
  induction h with
  | @one u a first => exact ⟨u, a, [], (List.append_nil u).symm, first, fun _ _ hk => hk⟩
  | @more u v op a b before operator last ih =>
    obtain ⟨x, d, v', rfl, hx, htail⟩ := ih
    refine ⟨x, d, v' ++ op :: v, by rw [List.append_assoc], hx, fun K k hk => ?_⟩
    rw [List.append_assoc, List.cons_append]
    exact htail K _ (.more operator last hk)

theorem leftChain (l : Level) (hc : Consumes e) (he : Complete n e l.operand) :
    Complete n (Parsing.leftChain l.operators e) (LeftChain l.operators l.operand) := by
  intro K hK u a k hu hk hord hl
  obtain ⟨x, b, v, rfl, hx, htail⟩ := leftChain_split l hu
  rw [List.append_assoc] at hord hl ⊢
  rw [leftChain_eq]
  refine (he _ (hK.chain l) x b (v ++ k) hx (htail K k (.done hk)) hord hl).bind fun left r hr hsuffix => ?_
  exact he.operandLoop l hc hK hr (ordinary_of_suffix hsuffix hord) (hsuffix.length_le.trans_lt hl) left

theorem atMostOnce (l : Level) (he : Complete n e l.operand) :
    Complete n (Parsing.atMostOnce l.operators e) (AtMostOnce l.operators l.operand) := by
  intro K hK u a k hu hk hord hl
  -- the first operand, with at most one more operand allowed behind it
  have hfirst : ∃ x b v, u ++ k = x ++ v ∧ l.operand x b ∧ OnceTail l K v := by
    cases hu with
    | one first => exact ⟨u, a, k, rfl, first, .done hk⟩
    | @two u v op a b first operator second =>
      exact ⟨u, a, op :: (v ++ k), by rw [List.append_assoc, List.cons_append], first, .more operator second hk⟩
  obtain ⟨x, b, v, heq, hx, hv⟩ := hfirst
  rw [heq] at hord hl ⊢
  refine (he _ (hK.once l) x b v hx hv hord hl).bind fun left r hr hsuffix => ?_
  have hord' := ordinary_of_suffix hsuffix hord
  have hlen := hsuffix.length_le.trans_lt hl
  by_cases hop : headIs .operator l.operators r.head? = true
  · -- the second operand belongs here or is taken off what follows
    have hsecond : ∃ t y d z, r = t :: (y ++ z) ∧ l.operand y d ∧ K z := by
      cases hr with
      | more operator operand last => exact ⟨_, _, _, _, rfl, operand, last⟩
      | done last =>
        cases r with
        | nil => cases hop
        | cons t w =>
          obtain ⟨y, d, z, rfl, hy, hz⟩ := hK.operator l t w last hop
          exact ⟨t, y, d, z, rfl, hy, hz⟩
    obtain ⟨t, y, d, z, rfl, hy, hz⟩ := hsecond
    refine .either_true (sees_eq _ _) hop ((Leaves.advance t _).next fun op => ?_)
    refine (he K hK y d z hy hz (fun t' ht' => hord' t' (List.mem_cons_of_mem t ht')) ?_).bind
      fun right r' hr' _ => .pure _ hr'
    exact (Nat.lt_succ_self _).trans hlen
  · have hno : headIs .operator l.operators r.head? = false := by simpa using hop
    refine .either_false (sees_eq _ _) hno (.pure _ ?_)
    cases hr with
    | done last => exact last
    | more operator operand last =>
      rw [List.head?_cons, headIs, Option.any_some, operator] at hno
      cases hno

/-! ### Expressions -/

/-- arguments, as long as the next token can start one, up to what may follow the call -/
theorem arguments (hc : Consumes e) (he : Complete n e Expr) {K : List Token → Prop} (hK : Absorbing K) {w : List Token}
    (hw : ArgumentTail K w) (hord : ∀ t ∈ w, Ordinary t) (hl : w.length < n) : Leaves (predictive e) w K := by
  induction n generalizing w with
  | zero => cases hl
  | succ n ih =>
    rw [predictive_unfold hc]
    by_cases hs : headStarts w.head? = true
    · obtain ⟨u, a, v, rfl, hu, hv⟩ := hK.arguments.argument w hw hs
      refine .either_true (g := headStarts) startsExpression_eq hs ?_
      obtain ⟨first, r, hr, hsuffix, hok⟩ := he _ hK.arguments u a v hu hv hord hl
      refine Leaves.bind (K := fun z => z = r) ⟨first, r, rfl, hsuffix, hok⟩ ?_
      rintro first' z rfl -
      have hlt : z.length < n := by
        have := hc.lt (hok 0 none)
        dsimp only at this
        omega
      exact (ih (he.mono (Nat.le_succ n)) hr (ordinary_of_suffix hsuffix hord) hlt).bind fun others r' hr' _ => .pure _ hr'
    · have hno : headStarts w.head? = false := by simpa using hs
      refine .either_false (g := headStarts) startsExpression_eq hno (.pure _ ?_)
      cases hw with
      | done last => exact last
      | more first rest => exact absurd (Expr.starts.head first _) hs

theorem argumentTail_of_arguments {K : List Token → Prop} {u k : List Token} {args : List Node} (h : Arguments u args)
    (hk : K k) : ArgumentTail K (u ++ k) := by
  induction args generalizing u with
  | nil =>
    cases h
    exact .done hk
  | cons a others ih =>
    cases h with
    | more first rest =>
      rw [List.append_assoc]
      exact .more first (ih rest)

theorem application (hc : Consumes e) (he : Complete n e Expr) {K : List Token → Prop} (hK : Absorbing K) {name : Token}
    {w : List Token} (hw : ArgumentTail K w) (hord : ∀ t ∈ w, Ordinary t) (hl : w.length < n) :
    Leaves (Parsing.application predictive e) (name :: w) K := by
  refine (Leaves.advance name w).next fun _ => (he.arguments hc hK hw hord hl).bind fun args r hr _ => ?_
  split_ifs
  · exact .pure _ hr
  · exact .pure _ hr

theorem factor_of_name (hc : Consumes e) (he : Complete n e Expr) {K : List Token → Prop} (hK : Absorbing K) {name : Token}
    (hname : name.kind = .identifier) {w : List Token} (hw : ArgumentTail K w) (hord : ∀ t ∈ name :: w, Ordinary t)
    (hl : (name :: w).length < n + 1) : Leaves (Parsing.factor predictive e) (name :: w) K := by
  have hparens : ∀ lexemes, headIs .paren lexemes (some name) = false := fun _ => by simp [headIs, Token.isOneOf, hname]
  have hword : headIs .keyword ["loop"] (some name) = false := by simp [headIs, Token.isOneOf, hname]
  have hident : headKind .identifier (some name) = true := by simp [headKind, hname]
  exact .either_false (sees_eq _ _) (hparens _) (.either_false (sees_eq _ _) hword (.either_false (sees_eq _ _) (hparens _)
    (.either_true (seesKind_eq _) hident
      (he.application hc hK hw (fun t ht => hord t (List.mem_cons_of_mem _ ht)) (Nat.lt_of_succ_lt_succ hl)))))

theorem factor (hc : Consumes e) (he : Complete n e Expr) : Complete (n + 1) (Parsing.factor predictive e) Factor := by
  intro K hK u a k hu hk hord hl
  cases hu with
  | @group left right u a hleft hu hright =>
    rw [List.cons_append, List.append_assoc] at hord hl ⊢
    obtain ⟨b, r, rfl, h⟩ := he.group hleft hu hright hord (Nat.lt_of_succ_lt_succ hl)
    exact .either_true (sees_eq _ _) hleft ⟨b, r, hk, h⟩
  | @loop word u v a b hword hu hv =>
    have hkind := (isOneOf_iff.1 hword).1
    have hparen : headIs .paren ["("] (some word) = false := by simp [headIs, Token.isOneOf, hkind]
    rw [List.cons_append, List.append_assoc] at hord hl ⊢
    exact .either_false (sees_eq _ _) hparen (.either_true (sees_eq _ _) hword
      (he.loop hK hu hv hk hord (Nat.lt_of_succ_lt_succ hl)))
  | @block left right u body hleft hu hright =>
    obtain ⟨hkind, hlexeme⟩ := isOneOf_iff.1 hleft
    rw [List.mem_singleton] at hlexeme
    have hparen : headIs .paren ["("] (some left) = false := by simp [headIs, Token.isOneOf, hlexeme]
    have hword : headIs .keyword ["loop"] (some left) = false := by simp [headIs, Token.isOneOf, hkind]
    rw [List.cons_append, List.append_assoc] at hord hl ⊢
    obtain ⟨b, r, rfl, h⟩ := he.block hc hu hright hord (Nat.lt_of_succ_lt_succ hl)
    exact .either_false (sees_eq _ _) hparen (.either_false (sees_eq _ _) hword (.either_true (sees_eq _ _) hleft
      ⟨b, r, hk, h⟩))
  | @reference name hname =>
    exact he.factor_of_name hc hK hname (.done hk) hord hl
  | @call name u args hname hargs hne =>
    exact he.factor_of_name hc hK hname (argumentTail_of_arguments hargs hk) hord hl
  | @number t ht =>
    have hparens : ∀ lexemes, headIs .paren lexemes (some t) = false := fun _ => by simp [headIs, Token.isOneOf, ht]
    have hword : headIs .keyword ["loop"] (some t) = false := by simp [headIs, Token.isOneOf, ht]
    have hident : headKind .identifier (some t) = false := by simp [headKind, ht]
    obtain ⟨b, r, rfl, h⟩ := Leaves.number ht (hord t List.mem_cons_self) k
    exact .either_false (sees_eq _ _) (hparens _) (.either_false (sees_eq _ _) hword (.either_false (sees_eq _ _) (hparens _)
      (.either_false (seesKind_eq _) hident ⟨b, r, hk, h⟩)))

theorem equality (hf : Consumes (Parsing.factor predictive e)) (he : Complete n (Parsing.factor predictive e) Factor) :
    Complete n (Parsing.equality predictive e) Equality := by
  have hterm : Complete n (term predictive e) Term := leftChain .multiplicative hf he
  have hadditive : Complete n (additive predictive e) Additive :=
    leftChain .additive (fun n => (hf n).leftChain _) hterm
  have hrelational : Complete n (relational predictive e) Relational := atMostOnce .relational hadditive
  exact atMostOnce .equality hrelational

theorem lambda (he : Complete n e Expr) {K : List Token → Prop} (hK : Absorbing K) {backslash arrow : Token}
    {params u k : List Token} {a : Node} (hback : backslash.isOneOf .symbol ["\\"] = true)
    (hparams : ∀ t ∈ params, t.kind = .identifier) (harrow : arrow.isOneOf .operator ["->"] = true) (hu : Expr u a) (hk : K k)
    (hord : ∀ t ∈ backslash :: (params ++ arrow :: (u ++ k)), Ordinary t) (hl : (params ++ arrow :: (u ++ k)).length < n) :
    Leaves (Parsing.lambda e) (backslash :: (params ++ arrow :: (u ++ k))) K := by
  have hstop : headKind .identifier (some arrow) = false := by simp [headKind, (isOneOf_iff.1 harrow).1]
  rw [lambda_eq]
  refine (Leaves.expect hback _).next fun _ => (Leaves.parameterLoop (w := arrow :: (u ++ k)) hparams hstop).next fun _ => ?_
  refine (Leaves.expect harrow _).next fun _ => ?_
  refine (he K hK u a k hu hk (fun t ht => hord t ?_) ?_).bind fun body r hr _ => .pure _ hr
  · exact List.mem_cons_of_mem _ (List.mem_append_right _ (List.mem_cons_of_mem _ ht))
  · simp only [List.length_append, List.length_cons] at hl ⊢
    omega

theorem conditional (hequality : Complete n (Parsing.equality predictive e) Equality) (he : Complete n e Expr)
    {K : List Token → Prop} (hK : Absorbing K) {wordIf wordThen wordElse : Token} {u v w k : List Token} {a b d : Node}
    (hif : wordIf.isOneOf .keyword ["if"] = true) (hu : Equality u a) (hthen : wordThen.isOneOf .keyword ["then"] = true)
    (hv : Expr v b) (helse : wordElse.isOneOf .keyword ["else"] = true) (hw : Expr w d) (hk : K k)
    (hord : ∀ t ∈ u ++ wordThen :: (v ++ wordElse :: (w ++ k)), Ordinary t)
    (hl : (u ++ wordThen :: (v ++ wordElse :: (w ++ k))).length < n) :
    Leaves (Parsing.conditional predictive e) (wordIf :: (u ++ wordThen :: (v ++ wordElse :: (w ++ k)))) K := by
  have hord₂ : ∀ t ∈ v ++ wordElse :: (w ++ k), Ordinary t := fun t ht =>
    hord t (List.mem_append_right u (List.mem_cons_of_mem _ ht))
  have hord₃ : ∀ t ∈ w ++ k, Ordinary t := fun t ht => hord₂ t (List.mem_append_right v (List.mem_cons_of_mem _ ht))
  have hl₂ : (v ++ wordElse :: (w ++ k)).length < n := by
    rw [List.length_append, List.length_cons] at hl
    omega
  have hl₃ : (w ++ k).length < n := by
    rw [List.length_append, List.length_cons] at hl₂
    omega
  refine (Leaves.expect hif _).next fun _ => ?_
  refine (hequality.exactly (k := wordThen :: (v ++ wordElse :: (w ++ k))) hu (closed_of_word (by simp [hthen])) hord hl).next
    fun _ => (Leaves.expect hthen _).next fun _ => ?_
  refine (he.exactly (k := wordElse :: (w ++ k)) hv (closed_of_word (by simp [helse])) hord₂ hl₂).next
    fun _ => (Leaves.expect helse _).next fun _ => ?_
  exact (he K hK w d k hw hk hord₃ hl₃).bind fun _ r hr _ => .pure _ hr

theorem expressionStep (hf : Consumes (Parsing.factor predictive e)) (hc : Consumes e) (he : Complete n e Expr) :
    Complete (n + 1) (Parsing.expressionStep predictive e) Expr := by
  intro K hK u a k hu hk hord hl
  have hequality := equality hf (he.factor hc)
  cases hu with
  | @lambda backslash arrow params u a hback hparams harrow hu =>
    rw [List.cons_append, List.append_assoc, List.cons_append] at hord hl ⊢
    exact .either_true (sees_eq _ _) hback (he.lambda hK hback hparams harrow hu hk hord (Nat.lt_of_succ_lt_succ hl))
  | @conditional wordIf wordThen wordElse u v w a b d hif hu hthen hv helse hw =>
    have hback : headIs .symbol ["\\"] (some wordIf) = false := by simp [headIs, Token.isOneOf, (isOneOf_iff.1 hif).1]
    rw [List.cons_append, List.append_assoc, List.cons_append, List.append_assoc, List.cons_append] at hord hl ⊢
    exact .either_false (sees_eq _ _) hback (.either_true (sees_eq _ _) hif
      ((hequality.mono (Nat.le_succ n)).conditional he hK hif hu hthen hv helse hw hk
        (fun t ht => hord t (List.mem_cons_of_mem _ ht)) (Nat.lt_of_succ_lt_succ hl)))
  | equality hu =>
    obtain ⟨-, hback, hif⟩ := equality_starts.head hu k
    exact .either_false (sees_eq _ _) hback (.either_false (sees_eq _ _) hif (hequality K hK u a k hu hk hord hl))

end

end Complete

/-! ## Expressions and programs -/

theorem expression_complete (n : ℕ) : Complete n (expression predictive) Expr := by
  induction n with
  | zero => exact fun _ _ _ _ _ _ _ _ h => by cases h
  | succ n ih =>
    rw [expression_unfold predictive_steady]
    exact ih.expressionStep (factor_consumes predictive_steady) predictive_consumes

/-- **Every program is accepted.** -/
theorem wholeInput_of_program {tokens : List Token} {body : List Node} (h : Program tokens body)
    (hord : ∀ t ∈ tokens, Ordinary t) :
    ∃ tree, (wholeInput predictive (Cursor.start tokens)).verdict = .ok tree := by
  have hleaves := (expression_complete (tokens.length + 1)).statements predictive_consumes (k := []) h rfl
    (by simpa using hord) (by simp) 0
  rw [List.append_nil] at hleaves
  obtain ⟨tree, r, rfl, -, hok⟩ := hleaves
  refine ⟨tree, ?_⟩
  unfold wholeInput
  rw [Cursor.start, bind_ok (hok _ _)]
  rfl

/-! ## Token lists and source texts -/

theorem parse_of_program {tokens : List Token} {body : List Node} (h : Program tokens body)
    (hord : ∀ t ∈ tokens, Ordinary t) : ∃ tree, parse tokens = .ok tree := by
  obtain ⟨tree, htree⟩ := wholeInput_of_program h hord
  exact ⟨tree, (parse_ok_iff tokens tree).2 htree⟩

/-- what the predictive parser says when it accepts, the speculative one says with the same tokens taken -/
theorem program_of_wholeInput {tokens : List Token} {tree : Node} {next₀ : Cursor}
    (h : wholeInput predictive (Cursor.start tokens) = .ok tree next₀) :
    ∃ next, program speculative (Cursor.start tokens) = .ok tree next ∧ next.rest = next₀.rest := by
  have hs := start_shadows tokens
  rw [h] at hs
  unfold program
  generalize wholeInput speculative (Cursor.start tokens) = reply at hs ⊢
  cases hs with
  | ok twin beyond reached => exact ⟨_, rfl, twin.rest⟩

theorem program_of_parse {tokens : List Token} {tree : Node} (h : parse tokens = .ok tree)
    (hord : ∀ t ∈ tokens, Ordinary t) :
    (∃ next, program speculative (Cursor.start tokens) = .ok tree next ∧ next.rest = []) ∧
      ∃ body, Program tokens body ∧ tree = .statements (opening 0 tokens) (.text "") body := by
  have hverdict := (parse_ok_iff tokens tree).1 h
  rcases wholeInput_reads hord with ⟨body, next₀, hok, hend, hbody⟩ | ⟨u, complaint, next₀, hfail, -, -⟩
  · rw [hok] at hverdict
    cases hverdict
    obtain ⟨next, hprogram, hrest⟩ := program_of_wholeInput hok
    exact ⟨⟨next, hprogram, hrest.trans hend⟩, body, hbody, rfl⟩
  · rw [hfail] at hverdict
    cases hverdict

/-- **The parser accepts exactly its language.** A source text whose numbers are not too long is accepted if and only if its
tokens are a program; then every token was taken, and the tree is that of a derivation, positions included. -/
theorem parseSource_accepts_iff (source : String)
    (h : ∀ t ∈ Token.tokenize source, t.kind = .number → t.lexeme.length ≤ Numeral.digitLimit) :
    ((∃ tree, parseSource source = .ok tree) ↔ ∃ body, Program (Token.tokenize source) body) ∧
      ∀ tree, parseSource source = .ok tree →
        (∃ next, program speculative (Cursor.start (Token.tokenize source)) = .ok tree next ∧ next.rest = []) ∧
        ∃ body, Program (Token.tokenize source) body ∧
          tree = .statements (opening 0 (Token.tokenize source)) (.text "") body := by
  have hord := tokenize_ordinary h
  refine ⟨⟨?_, ?_⟩, fun tree htree => program_of_parse htree hord⟩
  · rintro ⟨tree, htree⟩
    obtain ⟨-, body, hbody, -⟩ := program_of_parse htree hord
    exact ⟨body, hbody⟩
  · rintro ⟨body, hbody⟩
    exact parse_of_program hbody hord

/-- one comparison goes to the argument and one to the call -/
theorem parseSource_accepts_iff_comparisons :
    (∀ t ∈ Token.tokenize "f 1 < 2 < 3", t.kind = .number → t.lexeme.length ≤ Numeral.digitLimit) ∧
      ∃ tree, parseSource "f 1 < 2 < 3" = .ok tree := by
  have htokens : Token.tokenize "f 1 < 2 < 3" = [⟨.identifier, "f", 0⟩, ⟨.number, "1", 2⟩, ⟨.operator, "<", 4⟩,
      ⟨.number, "2", 6⟩, ⟨.operator, "<", 8⟩, ⟨.number, "3", 10⟩] := by decide
  have hshort : ∀ t ∈ Token.tokenize "f 1 < 2 < 3", t.kind = .number → t.lexeme.length ≤ Numeral.digitLimit := by
    rw [htokens]
    decide
  refine ⟨hshort, (parseSource_accepts_iff _ hshort).1.2 ?_⟩
  have hnumber : ∀ lexeme position, Additive [⟨.number, lexeme, position⟩] (literal ⟨.number, lexeme, position⟩) :=
    fun _ _ => .one (.one (.number rfl))
  have hinner : Relational ([⟨.number, "1", 2⟩] ++ ⟨.operator, "<", 4⟩ :: [⟨.number, "2", 6⟩]) _ :=
    .two (hnumber "1" 2) (by decide) (hnumber "2" 6)
  have hargs := Arguments.more (.equality (.one hinner)) .none
  have hcall : Additive (⟨.identifier, "f", 0⟩ :: _) _ := .one (.one (.call rfl hargs (by simp)))
  rw [htokens]
  exact ⟨_, .last (.bare (by decide) (.equality (.one (.two hcall (by decide) (hnumber "3" 10)))))⟩

end LetScript.Language
