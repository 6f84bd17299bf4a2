/-
The parsers as equations without bounds.

The definitions bound every nesting and every repetition by the number of tokens left. Here the bounds go: an expression
is one step over expressions (`expression_unfold`), and each repetition is one round followed by itself (`operandLoop_unfold`,
`statementLoop_unfold`, `parameterLoop_unfold`, `predictive_unfold`, `speculative_unfold`). Everything proved about the
parsers later starts from these equations.

What makes a bound irrelevant is that a nested expression always stands behind a token: `Agree n b p q` says that `p` and
`q` answer alike where fewer than `n` tokens are left, and that a success takes at least `b` tokens. Every rule turns
agreement of the nested parsers below `n` into agreement of its own below `n + 1`.
-/
import Mathlib.Tactic
import LetScript.Parsing

namespace LetScript.Parsing

variable {α β : Type}

/-! ## Answers of a sequence -/

theorem bind_apply (p : Parser α) (f : α → Parser β) (c : Cursor) :
    (p >>= f) c = match p c with
      | .ok a next => f a next
      | .fail complaint next => .fail complaint next
      | .unreadable token next => .unreadable token next := rfl

theorem look_bind (question : Cursor → α) (f : α → Parser β) (c : Cursor) :
    (look question >>= f) c = f (question c) c := rfl

theorem bind_ok {p : Parser α} {f : α → Parser β} {c next : Cursor} {a : α} (h : p c = .ok a next) :
    (p >>= f) c = f a next := by
  rw [bind_apply, h]

theorem bind_fail {p : Parser α} {f : α → Parser β} {c next : Cursor} {complaint : Complaint}
    (h : p c = .fail complaint next) : (p >>= f) c = .fail complaint next := by
  rw [bind_apply, h]

theorem bind_eq_ok {p : Parser α} {f : α → Parser β} {c last : Cursor} {b : β} (h : (p >>= f) c = .ok b last) :
    ∃ a next, p c = .ok a next ∧ f a next = .ok b last := by
  rw [bind_apply] at h
  cases hp : p c with
  | ok a next => rw [hp] at h; exact ⟨a, next, rfl, h⟩
  | fail complaint next => rw [hp] at h; cases h
  | unreadable token next => rw [hp] at h; cases h

/-! ## Rounds

What each repetition does once before it goes on with `more`. -/

def operandRound (operators : List String) (operand : Parser Node) (more : Node → Parser Node) (left : Node) :
    Parser Node := do
  if ← look (·.sees .operator operators) then
    let operator ← advance
    let right ← operand
    more (.operation operator.position (.text operator.lexeme) left right)
  else return left

def statementRound (e : Parser Node) (more : Parser (List Node)) : Parser (List Node) := do
  if ← look (fun c => c.atEnd || c.sees .paren ["\x7d"]) then return []
  else
    let first ← statement e
    if ← look (·.sees .symbol [";"]) then
      let _ ← advance
      let others ← more
      return first :: others
    else return [first]

def parameterRound (more : Parser (List Json)) : Parser (List Json) := do
  if ← look (·.seesKind .identifier) then
    let name ← advance
    let others ← more
    return .text name.lexeme :: others
  else return []

def predictiveRound (e : Parser Node) (more : Parser (List Node)) : Parser (List Node) := do
  if ← look startsExpression then
    let first ← e
    let others ← more
    return first :: others
  else return []

def speculativeRound (e : Parser Node) (more : Parser (List Node)) : Parser (List Node) := fun c =>
  if c.atEnd || c.sees .symbol [";"] then .ok [] c
  else
    match e c with
    | .ok first next =>
      match more next with
      | .ok others last => .ok (first :: others) last
      | .fail complaint last => .fail complaint last
      | .unreadable token last => .unreadable token last
    | .fail complaint next => .ok [] { (next.remember complaint) with rest := c.rest }
    | .unreadable token next => .unreadable token next

/-! ## Agreement below a number of tokens -/

/-- with fewer than `n` tokens left, two parsers answer alike, and a success takes at least `b` tokens -/
def Agree (n b : ℕ) (p q : Parser α) : Prop :=
  ∀ c : Cursor, c.rest.length < n →
    p c = q c ∧ ∀ a next, p c = .ok a next → next.rest.length + b ≤ c.rest.length

namespace Agree

theorem mono {n m b d : ℕ} {p q : Parser α} (h : Agree n b p q) (hm : m ≤ n) (hd : d ≤ b) : Agree m d p q := by
  intro c hc
  obtain ⟨he, ht⟩ := h c (by omega)
  exact ⟨he, fun a next hok => by have := ht a next hok; omega⟩

theorem pure (n : ℕ) (a : α) : Agree n 0 (Pure.pure a : Parser α) (Pure.pure a) := by
  intro c _
  refine ⟨rfl, fun a' next h => ?_⟩
  cases h
  exact le_rfl

theorem refuse (n b : ℕ) (token : Token) : Agree n b (Parsing.refuse token : Parser α) (Parsing.refuse token) :=
  fun _ _ => ⟨rfl, fun _ _ h => by cases h⟩

theorem advance (n : ℕ) : Agree n 1 Parsing.advance Parsing.advance := by
  intro c _
  refine ⟨rfl, fun a next h => ?_⟩
  unfold Parsing.advance at h
  cases hr : c.rest with
  | nil => rw [hr] at h; cases h
  | cons t ts => rw [hr] at h; cases h; simp

theorem expectKind (n : ℕ) (kind : TokenKind) : Agree n 1 (Parsing.expectKind kind) (Parsing.expectKind kind) := by
  intro c _
  refine ⟨rfl, fun a next h => ?_⟩
  unfold Parsing.expectKind at h
  cases hr : c.rest with
  | nil => rw [hr] at h; cases h
  | cons t ts =>
    rw [hr] at h
    dsimp only at h
    split_ifs at h
    cases h
    simp

theorem expect (n : ℕ) (kind : TokenKind) (lexemes : List String) :
    Agree n 1 (Parsing.expect kind lexemes) (Parsing.expect kind lexemes) := by
  intro c _
  refine ⟨rfl, fun a next h => ?_⟩
  unfold Parsing.expect at h
  cases hr : c.rest with
  | nil => rw [hr] at h; cases h
  | cons t ts =>
    rw [hr] at h
    dsimp only at h
    split_ifs at h
    cases h
    simp

/-- the tokens taken first count against the bound of what follows -/
theorem bind {n b d k : ℕ} {p q : Parser α} {f g : α → Parser β} (hp : Agree n b p q)
    (hf : ∀ a, Agree (n - b) d (f a) (g a)) (hk : k ≤ b + d) : Agree n k (p >>= f) (q >>= g) := by
  intro c hc
  obtain ⟨he, ht⟩ := hp c hc
  rw [bind_apply, bind_apply, ← he]
  cases h : p c with
  | ok a next =>
    have hl := ht a next h
    obtain ⟨he', ht'⟩ := hf a next (by omega)
    exact ⟨he', fun a' last hok => by have := ht' a' last hok; omega⟩
  | fail complaint next => exact ⟨rfl, fun _ _ h => by cases h⟩
  | unreadable token next => exact ⟨rfl, fun _ _ h => by cases h⟩

theorem look {n b : ℕ} {f g : α → Parser β} (question : Cursor → α) (hf : ∀ a, Agree n b (f a) (g a)) :
    Agree n b (Parsing.look question >>= f) (Parsing.look question >>= g) :=
  fun c hc => hf (question c) c hc

theorem ite {n b : ℕ} {p q p' q' : Parser α} (x : Bool) (h : Agree n b p q) (h' : Agree n b p' q') :
    Agree n b (if x = true then p else p') (if x = true then q else q') := by
  cases x
  · exact h'
  · exact h

/-! ### Rules

Each lemma takes agreement of the parser for nested expressions. -/

variable {n : ℕ} {e e' : Parser Node}

theorem number (n : ℕ) : Agree n 1 Parsing.number Parsing.number := by
  refine (expectKind n .number).bind (d := 0) (fun t => ?_) (by omega)
  cases Numeral.read t.lexeme with
  | some i => exact pure _ _
  | none => exact refuse _ _ _

theorem group (he : Agree n 1 e e') : Agree (n + 1) 1 (Parsing.group e) (Parsing.group e') :=
  (expect _ _ _).bind (fun _ => he.bind (fun _ => (expect _ _ _).bind (fun _ => pure _ _) le_rfl) le_rfl) (by omega)

theorem loopCount (he : Agree n 1 e e') : Agree (n + 1) 1 (Parsing.loopCount e) (Parsing.loopCount e') :=
  look _ fun x => ite x ((advance _).bind (fun _ => pure _ _) le_rfl)
    (look _ fun y => ite y he.group (number _))

theorem loop (he : Agree n 1 e e') : Agree (n + 1) 1 (Parsing.loop e) (Parsing.loop e') :=
  (advance _).bind (fun _ => (he.loopCount.mono (Nat.le_succ n) le_rfl).bind
    (fun _ => (he.mono (Nat.sub_le n 1) le_rfl).bind (fun _ => pure _ _) le_rfl) le_rfl) (by omega)

theorem letBinding (he : Agree n 1 e e') : Agree n 1 (Parsing.letBinding e) (Parsing.letBinding e') :=
  (advance _).bind (fun _ => (expectKind _ _).bind (fun _ => (expect _ _ _).bind (fun _ =>
    (he.mono (by omega) le_rfl).bind (fun _ => pure _ _) le_rfl) le_rfl) le_rfl) (by omega)

theorem statement (he : Agree n 1 e e') : Agree n 1 (Parsing.statement e) (Parsing.statement e') :=
  look _ fun x => ite x
    ((advance _).bind (fun _ => (he.mono (Nat.sub_le n 1) le_rfl).bind (fun _ => pure _ _) le_rfl) (by omega))
    (look _ fun y => ite y he.letBinding he)

theorem statementRound {r r' : Parser (List Node)} (he : Agree n 1 e e') (hr : Agree (n - 1) 0 r r') :
    Agree n 0 (Parsing.statementRound e r) (Parsing.statementRound e' r') := by
  refine look _ fun x => ite x (pure _ _) (he.statement.bind (d := 0) (fun first => ?_) (by omega))
  refine look _ fun y => ite y ((advance _).bind (d := 0) (fun _ => ?_) (by omega)) (pure _ _)
  exact (hr.mono (by omega) le_rfl).bind (fun _ => pure _ _) le_rfl

theorem statementRun (he : Agree n 1 e e') (bound : ℕ) :
    Agree n 0 (Parsing.statementRun e bound) (Parsing.statementRun e' bound) := by
  induction bound with
  | zero => exact pure _ _
  | succ bound ih => exact he.statementRound (ih.mono (Nat.sub_le n 1) le_rfl)

theorem statements (he : Agree n 1 e e') (position : Int) :
    Agree n 0 (Parsing.statements e position) (Parsing.statements e' position) :=
  look _ fun _ => look _ fun bound => (he.statementRun bound).bind (fun _ => pure _ _) le_rfl

theorem block (he : Agree n 1 e e') : Agree (n + 1) 1 (Parsing.block e) (Parsing.block e') :=
  (advance _).bind (fun _ => (he.statements _).bind (fun _ => (expect _ _ _).bind (fun _ => pure _ _) le_rfl) le_rfl)
    (by omega)

theorem operandRound {r r' : Node → Parser Node} (operators : List String) (he : Agree n 1 e e')
    (hr : ∀ left, Agree (n - 1) 0 (r left) (r' left)) (left : Node) :
    Agree n 0 (Parsing.operandRound operators e r left) (Parsing.operandRound operators e' r' left) := by
  refine look _ fun x => ite x ((advance _).bind (d := 0) (fun op => ?_) (by omega)) (pure _ _)
  exact (he.mono (Nat.sub_le n 1) le_rfl).bind (fun right => (hr _).mono (by omega) le_rfl) (by omega)

theorem operandRun (operators : List String) (he : Agree n 1 e e') (bound : ℕ) (left : Node) :
    Agree n 0 (Parsing.operandRun operators e bound left) (Parsing.operandRun operators e' bound left) := by
  induction bound generalizing left with
  | zero => exact pure _ _
  | succ bound ih => exact he.operandRound operators (fun left => (ih left).mono (Nat.sub_le n 1) le_rfl) left

theorem leftChain (operators : List String) (he : Agree n 1 e e') :
    Agree n 1 (Parsing.leftChain operators e) (Parsing.leftChain operators e') :=
  he.bind (fun first => look _ fun bound => (he.mono (Nat.sub_le n 1) le_rfl).operandRun operators bound first) le_rfl

theorem atMostOnce (operators : List String) (he : Agree n 1 e e') :
    Agree n 1 (Parsing.atMostOnce operators e) (Parsing.atMostOnce operators e') := by
  refine he.bind (d := 0) (fun left => look _ fun x => ite x ?_ (pure _ _)) le_rfl
  exact (advance _).bind (fun _ => (he.mono (by omega) le_rfl).bind (fun _ => pure _ _) le_rfl) (by omega)

theorem parameterRound {r r' : Parser (List Json)} (hr : Agree (n - 1) 0 r r') :
    Agree n 0 (Parsing.parameterRound r) (Parsing.parameterRound r') :=
  look _ fun x => ite x ((advance _).bind (fun _ => hr.bind (fun _ => pure _ _) le_rfl) (by omega)) (pure _ _)

theorem parameterRun (n bound : ℕ) : Agree n 0 (Parsing.parameterRun bound) (Parsing.parameterRun bound) := by
  induction bound with
  | zero => exact pure _ _
  | succ bound ih => exact parameterRound (ih.mono (Nat.sub_le n 1) le_rfl)

theorem lambda (he : Agree n 1 e e') : Agree (n + 1) 1 (Parsing.lambda e) (Parsing.lambda e') :=
  (expect _ _ _).bind (fun _ => look _ fun bound => (parameterRun _ bound).bind (fun _ => (expect _ _ _).bind (fun _ =>
    (he.mono (by omega) le_rfl).bind (fun _ => pure _ _) le_rfl) le_rfl) le_rfl) (by omega)

end Agree

/-! ### Gathering -/

/-- a way to gather arguments that depends on the parser of one argument only as far as the tokens reach -/
def Steady (gather : Gather) : Prop :=
  ∀ (n : ℕ) (e e' : Parser Node), Agree n 1 e e' → Agree n 0 (gather e) (gather e')

section

variable {n : ℕ} {e e' : Parser Node} {r r' : Parser (List Node)}

theorem Agree.predictiveRound (he : Agree n 1 e e') (hr : Agree (n - 1) 0 r r') :
    Agree n 0 (Parsing.predictiveRound e r) (Parsing.predictiveRound e' r') :=
  look _ fun x => ite x (he.bind (fun _ => hr.bind (fun _ => pure _ _) le_rfl) (by omega)) (pure _ _)

theorem Agree.speculativeRound (he : Agree n 1 e e') (hr : Agree (n - 1) 0 r r') :
    Agree n 0 (Parsing.speculativeRound e r) (Parsing.speculativeRound e' r') := by
  intro c hc
  obtain ⟨hee, het⟩ := he c hc
  unfold Parsing.speculativeRound
  split_ifs with hstop
  · refine ⟨rfl, fun a next h => ?_⟩
    cases h
    exact le_rfl
  · rw [← hee]
    cases h : e c with
    | ok first next =>
      have hl := het first next h
      obtain ⟨hre, hrt⟩ := hr next (by omega)
      dsimp only
      rw [← hre]
      refine ⟨rfl, fun a last hok => ?_⟩
      cases hm : r next with
      | ok others after =>
        have := hrt others after hm
        rw [hm] at hok
        cases hok
        omega
      | fail complaint after => rw [hm] at hok; cases hok
      | unreadable token after => rw [hm] at hok; cases hok
    | fail complaint next =>
      refine ⟨rfl, fun a last hok => ?_⟩
      cases hok
      exact le_rfl
    | unreadable token next => exact ⟨rfl, fun a last hok => by cases hok⟩

theorem Agree.expressionRun (he : Agree n 1 e e') (bound : ℕ) :
    Agree n 0 (Parsing.expressionRun e bound) (Parsing.expressionRun e' bound) := by
  induction bound with
  | zero => exact pure _ _
  | succ bound ih => exact he.predictiveRound (ih.mono (Nat.sub_le n 1) le_rfl)

theorem Agree.attempts (he : Agree n 1 e e') (bound : ℕ) :
    Agree n 0 (Parsing.attempts e bound) (Parsing.attempts e' bound) := by
  induction bound with
  | zero => exact pure _ _
  | succ bound ih => exact he.speculativeRound (ih.mono (Nat.sub_le n 1) le_rfl)

end

theorem predictive_steady : Steady predictive := fun _ _ _ he c hc => he.expressionRun c.rest.length c hc

theorem speculative_steady : Steady speculative := fun _ _ _ he c hc => he.attempts c.rest.length c hc

/-! ### Expressions -/

namespace Agree

variable {n : ℕ} {e e' : Parser Node} {gather : Gather}

theorem application (hg : Steady gather) (he : Agree n 1 e e') :
    Agree (n + 1) 1 (Parsing.application gather e) (Parsing.application gather e') := by
  refine (advance _).bind (d := 0) (fun name => (hg n e e' he).bind (d := 0) (fun args => ?_) le_rfl) le_rfl
  split_ifs
  · exact pure _ _
  · exact pure _ _

theorem factor (hg : Steady gather) (he : Agree n 1 e e') :
    Agree (n + 1) 1 (Parsing.factor gather e) (Parsing.factor gather e') :=
  look _ fun a => ite a he.group (look _ fun b => ite b he.loop (look _ fun c => ite c he.block
    (look _ fun d => ite d (he.application hg) (number _))))

theorem equality (hg : Steady gather) (he : Agree n 1 e e') :
    Agree (n + 1) 1 (Parsing.equality gather e) (Parsing.equality gather e') :=
  ((((he.factor hg).leftChain multiplicativeOperators).leftChain additiveOperators).atMostOnce
    relationalOperators).atMostOnce equalityOperators

theorem conditional (hg : Steady gather) (he : Agree n 1 e e') :
    Agree (n + 1) 1 (Parsing.conditional gather e) (Parsing.conditional gather e') := by
  refine (expect _ _ _).bind (d := 0) (fun _ => ?_) (by omega)
  refine ((he.equality hg).mono (Nat.le_succ n) le_rfl).bind (d := 0) (fun condition => ?_) (by omega)
  refine (expect _ _ _).bind (d := 0) (fun _ => (he.mono (by omega) le_rfl).bind (d := 0) (fun a => ?_) (by omega))
    (by omega)
  exact (expect _ _ _).bind (fun _ => (he.mono (by omega) le_rfl).bind (fun _ => pure _ _) le_rfl) (by omega)

theorem expressionStep (hg : Steady gather) (he : Agree n 1 e e') :
    Agree (n + 1) 1 (Parsing.expressionStep gather e) (Parsing.expressionStep gather e') :=
  look _ fun x => ite x he.lambda (look _ fun y => ite y (he.conditional hg) (he.equality hg))

end Agree

/-! ## Bounds -/

section Bounded

variable {σ : Type} {b : ℕ} {run : ℕ → σ → Parser α} {round : (σ → Parser α) → σ → Parser α}

/-- a family of parsers, each one round over the one with the next smaller bound; at the end of the input the bound does
not matter, and a round calls for the next only behind a token -/
structure Bounded (b : ℕ) (run : ℕ → σ → Parser α) (round : (σ → Parser α) → σ → Parser α) : Prop where
  succ : ∀ k s, run (k + 1) s = round (run k) s
  nil : ∀ r s c, c.rest = [] → run 0 s c = round r s c
  base : ∀ s, Agree 1 b (run 0 s) (run 0 s)
  guarded : ∀ n r r', (∀ s, Agree n b (r s) (r' s)) → ∀ s, Agree (n + 1) b (round r s) (round r' s)

/-- a family with the tokens left as its bound -/
def unbounded (run : ℕ → σ → Parser α) (s : σ) : Parser α := fun c => run c.rest.length s c

namespace Bounded

theorem agree (h : Bounded b run round) {m k : ℕ} (hmk : m ≤ k) (s : σ) : Agree (m + 1) b (run m s) (run k s) := by
  induction m generalizing k s with
  | zero =>
    intro c hc
    have hnil : c.rest = [] := List.length_eq_zero_iff.1 (by omega)
    refine ⟨?_, (h.base s c hc).2⟩
    cases k with
    | zero => rfl
    | succ k => rw [h.succ]; exact h.nil _ s c hnil
  | succ m ih =>
    obtain ⟨k, rfl⟩ := Nat.exists_eq_add_of_le' (show 1 ≤ k by omega)
    rw [h.succ, h.succ]
    exact h.guarded _ _ _ (fun s => ih (by omega) s) s

theorem agree_unbounded (h : Bounded b run round) (m : ℕ) (s : σ) : Agree (m + 1) b (run m s) (unbounded run s) :=
  fun c hc => ⟨((h.agree (show c.rest.length ≤ m by omega) s) c (Nat.lt_succ_self _)).1.symm, (h.agree le_rfl s c hc).2⟩

/-- the bound is gone: the family is one round over itself -/
theorem unfold (h : Bounded b run round) : unbounded run = round (unbounded run) := by
  funext s c
  cases hc : c.rest.length with
  | zero =>
    rw [unbounded, hc]
    exact h.nil _ s c (List.length_eq_zero_iff.1 hc)
  | succ m =>
    rw [unbounded, hc, h.succ]
    exact (h.guarded _ _ _ (h.agree_unbounded m) s c (by omega)).1

theorem takes (h : Bounded b run round) (n : ℕ) (s : σ) : Agree n b (unbounded run s) (unbounded run s) :=
  fun c _ => ⟨rfl, (h.agree le_rfl s c (Nat.lt_succ_self _)).2⟩

end Bounded

end Bounded

/-- a parser whose successes take a token -/
def Consumes (p : Parser α) : Prop := ∀ n, Agree n 1 p p

theorem Consumes.lt {p : Parser α} (hp : Consumes p) {c next : Cursor} {a : α} (h : p c = .ok a next) :
    next.rest.length < c.rest.length :=
  (hp (c.rest.length + 1) c (Nat.lt_succ_self _)).2 a next h

/-! ## Expressions -/

theorem expressionWithin_bounded {gather : Gather} (hg : Steady gather) :
    Bounded 1 (fun k (_ : Unit) => expressionWithin gather k) (fun r _ => expressionStep gather (r ())) where
  succ _ _ := rfl
  nil r _ c hc := by
    obtain ⟨rest, stop, furthest⟩ := c
    cases hc
    rfl
  base _ := Agree.number 1
  guarded _ _ _ h _ := (h ()).expressionStep hg

/-- **An expression is one step over expressions.** -/
theorem expression_unfold {gather : Gather} (hg : Steady gather) :
    expression gather = expressionStep gather (expression gather) :=
  congrFun (expressionWithin_bounded hg).unfold ()

theorem expression_consumes {gather : Gather} (hg : Steady gather) : Consumes (expression gather) :=
  fun n => (expressionWithin_bounded hg).takes n ()

theorem factor_consumes {gather : Gather} (hg : Steady gather) : Consumes (factor gather (expression gather)) :=
  fun n => ((expression_consumes hg n).factor hg).mono (Nat.le_succ n) le_rfl

/-! ## Repetitions

Every repetition of the grammar, with the tokens left as its bound, is a round over itself. -/

section Repetitions

variable {e operand : Parser Node}

/-- operands after the first, as many as stand there -/
def operandLoop (operators : List String) (operand : Parser Node) : Node → Parser Node :=
  unbounded (operandRun operators operand)

theorem operandLoop_unfold (operators : List String) (hp : Consumes operand) (left : Node) :
    operandLoop operators operand left = operandRound operators operand (operandLoop operators operand) left := by
  have hb : Bounded 0 (operandRun operators operand) (operandRound operators operand) :=
    { succ := fun _ _ => rfl
      nil := by rintro r left ⟨rest, stop, furthest⟩ rfl; rfl
      base := fun left => .pure 1 left
      guarded := fun n r r' h left => (hp (n + 1)).operandRound operators h left }
  exact congrFun hb.unfold left

theorem leftChain_eq (operators : List String) (operand : Parser Node) :
    leftChain operators operand = operand >>= operandLoop operators operand := rfl

/-- statements with semicolons between them, as many as stand there -/
def statementLoop (e : Parser Node) : Parser (List Node) := unbounded (fun k (_ : Unit) => statementRun e k) ()

theorem statementLoop_unfold (he : Consumes e) : statementLoop e = statementRound e (statementLoop e) := by
  have hb : Bounded 0 (fun k (_ : Unit) => statementRun e k) (fun r _ => statementRound e (r ())) :=
    { succ := fun _ _ => rfl
      nil := by rintro r _ ⟨rest, stop, furthest⟩ rfl; rfl
      base := fun _ => .pure 1 []
      guarded := fun n r r' h _ => (he (n + 1)).statementRound (h ()) }
  exact congrFun hb.unfold ()

theorem statements_eq (e : Parser Node) (position : Int) :
    statements e position = do
      let opening ← look (openingPosition position)
      let body ← statementLoop e
      return .statements opening (.text "") body := rfl

/-- parameter names, as many as stand there -/
def parameterLoop : Parser (List Json) := unbounded (fun k (_ : Unit) => parameterRun k) ()

theorem parameterLoop_unfold : parameterLoop = parameterRound parameterLoop := by
  have hb : Bounded 0 (fun k (_ : Unit) => parameterRun k) (fun r _ => parameterRound (r ())) :=
    { succ := fun _ _ => rfl
      nil := by rintro r _ ⟨rest, stop, furthest⟩ rfl; rfl
      base := fun _ => .pure 1 []
      guarded := fun n r r' h _ => Agree.parameterRound (n := n + 1) (h ()) }
  exact congrFun hb.unfold ()

theorem lambda_eq (e : Parser Node) :
    lambda e = do
      let backslash ← expect .symbol ["\\"]
      let params ← parameterLoop
      let _ ← expect .operator ["->"]
      let body ← e
      return .lambda backslash.position params body := rfl

theorem predictive_unfold (he : Consumes e) : predictive e = predictiveRound e (predictive e) := by
  have hb : Bounded 0 (fun k (_ : Unit) => expressionRun e k) (fun r _ => predictiveRound e (r ())) :=
    { succ := fun _ _ => rfl
      nil := by rintro r _ ⟨rest, stop, furthest⟩ rfl; rfl
      base := fun _ => .pure 1 []
      guarded := fun n r r' h _ => (he (n + 1)).predictiveRound (h ()) }
  exact congrFun hb.unfold ()

theorem speculative_unfold (he : Consumes e) : speculative e = speculativeRound e (speculative e) := by
  have hb : Bounded 0 (fun k (_ : Unit) => attempts e k) (fun r _ => speculativeRound e (r ())) :=
    { succ := fun _ _ => rfl
      nil := by rintro r _ ⟨rest, stop, furthest⟩ rfl; rfl
      base := fun _ => .pure 1 []
      guarded := fun n r r' h _ => (he (n + 1)).speculativeRound (h ()) }
  exact congrFun hb.unfold ()

end Repetitions

end LetScript.Parsing
