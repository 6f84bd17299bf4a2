/-
The parser as a recursion without bounds.

The rules of the grammar call each other, and some call another, or themselves, before they take a token. `Rule` names them,
and the rounds of their repetitions; `Rule.body` says what a rule does given what every call does, and `Rule.parser` is the
parser for the rule. No bound occurs in the bodies, so whether the recursion comes to an end is a question: `unrolled` puts the
bodies into each other to some depth, with anything at all at the bottom.

It comes to an end because every call that is made before a token is taken is of a rule of a lower level, and there are only
ten levels. Whatever the calls do, bodies agree where the calls of lower rules agree, and behind the first token all calls
(`body_agree`). So unrolling as deep as the tokens and the level ask for reaches the bottom nowhere, and is the parser:
`unrolled_eq`.
-/
import LetScript.Proofs.Parsing.Unfolding

namespace LetScript.Parsing

variable {α β : Type}

/-! ## Sequences -/

namespace Agree

variable {n b : ℕ} {p q : Parser α} {f g : α → Parser β}

/-- what follows a token stands before fewer tokens -/
theorem first (hp : Agree (n + 1) 1 p q) (hf : ∀ a, Agree n 0 (f a) (g a)) : Agree (n + 1) 1 (p >>= f) (q >>= g) :=
  hp.bind hf le_rfl

theorem andThen (hp : Agree n b p q) (hf : ∀ a, Agree n 0 (f a) (g a)) : Agree n 0 (p >>= f) (q >>= g) :=
  hp.bind (fun a => (hf a).mono (Nat.sub_le n b) le_rfl) (Nat.zero_le _)

/-- no token needs to be taken -/
theorem weaken (hp : Agree n b p q) : Agree n 0 p q := hp.mono le_rfl (Nat.zero_le b)

theorem operandRound_behind {operators : List String} {e e' : Parser Node} {r r' : Node → Parser Node} (he : Agree n b e e')
    (hr : ∀ left, Agree n 0 (r left) (r' left)) (left : Node) :
    Agree (n + 1) 0 (Parsing.operandRound operators e r left) (Parsing.operandRound operators e' r' left) := by
  refine .look _ fun x => .ite x ((Agree.advance _).first fun _ => ?_).weaken (.pure _ _)
  exact he.andThen fun _ => hr _

end Agree

/-! ## Rules -/

/-- the rules of the grammar, and the rounds of their repetitions, by what they result in -/
inductive Rule : Type → Type where
  | statements (position : Int) : Rule Node
  | statementRun : Rule (List Node)
  | statement : Rule Node
  | letBinding : Rule Node
  | loop : Rule Node
  | loopCount : Rule Node
  | expression : Rule Node
  | conditional : Rule Node
  | lambda : Rule Node
  | parameterRun : Rule (List Json)
  | equality : Rule Node
  | relational : Rule Node
  | additive : Rule Node
  | additiveRun (left : Node) : Rule Node
  | term : Rule Node
  | termRun (left : Node) : Rule Node
  | factor : Rule Node
  | group : Rule Node
  | arguments : Rule (List Node)
  | number : Rule Node

/-- a parser for every rule -/
abbrev Table := ∀ α : Type, Rule α → Parser α

namespace Rule

/-- the parser for a rule -/
def parser : {α : Type} → Rule α → Parser α
  | _, .statements position => Parsing.statements (Parsing.expression speculative) position
  | _, .statementRun => statementLoop (Parsing.expression speculative)
  | _, .statement => Parsing.statement (Parsing.expression speculative)
  | _, .letBinding => Parsing.letBinding (Parsing.expression speculative)
  | _, .loop => Parsing.loop (Parsing.expression speculative)
  | _, .loopCount => Parsing.loopCount (Parsing.expression speculative)
  | _, .expression => Parsing.expression speculative
  | _, .conditional => Parsing.conditional speculative (Parsing.expression speculative)
  | _, .lambda => Parsing.lambda (Parsing.expression speculative)
  | _, .parameterRun => parameterLoop
  | _, .equality => Parsing.equality speculative (Parsing.expression speculative)
  | _, .relational => Parsing.relational speculative (Parsing.expression speculative)
  | _, .additive => Parsing.additive speculative (Parsing.expression speculative)
  | _, .additiveRun left => operandLoop additiveOperators (Parsing.term speculative (Parsing.expression speculative)) left
  | _, .term => Parsing.term speculative (Parsing.expression speculative)
  | _, .termRun left =>
    operandLoop multiplicativeOperators (Parsing.factor speculative (Parsing.expression speculative)) left
  | _, .factor => Parsing.factor speculative (Parsing.expression speculative)
  | _, .group => Parsing.group (Parsing.expression speculative)
  | _, .arguments => speculative (Parsing.expression speculative)
  | _, .number => Parsing.number

/-- what a rule does, given what every call does -/
def body (call : Table) : {α : Type} → Rule α → Parser α
  | _, .statements position => do
    let opening ← look (openingPosition position)
    let body ← call _ .statementRun
    return .statements opening (.text "") body
  | _, .statementRun => do
    if ← look (fun c => c.atEnd || c.sees .paren ["\x7d"]) then return []
    else
      let first ← call _ .statement
      if ← look (·.sees .symbol [";"]) then
        let _ ← advance
        let others ← call _ .statementRun
        return first :: others
      else return [first]
  | _, .statement => do
    if ← look (·.sees .identifier ["print"]) then
      let word ← advance
      let shown ← call _ .expression
      return .call word.position (.text "print") [shown]
    else if ← look (fun c => c.sees .identifier ["let"] || c.sees .keyword ["let"]) then call _ .letBinding
    else call _ .expression
  | _, .letBinding => Parsing.letBinding (call _ .expression)
  | _, .loop => do
    let keyword ← advance
    let count ← call _ .loopCount
    let body ← call _ .expression
    return .statements keyword.position (.text loopMode) [count, body]
  | _, .loopCount => do
    if ← look (·.seesKind .identifier) then
      let name ← advance
      return .reference name.position (.text name.lexeme)
    else if ← look (·.sees .paren ["("]) then call _ .group
    else call _ .number
  | _, .expression => do
    if ← look (·.sees .symbol ["\\"]) then call _ .lambda
    else if ← look (·.sees .keyword ["if"]) then call _ .conditional
    else call _ .equality
  | _, .conditional => do
    let _ ← expect .keyword ["if"]
    let condition ← call _ .equality
    let _ ← expect .keyword ["then"]
    let consequent ← call _ .expression
    let _ ← expect .keyword ["else"]
    let alternative ← call _ .expression
    return .conditional condition.position condition consequent alternative
  | _, .lambda => do
    let backslash ← expect .symbol ["\\"]
    let params ← call _ .parameterRun
    let _ ← expect .operator ["->"]
    let body ← call _ .expression
    return .lambda backslash.position params body
  | _, .parameterRun => parameterRound (call _ .parameterRun)
  | _, .equality => atMostOnce equalityOperators (call _ .relational)
  | _, .relational => atMostOnce relationalOperators (call _ .additive)
  | _, .additive => do
    let first ← call _ .term
    call _ (.additiveRun first)
  | _, .additiveRun left => operandRound additiveOperators (call _ .term) (fun left => call _ (.additiveRun left)) left
  | _, .term => do
    let first ← call _ .factor
    call _ (.termRun first)
  | _, .termRun left => operandRound multiplicativeOperators (call _ .factor) (fun left => call _ (.termRun left)) left
  | _, .factor => do
    if ← look (·.sees .paren ["("]) then call _ .group
    else if ← look (·.sees .keyword ["loop"]) then call _ .loop
    else if ← look (·.sees .paren ["\x7b"]) then
      let brace ← advance
      let body ← call _ (.statements brace.position)
      let _ ← expect .paren ["\x7d"]
      return body
    else if ← look (·.seesKind .identifier) then
      let name ← advance
      let args ← call _ .arguments
      if args.isEmpty then return .reference name.position (.text name.lexeme)
      else return .call name.position (.text name.lexeme) args
    else call _ .number
  | _, .group => Parsing.group (call _ .expression)
  | _, .arguments => speculativeRound (call _ .expression) (call _ .arguments)
  | _, .number => Parsing.number

/-- how many tokens a success takes at least: none are needed for repetitions, one for everything else -/
def least : {α : Type} → Rule α → ℕ
  | _, .statements _ => 0
  | _, .statementRun => 0
  | _, .parameterRun => 0
  | _, .additiveRun _ => 0
  | _, .termRun _ => 0
  | _, .arguments => 0
  | _, _ => 1

/-- a rule that is called before a token is taken is of a lower level than the one that calls it -/
def level : {α : Type} → Rule α → ℕ
  | _, .statements _ => 9
  | _, .statementRun => 8
  | _, .statement => 7
  | _, .arguments => 7
  | _, .expression => 6
  | _, .equality => 5
  | _, .relational => 4
  | _, .additive => 3
  | _, .term => 2
  | _, .factor => 1
  | _, .loopCount => 1
  | _, _ => 0

theorem level_lt (rule : Rule α) : rule.level < 10 := by
  unfold level
  split <;> decide

/-! ## The parsers solve the recursion -/

theorem term_consumes : Consumes (Parsing.term speculative (Parsing.expression speculative)) :=
  fun n => (factor_consumes speculative_steady n).leftChain _

/-- **The parser for a rule is its body over the parsers for all rules.** -/
theorem parser_eq_body (rule : Rule α) : rule.parser = rule.body fun _ called => called.parser := by
  have hconsumes : Consumes (Parsing.expression speculative) := expression_consumes speculative_steady
  cases rule with
  | statementRun => exact statementLoop_unfold hconsumes
  | expression => exact expression_unfold speculative_steady
  | parameterRun => exact parameterLoop_unfold
  | additiveRun left => exact operandLoop_unfold additiveOperators term_consumes left
  | termRun left => exact operandLoop_unfold multiplicativeOperators (factor_consumes speculative_steady) left
  | arguments => exact speculative_unfold hconsumes
  | statements position => rfl
  | statement => rfl
  | letBinding => rfl
  | loop => rfl
  | loopCount => rfl
  | conditional => rfl
  | lambda => rfl
  | equality => rfl
  | relational => rfl
  | additive => rfl
  | term => rfl
  | factor => rfl
  | group => rfl
  | number => rfl

/-! ## Unrolling -/

/-- the bodies put into each other to some depth -/
def unrolled (bottom : Table) : ℕ → Table
  | 0 => bottom
  | depth + 1 => fun _ rule => rule.body (unrolled bottom depth)

/-- **Bodies agree where their calls do**: those of rules of lower levels where they stand, and all others behind a token. -/
theorem body_agree {n : ℕ} {call call' : Table}
    (hbehind : ∀ (β : Type) (called : Rule β), Agree n called.least (call β called) (call' β called)) (rule : Rule α)
    (hlower : ∀ (β : Type) (called : Rule β), called.level < rule.level →
      Agree (n + 1) called.least (call β called) (call' β called)) :
    Agree (n + 1) rule.least (rule.body call) (rule.body call') := by
  have hexpression : Agree n 1 (call _ .expression) (call' _ .expression) := hbehind _ .expression
  cases rule with
  | statements position => exact .look _ fun _ => (hlower _ .statementRun (Nat.lt_succ_self 8)).andThen fun _ => .pure _ _
  | statementRun =>
    refine .look _ fun x => .ite x (.pure _ _) ((hlower _ .statement (by decide)).first fun _ => ?_).weaken
    refine .look _ fun y => .ite y ((Agree.advance _).andThen fun _ => ?_) (.pure _ _)
    exact (hbehind _ .statementRun).andThen fun _ => .pure _ _
  | statement =>
    refine .look _ fun x => .ite x ((Agree.advance _).first fun _ => hexpression.andThen fun _ => .pure _ _) ?_
    exact .look _ fun y => .ite y (hlower _ .letBinding (by decide)) (hlower _ .expression (by decide))
  | letBinding =>
    refine (Agree.advance _).first fun _ => (Agree.expectKind _ _).andThen fun _ => ?_
    exact (Agree.expect _ _ _).andThen fun _ => hexpression.andThen fun _ => .pure _ _
  | loop =>
    refine (Agree.advance _).first fun _ => (hbehind _ .loopCount).andThen fun _ => ?_
    exact hexpression.andThen fun _ => .pure _ _
  | loopCount =>
    refine .look _ fun x => .ite x ((Agree.advance _).first fun _ => .pure _ _) ?_
    exact .look _ fun y => .ite y (hlower _ .group (by decide)) (hlower _ .number (by decide))
  | expression =>
    refine .look _ fun x => .ite x (hlower _ .lambda (by decide)) ?_
    exact .look _ fun y => .ite y (hlower _ .conditional (by decide)) (hlower _ .equality (by decide))
  | conditional =>
    refine (Agree.expect _ _ _).first fun _ => (hbehind _ .equality).andThen fun _ => ?_
    refine (Agree.expect _ _ _).andThen fun _ => hexpression.andThen fun _ => ?_
    exact (Agree.expect _ _ _).andThen fun _ => hexpression.andThen fun _ => .pure _ _
  | lambda =>
    refine (Agree.expect _ _ _).first fun _ => (hbehind _ .parameterRun).andThen fun _ => ?_
    exact (Agree.expect _ _ _).andThen fun _ => hexpression.andThen fun _ => .pure _ _
  | parameterRun => exact .parameterRound (hbehind _ .parameterRun)
  | equality => exact (hlower _ .relational (by decide)).atMostOnce _
  | relational => exact (hlower _ .additive (by decide)).atMostOnce _
  | additive => exact (hlower _ .term (by decide)).first fun left => hbehind _ (.additiveRun left)
  | additiveRun left => exact (hbehind _ .term).operandRound_behind (fun left => hbehind _ (.additiveRun left)) left
  | term => exact (hlower _ .factor (by decide)).first fun left => hbehind _ (.termRun left)
  | termRun left => exact (hbehind _ .factor).operandRound_behind (fun left => hbehind _ (.termRun left)) left
  | factor =>
    refine .look _ fun x => .ite x (hlower _ .group (by decide)) ?_
    refine .look _ fun x => .ite x (hlower _ .loop (by decide)) ?_
    refine .look _ fun x => .ite x ((Agree.advance _).first fun brace => ?_) ?_
    · refine (hbehind _ (.statements brace.position)).andThen fun _ => ?_
      exact (Agree.expect _ _ _).andThen fun _ => .pure _ _
    · refine .look _ fun x => .ite x ((Agree.advance _).first fun _ => ?_) (hlower _ .number (by decide))
      refine (hbehind _ .arguments).andThen fun args => ?_
      split_ifs
      · exact .pure _ _
      · exact .pure _ _
  | group => exact hexpression.group
  | arguments => exact (hlower _ .expression (by decide)).speculativeRound (hbehind _ .arguments)
  | number => exact .number _

/-- unrolled deep enough for the tokens and the level, the bodies agree with the parser -/
theorem unrolled_agree (bottom : Table) {depth n : ℕ} (rule : Rule α) (h : 10 * n + rule.level < depth) :
    Agree (n + 1) rule.least rule.parser (unrolled bottom depth α rule) := by
  induction depth generalizing α n with
  | zero => omega
  | succ depth ih =>
    rw [parser_eq_body rule]
    refine body_agree (fun β called => ?_) rule fun β called hlevel => ih called (by omega)
    -- behind a token the level may be any again
    cases n with
    | zero => exact fun c hc => absurd hc (Nat.not_lt_zero _)
    | succ n =>
      have hbound := called.level_lt
      exact ih called (by omega)

/-- **The recursion comes to an end**: unrolled deep enough for the tokens left, it is the parser, whatever stands at the
bottom. -/
theorem unrolled_eq (bottom : Table) {depth : ℕ} (rule : Rule α) (c : Cursor) (h : 10 * c.rest.length + rule.level < depth) :
    unrolled bottom depth α rule c = rule.parser c :=
  ((unrolled_agree bottom rule h) c (Nat.lt_succ_self _)).1.symm

/-- a success takes the tokens that it takes at least -/
theorem parser_takes (rule : Rule α) {c next : Cursor} {a : α} (h : rule.parser c = .ok a next) :
    next.rest.length + rule.least ≤ c.rest.length :=
  ((unrolled_agree (fun _ rule => rule.parser) rule (Nat.lt_succ_self _)) c (Nat.lt_succ_self _)).2 a next h

end Rule

end LetScript.Parsing
