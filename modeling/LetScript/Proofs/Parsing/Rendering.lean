/-
Every construct of the language can be written, and parentheses isolate it.

`rendered` writes a tree out with every operand, argument, branch, body, loop count and bound expression in parentheses, and
every statement but a binding. Whatever the tree is, an operation below an operation, a function as a condition or a loop as a
count, the parser gives the same tree back: `rendered_parses`.

The words are put at position zero, where the parser gives exactly the tree at position zero (`Gives`); other positions change
nothing but positions (`parse_of_unplaced`). Two things are shown of each rule.
- In parentheses an expression is read whatever follows, as the operand of any level before an operator of that level
  (`Level.reader_of_factor`), and as a whole expression where no operator follows (`Parses.expression`).
- Without parentheses it is read before anything at which no expression goes on. An identifier takes its arguments only as far
  as parentheses open, so the arguments of the call end where the expression does (`row_gives`).
The induction is on the tree (`Passed.holds`), with one lemma per kind of node (`parses_passed`). The words with spaces between
them are a source text: each of them is lexed by itself (`lexed_passed`).
-/
import LetScript.Proofs.Tree
import LetScript.Proofs.Lexing.Respacing
import LetScript.Proofs.Parsing.Completeness
import LetScript.Proofs.Parsing.Joining

namespace LetScript.Language

open Parsing

variable {α β : Type}

/-! ## Trees that can be written -/

/-- a name that can be written: word characters, the first of them no digit, and no keyword -/
structure IsIdentifier (name : String) : Prop where
  word : Token.Word .identifier name.toList
  first : Token.goesOn Token.isDigit name.toList = false

instance (name : String) : Decidable (IsIdentifier name) :=
  decidable_of_iff ((name.toList ≠ [] ∧ name.toList.all Token.isWordChar = true ∧
      String.ofList name.toList ∉ Token.keywords) ∧ Token.goesOn Token.isDigit name.toList = false)
    ⟨fun ⟨⟨hne, hall, hkeyword⟩, hfirst⟩ => ⟨⟨hne, List.all_eq_true.1 hall, hkeyword⟩, hfirst⟩,
      fun ⟨⟨hne, hall, hkeyword⟩, hfirst⟩ => ⟨⟨hne, List.all_eq_true.2 hall, hkeyword⟩, hfirst⟩⟩

mutual

/-- a tree that an expression can stand for -/
inductive Expressible : Node → Prop where
  | literal (position : Int) {n : ℕ} (short : (Nat.repr n).length ≤ Numeral.digitLimit) :
      Expressible (.literal position (.int n))
  | reference (position : Int) {name : String} (named : IsIdentifier name) : Expressible (.reference position (.text name))
  | call (position : Int) {name : String} {args : List Node} (named : IsIdentifier name) (given : args ≠ [])
      (all : ∀ arg ∈ args, Expressible arg) : Expressible (.call position (.text name) args)
  | operation (position : Int) {operator : String} {left right : Node} (known : operator ∈ operatorWords)
      (first : Expressible left) (second : Expressible right) :
      Expressible (.operation position (.text operator) left right)
  | lambda (position : Int) {names : List String} {body : Node} (named : ∀ name ∈ names, IsIdentifier name)
      (inner : Expressible body) : Expressible (.lambda position (names.map .text) body)
  | conditional (position : Int) {condition consequent alternative : Node} (first : Expressible condition)
      (second : Expressible consequent) (third : Expressible alternative) :
      Expressible (.conditional position condition consequent alternative)
  | loop (position : Int) {count body : Node} (first : Expressible count) (second : Expressible body) :
      Expressible (.statements position (.text loopMode) [count, body])
  | block (position : Int) {nodes : List Node} (all : ∀ node ∈ nodes, Stated node) :
      Expressible (.statements position (.text "") nodes)

/-- a tree that a statement can stand for: a binding or an expression -/
inductive Stated : Node → Prop where
  | binding (position : Int) {name : String} {bound : Node} (named : IsIdentifier name) (inner : Expressible bound) :
      Stated (.assign position (.text name) bound)
  | bare {node : Node} (expression : Expressible node) : Stated node

end

/-- what holds of an expression or of a statement when it holds of its parts -/
structure Passed (P Q : Node → Prop) : Prop where
  literal : ∀ position n, (Nat.repr n).length ≤ Numeral.digitLimit → P (.literal position (.int n))
  reference : ∀ position name, IsIdentifier name → P (.reference position (.text name))
  call : ∀ position name args, IsIdentifier name → args ≠ [] → (∀ arg ∈ args, P arg) → P (.call position (.text name) args)
  operation : ∀ position operator left right, operator ∈ operatorWords → P left → P right →
    P (.operation position (.text operator) left right)
  lambda : ∀ position (names : List String) body, (∀ name ∈ names, IsIdentifier name) → P body →
    P (.lambda position (names.map .text) body)
  conditional : ∀ position condition consequent alternative, P condition → P consequent → P alternative →
    P (.conditional position condition consequent alternative)
  loop : ∀ position count body, P count → P body → P (.statements position (.text loopMode) [count, body])
  block : ∀ position nodes, (∀ node ∈ nodes, Q node) → P (.statements position (.text "") nodes)
  binding : ∀ position name bound, IsIdentifier name → P bound → Q (.assign position (.text name) bound)
  bare : ∀ node, Expressible node → P node → Q node

/-- **What the parts pass on holds of every tree that can be written.** -/
theorem Passed.holds {P Q : Node → Prop} (h : Passed P Q) (node : Node) :
    (Expressible node → P node) ∧ (Stated node → Q node) := by
  induction node using Node.inductionOnChildren with
  | step node ih =>
    have hexpression : Expressible node → P node := by
      intro hnode
      have hchild : ∀ child ∈ node.children, Expressible child → P child := fun child hchild => (ih child hchild).1
      cases hnode with
      | literal position short => exact h.literal position _ short
      | reference position named => exact h.reference position _ named
      | call position named given all =>
        exact h.call position _ _ named given fun arg harg => hchild arg harg (all arg harg)
      | operation position known first second =>
        exact h.operation position _ _ _ known (hchild _ (by simp [Node.children]) first)
          (hchild _ (by simp [Node.children]) second)
      | lambda position named inner => exact h.lambda position _ _ named (hchild _ (by simp [Node.children]) inner)
      | conditional position first second third =>
        exact h.conditional position _ _ _ (hchild _ (by simp [Node.children]) first)
          (hchild _ (by simp [Node.children]) second) (hchild _ (by simp [Node.children]) third)
      | loop position first second =>
        exact h.loop position _ _ (hchild _ (by simp [Node.children]) first) (hchild _ (by simp [Node.children]) second)
      | block position all => exact h.block position _ fun child hmem => (ih child hmem).2 (all child hmem)
    refine ⟨hexpression, fun hnode => ?_⟩
    cases hnode with
    | binding position named inner => exact h.binding position _ _ named ((ih _ (by simp [Node.children])).1 inner)
    | bare expression => exact h.bare node expression (hexpression expression)

/-! ## The words of a tree -/

/-- a word that stands nowhere in particular -/
abbrev unplaced (kind : TokenKind) (lexeme : String) : Token := ⟨kind, lexeme, 0⟩

/-- words in parentheses -/
def wrapped (words : List Token) : List Token := unplaced .paren "(" :: (words ++ [unplaced .paren ")"])

/-- a statement from the words of its node: a binding as it is, an expression in parentheses -/
def asStatement : Node → List Token → List Token
  | .assign .., words => words
  | _, words => wrapped words

mutual

/-- the words of a tree, with all that is inside in parentheses -/
def rendered : Node → List Token
  | .statements _ mode nodes =>
    if Evaluation.isLoop mode then unplaced .keyword "loop" :: renderedRow nodes
    else unplaced .paren "\x7b" :: (renderedLines nodes ++ [unplaced .paren "\x7d"])
  | .operation _ operator left right =>
    wrapped (rendered left) ++ unplaced .operator operator.spelled :: wrapped (rendered right)
  | .literal _ value =>
    match value with
    | .int n => [unplaced .number (Numeral.text n)]
    | _ => []
  | .reference _ name => [unplaced .identifier name.spelled]
  | .assign _ name expression =>
    unplaced .keyword "let" :: unplaced .identifier name.spelled :: unplaced .operator ":=" :: wrapped (rendered expression)
  | .lambda _ params body =>
    unplaced .symbol "\\" :: (params.map (fun param => unplaced .identifier param.spelled) ++
      unplaced .operator "->" :: wrapped (rendered body))
  | .call _ name args => unplaced .identifier name.spelled :: renderedRow args
  | .conditional _ condition consequent alternative =>
    unplaced .keyword "if" :: (wrapped (rendered condition) ++ unplaced .keyword "then" ::
      (wrapped (rendered consequent) ++ unplaced .keyword "else" :: wrapped (rendered alternative)))
  | .blank _ => []

/-- the words of expressions one after the other, each in parentheses -/
def renderedRow : List Node → List Token
  | [] => []
  | node :: rest => wrapped (rendered node) ++ renderedRow rest

/-- the words of statements with semicolons between them -/
def renderedLines : List Node → List Token
  | [] => []
  | node :: rest =>
    asStatement node (rendered node) ++ if rest.isEmpty then [] else unplaced .symbol ";" :: renderedLines rest

end

theorem rendered_loop (position : Int) (nodes : List Node) :
    rendered (.statements position (.text loopMode) nodes) = unplaced .keyword "loop" :: renderedRow nodes := by
  rw [rendered]
  rfl

theorem rendered_block (position : Int) (nodes : List Node) :
    rendered (.statements position (.text "") nodes) =
      unplaced .paren "\x7b" :: (renderedLines nodes ++ [unplaced .paren "\x7d"]) := by
  rw [rendered]
  rfl

/-- a tree without its positions -/
abbrev shape (node : Node) : Node := node.relocate fun _ => 0

/-! ## Operators -/

/-- no operator stands next -/
def NoOperator (head : Option Token) : Prop := ∀ l : Level, headIs .operator l.operators head = false

theorem noOperator_cons {t : Token} {w : List Token} (h : t.kind ≠ .operator) : NoOperator (t :: w).head? :=
  fun l => by simp [headIs, Token.isOneOf, h]

section

variable {operators : List String} {operand : Parser Node} {w v r : List Token} {a b : Node} {op : Token}

theorem leftChain_one (hc : Consumes operand) (h : Gives operand w a r) (hr : headIs .operator operators r.head? = false) :
    Gives (leftChain operators operand) w a r := by
  rw [leftChain_eq]
  refine h.bind ?_
  rw [operandLoop_unfold operators hc]
  exact .either_false (sees_eq _ _) hr (.pure a r)

theorem leftChain_two (hc : Consumes operand) (ha : Gives operand w a (op :: v)) (hop : op.isOneOf .operator operators = true)
    (hb : Gives operand v b r) (hr : headIs .operator operators r.head? = false) :
    Gives (leftChain operators operand) w (.operation op.position (.text op.lexeme) a b) r := by
  rw [leftChain_eq]
  refine ha.bind ?_
  rw [operandLoop_unfold operators hc]
  refine .either_true (sees_eq _ _) hop ((Gives.advance op v).bind (hb.bind ?_))
  rw [operandLoop_unfold operators hc]
  exact .either_false (sees_eq _ _) hr (.pure _ r)

theorem atMostOnce_one (h : Gives operand w a r) (hr : headIs .operator operators r.head? = false) :
    Gives (atMostOnce operators operand) w a r :=
  h.bind (.either_false (sees_eq _ _) hr (.pure a r))

theorem atMostOnce_two (ha : Gives operand w a (op :: v)) (hop : op.isOneOf .operator operators = true)
    (hb : Gives operand v b r) :
    Gives (atMostOnce operators operand) w (.operation op.position (.text op.lexeme) a b) r :=
  ha.bind (.either_true (sees_eq _ _) hop ((Gives.advance op v).bind (hb.bind (.pure _ r))))

end

/-- the parser of nested expressions -/
abbrev nested : Parser Node := expression predictive

/-- the parser of what stands between the operators of a level -/
def Level.reader : Level → Parser Node
  | .multiplicative => Parsing.factor predictive nested
  | .additive => Parsing.term predictive nested
  | .relational => Parsing.additive predictive nested
  | .equality => Parsing.relational predictive nested

/-- the parser of the operations of a level -/
def Level.rule : Level → Parser Node
  | .multiplicative => Parsing.term predictive nested
  | .additive => Parsing.additive predictive nested
  | .relational => Parsing.relational predictive nested
  | .equality => Parsing.equality predictive nested

theorem factor_takes : Consumes (Parsing.factor predictive nested) := factor_consumes predictive_steady

theorem term_takes : Consumes (Parsing.term predictive nested) := fun n => (factor_takes n).leftChain _

section

variable {w v r : List Token} {a b : Node}

/-- one operand is an operation of a level if no operator of that level follows -/
theorem Level.rule_one (l : Level) (h : Gives l.reader w a r) (hr : headIs .operator l.operators r.head? = false) :
    Gives l.rule w a r := by
  cases l with
  | multiplicative => exact leftChain_one factor_takes h hr
  | additive => exact leftChain_one term_takes h hr
  | relational => exact atMostOnce_one h hr
  | equality => exact atMostOnce_one h hr

theorem Level.rule_two (l : Level) {op : Token} (ha : Gives l.reader w a (op :: v))
    (hop : op.isOneOf .operator l.operators = true) (hb : Gives l.reader v b r)
    (hr : headIs .operator l.operators r.head? = false) :
    Gives l.rule w (.operation op.position (.text op.lexeme) a b) r := by
  cases l with
  | multiplicative => exact leftChain_two factor_takes ha hop hb hr
  | additive => exact leftChain_two term_takes ha hop hb hr
  | relational => exact atMostOnce_two ha hop hb
  | equality => exact atMostOnce_two ha hop hb

/-- a factor is an operand of a level before an operator of that level, or none -/
theorem Level.reader_of_factor (l : Level) (h : Gives (Parsing.factor predictive nested) w a r)
    (hr : ∀ l', l' ≠ l → headIs .operator l'.operators r.head? = false) : Gives l.reader w a r := by
  -- each level that binds tighter takes the factor as its one operand
  cases l with
  | multiplicative => exact h
  | additive => exact rule_one .multiplicative h (hr _ nofun)
  | relational => exact rule_one .additive (rule_one .multiplicative h (hr _ nofun)) (hr _ nofun)
  | equality =>
    exact rule_one .relational (rule_one .additive (rule_one .multiplicative h (hr _ nofun)) (hr _ nofun)) (hr _ nofun)

/-- an operation of any level is the whole expression if no operator follows -/
theorem Level.equality_of_rule (l : Level) (h : Gives l.rule w a r) (hr : NoOperator r.head?) :
    Gives (Parsing.equality predictive nested) w a r := by
  cases l with
  | multiplicative =>
    exact rule_one .equality (rule_one .relational (rule_one .additive h (hr _)) (hr _)) (hr _)
  | additive => exact rule_one .equality (rule_one .relational h (hr _)) (hr _)
  | relational => exact rule_one .equality h (hr _)
  | equality => exact h

theorem equality_of_factor (h : Gives (Parsing.factor predictive nested) w a r) (hr : NoOperator r.head?) :
    Gives (Parsing.equality predictive nested) w a r :=
  Level.equality_of_rule .multiplicative (Level.rule_one .multiplicative h (hr _)) hr

theorem nested_of_equality (h : Gives (Parsing.equality predictive nested) w a r) (hback : headIs .symbol ["\\"] w.head? = false)
    (hif : headIs .keyword ["if"] w.head? = false) : Gives nested w a r := by
  rw [nested, expression_unfold predictive_steady]
  exact .either_false (sees_eq _ _) hback (.either_false (sees_eq _ _) hif h)

end

/-! ## Parentheses -/

/-- the words of a tree are read as that tree before anything at which no expression goes on -/
def Parses (node : Node) : Prop := ∀ r : List Token, Closed r.head? → Gives nested (rendered node ++ r) (shape node) r

theorem wrapped_append (words r : List Token) :
    wrapped words ++ r = unplaced .paren "(" :: (words ++ unplaced .paren ")" :: r) := by
  simp [wrapped]

namespace Parses

variable {node : Node} (h : Parses node) (r : List Token)

include h

theorem group : Gives (Parsing.group nested) (wrapped (rendered node) ++ r) (shape node) r := by
  rw [wrapped_append]
  refine (Gives.expect (by decide) _).bind ((h (unplaced .paren ")" :: r) (closed_of_word (by decide))).bind ?_)
  exact (Gives.expect (by decide) r).bind (.pure _ r)

/-- in parentheses a tree is read whatever follows -/
theorem factor : Gives (Parsing.factor predictive nested) (wrapped (rendered node) ++ r) (shape node) r :=
  .either_true (g := headIs .paren ["("]) (sees_eq _ _) rfl (h.group r)

theorem count : Gives (loopCount nested) (wrapped (rendered node) ++ r) (shape node) r :=
  .either_false (g := headKind .identifier) (seesKind_eq _) rfl
    (.either_true (g := headIs .paren ["("]) (sees_eq _ _) rfl (h.group r))

theorem equality {r : List Token} (hr : NoOperator r.head?) :
    Gives (Parsing.equality predictive nested) (wrapped (rendered node) ++ r) (shape node) r :=
  equality_of_factor (h.factor r) hr

/-- in parentheses a tree is a whole expression where no operator follows -/
theorem expression {r : List Token} (hr : NoOperator r.head?) :
    Gives nested (wrapped (rendered node) ++ r) (shape node) r :=
  nested_of_equality (h.equality hr) rfl rfl

end Parses

theorem nested_of_factor {w r : List Token} {a : Node} (h : Gives (Parsing.factor predictive nested) w a r)
    (hw : headStartsFactor w.head?) (hr : NoOperator r.head?) : Gives nested w a r :=
  nested_of_equality (equality_of_factor h hr) hw.2.1 hw.2.2

/-! ## Numbers and names -/

theorem digits_repr (n : ℕ) : ∀ c ∈ (Nat.repr n).toList, Token.isDigit c = true := by
  intro c hc
  rw [Nat.toList_repr] at hc
  have hc := Nat.isDigit_of_mem_toDigits (by decide) (by decide) hc
  simpa [Token.isDigit, Char.isDigit, Char.le_def] using hc

theorem repr_ne_nil (n : ℕ) : (Nat.repr n).toList ≠ [] := by
  rw [Nat.toList_repr]
  exact Nat.toDigits_ne_nil

theorem decimal_repr (n : ℕ) : decimal (Nat.repr n) = n := by
  rw [decimal, Nat.toList_repr, Numeral.ofDigits, List.foldl_map]
  exact Nat.ofDigitChars_ten_toDigits

theorem ordinary_number {n : ℕ} (short : (Nat.repr n).length ≤ Numeral.digitLimit) :
    Ordinary (unplaced .number (Nat.repr n)) :=
  ⟨fun _ => read_digits (repr_ne_nil n) (digits_repr n) short, rfl⟩

theorem rendered_number (position : Int) (n : ℕ) :
    rendered (.literal position (.int n)) = [unplaced .number (Nat.repr n)] := by
  have htext : Numeral.text n = Nat.repr n := if_neg (by omega)
  rw [rendered, htext]

theorem literal_parses (position : Int) {n : ℕ} (short : (Nat.repr n).length ≤ Numeral.digitLimit) :
    Parses (.literal position (.int n)) := by
  intro r hr
  have hnumber := Gives.number rfl (ordinary_number short) r
  rw [literal, decimal_repr] at hnumber
  rw [rendered_number]
  refine nested_of_factor ?_ ⟨rfl, rfl, rfl⟩ hr.operator
  exact .either_false (sees_eq _ _) rfl (.either_false (sees_eq _ _) rfl (.either_false (sees_eq _ _) rfl
    (.either_false (seesKind_eq _) rfl hnumber)))

/-- what starts behind arguments is no operator -/
theorem noOperator_row (nodes : List Node) {r : List Token} (hr : NoOperator r.head?) :
    NoOperator (renderedRow nodes ++ r).head? := by
  cases nodes with
  | nil => exact hr
  | cons node rest => exact noOperator_cons (t := unplaced .paren "(") nofun

/-- arguments in parentheses are taken one by one, up to something that starts no expression -/
theorem row_gives {nodes : List Node} (h : ∀ node ∈ nodes, Parses node) {r : List Token} (hr : Closed r.head?) :
    Gives (predictive nested) (renderedRow nodes ++ r) (nodes.map shape) r := by
  induction nodes with
  | nil =>
    rw [predictive_unfold predictive_consumes]
    exact .either_false (g := headStarts) startsExpression_eq hr.argument (.pure [] r)
  | cons node rest ih =>
    obtain ⟨hnode, hrest⟩ := List.forall_mem_cons.1 h
    rw [predictive_unfold predictive_consumes, renderedRow, List.append_assoc]
    refine .either_true (g := headStarts) startsExpression_eq rfl ?_
    exact (hnode.expression (noOperator_row rest hr.operator)).bind ((ih hrest).bind (.pure _ r))

theorem factor_of_application {name : String} {w r : List Token} {a : Node}
    (h : Gives (Parsing.application predictive nested) (unplaced .identifier name :: w) a r) :
    Gives (Parsing.factor predictive nested) (unplaced .identifier name :: w) a r :=
  .either_false (sees_eq _ _) rfl (.either_false (sees_eq _ _) rfl (.either_false (sees_eq _ _) rfl
    (.either_true (seesKind_eq _) rfl h)))

theorem reference_parses (position : Int) (name : String) : Parses (.reference position (.text name)) := by
  intro r hr
  have hnone : Gives (predictive nested) r [] r := row_gives (List.forall_mem_nil _) hr
  refine nested_of_factor (factor_of_application ?_) ⟨rfl, rfl, rfl⟩ hr.operator
  exact (Gives.advance _ r).bind (hnone.bind (.pure _ r))

theorem call_parses (position : Int) (name : String) {args : List Node} (given : args ≠ []) (h : ∀ arg ∈ args, Parses arg) :
    Parses (.call position (.text name) args) := by
  intro r hr
  refine nested_of_factor (factor_of_application ?_) ⟨rfl, rfl, rfl⟩ hr.operator
  refine (Gives.advance _ _).bind ((row_gives h hr).bind ?_)
  rw [shape, Node.relocate, Node.relocateAll_eq, if_neg (by simpa using given)]
  exact .pure _ r

/-! ## Operations, functions and conditionals -/

theorem operation_parses (position : Int) {operator : String} (known : operator ∈ operatorWords) {left right : Node}
    (hleft : Parses left) (hright : Parses right) : Parses (.operation position (.text operator) left right) := by
  intro r hr
  obtain ⟨l, hl⟩ : ∃ l : Level, operator ∈ l.operators := by
    simp only [operatorWords, List.mem_append] at known
    rcases known with ((h | h) | h) | h
    · exact ⟨.equality, h⟩
    · exact ⟨.relational, h⟩
    · exact ⟨.additive, h⟩
    · exact ⟨.multiplicative, h⟩
  have hop : (unplaced .operator operator).isOneOf .operator l.operators = true := isOneOf_iff.2 ⟨rfl, hl⟩
  -- the operator belongs to one level, so both operands are operands of that level
  have hother : ∀ l', l' ≠ l → headIs .operator l'.operators (some (unplaced .operator operator)) = false := by
    intro l' hne
    by_contra hsees
    exact hne (Level.eq_of_operator (by simpa [headIs] using hsees) hop)
  have hoperation := l.rule_two
    (l.reader_of_factor (hleft.factor (unplaced .operator operator :: (wrapped (rendered right) ++ r))) hother) hop
    (l.reader_of_factor (hright.factor r) fun l' _ => hr.operator l') (hr.operator l)
  rw [rendered, List.append_assoc]
  exact nested_of_equality (l.equality_of_rule hoperation hr.operator) rfl rfl

theorem lambda_parses (position : Int) (names : List String) {body : Node} (h : Parses body) :
    Parses (.lambda position (names.map .text) body) := by
  intro r hr
  have hnames : (names.map Json.text).map (fun param => unplaced .identifier param.spelled) =
      names.map (unplaced .identifier ·) := by
    rw [List.map_map]
    rfl
  have hkinds : ∀ t ∈ names.map (unplaced .identifier ·), t.kind = .identifier := List.forall_mem_map.2 fun _ _ => rfl
  have htexts : (names.map (unplaced .identifier ·)).map (fun t => Json.text t.lexeme) = names.map .text := by
    rw [List.map_map]
    rfl
  rw [nested, expression_unfold predictive_steady, rendered, hnames, List.cons_append, List.append_assoc]
  refine .either_true (sees_eq _ _) rfl ?_
  rw [lambda_eq]
  refine (Gives.expect (by decide) _).bind ((Gives.parameterLoop hkinds rfl).bind ((Gives.expect (by decide) _).bind ?_))
  rw [htexts]
  exact (h.expression hr.operator).bind (.pure _ r)

theorem conditional_parses (position : Int) {condition consequent alternative : Node} (hcondition : Parses condition)
    (hconsequent : Parses consequent) (halternative : Parses alternative) :
    Parses (.conditional position condition consequent alternative) := by
  intro r hr
  rw [nested, expression_unfold predictive_steady, rendered, List.cons_append, List.append_assoc, List.cons_append,
    List.append_assoc]
  refine .either_false (sees_eq _ _) rfl (.either_true (sees_eq _ _) rfl ?_)
  refine (Gives.expect (by decide) _).bind ((hcondition.equality (noOperator_cons (by decide))).bind ?_)
  refine (Gives.expect (by decide) _).bind ((hconsequent.expression (noOperator_cons (by decide))).bind ?_)
  refine (Gives.expect (by decide) _).bind ((halternative.expression hr.operator).bind ?_)
  rw [Node.position_relocate]
  exact .pure _ r

/-! ## Loops and blocks -/

theorem loop_parses (position : Int) {count body : Node} (hcount : Parses count) (hbody : Parses body) :
    Parses (.statements position (.text loopMode) [count, body]) := by
  intro r hr
  have hwords : rendered (.statements position (.text loopMode) [count, body]) ++ r =
      unplaced .keyword "loop" :: (wrapped (rendered count) ++ (wrapped (rendered body) ++ r)) := by
    simp [rendered_loop, renderedRow]
  rw [hwords]
  refine nested_of_factor (.either_false (sees_eq _ _) rfl (.either_true (sees_eq _ _) rfl ?_)) ⟨rfl, rfl, rfl⟩ hr.operator
  refine (Gives.advance _ _).bind ((hcount.count _).bind ((hbody.expression hr.operator).bind ?_))
  exact .pure _ r

/-- the words of a node are read as a statement where no operator follows -/
def ParsesStatement (node : Node) : Prop :=
  ∀ r : List Token, NoOperator r.head? → Gives (statement nested) (asStatement node (rendered node) ++ r) (shape node) r

theorem binding_parses (position : Int) (name : String) {bound : Node} (h : Parses bound) :
    ParsesStatement (.assign position (.text name) bound) := by
  intro r hr
  refine .either_false (sees_eq _ _) rfl (.either_true (g := headLet) seesLet_eq rfl ?_)
  have hname : ∀ w, Gives (Parsing.expectKind .identifier) (unplaced .identifier name :: w) (unplaced .identifier name) w :=
    fun w => .expectKind rfl w
  refine (Gives.advance _ _).bind ((hname _).bind ((Gives.expect (by decide) _).bind ?_))
  exact (h.expression hr).bind (.pure _ r)

theorem asStatement_of_expressible {node : Node} (h : Expressible node) (words : List Token) :
    asStatement node words = wrapped words := by
  cases h <;> rfl

theorem bare_parses {node : Node} (hnode : Expressible node) (h : Parses node) : ParsesStatement node := by
  intro r hr
  rw [asStatement_of_expressible hnode]
  exact .either_false (sees_eq _ _) rfl (.either_false (g := headLet) seesLet_eq rfl (h.expression hr))

/-- a statement starts with a parenthesis or with the word `let` -/
theorem asStatement_cons (node : Node) : ∃ t words, asStatement node (rendered node) = t :: words ∧
    (t = unplaced .paren "(" ∨ t = unplaced .keyword "let") := by
  cases node with
  | assign position name bound => exact ⟨_, _, by rw [asStatement, rendered], Or.inr rfl⟩
  | _ => exact ⟨_, _, rfl, Or.inl rfl⟩

/-- statements are read one by one, up to where they end -/
theorem lines_give {nodes : List Node} (h : ∀ node ∈ nodes, ParsesStatement node) {r : List Token}
    (hr : headCloses r.head? = true) : Gives (statementLoop nested) (renderedLines nodes ++ r) (nodes.map shape) r := by
  induction nodes with
  | nil =>
    rw [statementLoop_unfold predictive_consumes]
    exact .either_true (g := headCloses) closes_eq hr (.pure [] r)
  | cons node rest ih =>
    obtain ⟨hnode, hrest⟩ := List.forall_mem_cons.1 h
    have hopen : ∀ w, headCloses (asStatement node (rendered node) ++ w).head? = false := by
      obtain ⟨t, words, hwords, rfl | rfl⟩ := asStatement_cons node
      all_goals intro w; rw [hwords]; rfl
    rw [statementLoop_unfold predictive_consumes, renderedLines, List.append_assoc]
    refine .either_false (g := headCloses) closes_eq (hopen _) ?_
    -- the last statement ends where the list does, any other at a semicolon
    cases rest with
    | nil =>
      refine (hnode r (closed_of_closes hr).operator).bind ?_
      exact .either_false (sees_eq _ _) (not_semicolon_of_closes hr) (.pure _ r)
    | cons next rest =>
      refine (hnode (unplaced .symbol ";" :: (renderedLines (next :: rest) ++ r)) (noOperator_cons (by decide))).bind ?_
      exact .either_true (sees_eq _ _) rfl ((Gives.advance _ _).bind ((ih hrest).bind (.pure _ r)))

theorem block_parses (position : Int) {nodes : List Node} (h : ∀ node ∈ nodes, ParsesStatement node) :
    Parses (.statements position (.text "") nodes) := by
  intro r hr
  have hwords : rendered (.statements position (.text "") nodes) ++ r =
      unplaced .paren "\x7b" :: (renderedLines nodes ++ unplaced .paren "\x7d" :: r) := by
    simp [rendered_block]
  -- a block stands where its first statement does, or at its brace, and that is zero here
  have hopening : headOpening 0 (renderedLines nodes ++ unplaced .paren "\x7d" :: r).head? = 0 := by
    cases nodes with
    | nil => rfl
    | cons node rest =>
      obtain ⟨t, words, hwords, rfl | rfl⟩ := asStatement_cons node
      all_goals rw [renderedLines, hwords]; rfl
  have hbody : Gives (Parsing.statements nested 0) (renderedLines nodes ++ unplaced .paren "\x7d" :: r)
      (.statements 0 (.text "") (nodes.map shape)) (unplaced .paren "\x7d" :: r) := by
    intro s f
    rw [statements_eq, look_bind, openingPosition_eq, hopening]
    exact ((lines_give h (r := unplaced .paren "\x7d" :: r) rfl).bind (.pure (Node.statements 0 (.text "") _) _)) s f
  rw [hwords, shape, Node.relocate, Node.relocateAll_eq]
  refine nested_of_factor (.either_false (sees_eq _ _) rfl (.either_false (sees_eq _ _) rfl (.either_true (sees_eq _ _) rfl ?_)))
    ⟨rfl, rfl, rfl⟩ hr.operator
  exact (Gives.advance _ _).bind (hbody.bind ((Gives.expect (by decide) r).bind (.pure _ r)))

/-- **Every tree is read back**, as an expression and as a statement. -/
theorem parses_passed : Passed Parses ParsesStatement where
  literal position _ short := literal_parses position short
  reference position name _ := reference_parses position name
  call position name _ _ given all := call_parses position name given all
  operation position _ _ _ known first second := operation_parses position known first second
  lambda position names _ _ inner := lambda_parses position names inner
  conditional position _ _ _ first second third := conditional_parses position first second third
  loop position _ _ first second := loop_parses position first second
  block position _ all := block_parses position all
  binding position name _ _ inner := binding_parses position name inner
  bare _ expression inner := bare_parses expression inner

/-! ## Words by themselves -/

/-- a word that stands at the start of a text and is lexed when it is all of it -/
structure Lexed (t : Token) : Prop where
  start : t.position = 0
  taken : t ∈ Token.scan 0 0 t.lexeme.toList

/-- a run of word characters is lexed by itself as what its kind prescribes -/
theorem lexed_of_stands {kind : TokenKind} {lexeme : String} (hne : lexeme.toList ≠ [])
    (hchars : ∀ c ∈ lexeme.toList, Token.isWordChar c = true) (h : Token.Stands [] lexeme.toList [] kind) :
    Lexed (unplaced kind lexeme) := by
  refine ⟨rfl, ?_⟩
  obtain ⟨c, tail, hword⟩ := List.exists_cons_of_ne_nil hne
  -- a comment would start with a minus, which is no word character
  have hcomment : Token.startsComment (c :: (tail ++ [])) = false := by
    rw [Token.startsComment_eq, decide_eq_false_iff_not]
    rintro ⟨rfl, -⟩
    exact absurd (hchars '-' (by rw [hword]; exact List.mem_cons_self)) (by decide)
  rw [hword] at h
  have hlead := Token.lead_of_stands h hcomment
  rw [List.append_nil] at hlead
  have hwhole : String.ofList ((c :: tail).take (c :: tail).length) = lexeme := by
    rw [List.take_length, ← hword, String.ofList_toList]
  simp only [hword, Token.scan_token hlead, hwhole]
  exact List.mem_cons_self

theorem lexed_number (n : ℕ) : Lexed (unplaced .number (Nat.repr n)) := by
  have hdigit := digits_repr n
  exact lexed_of_stands (repr_ne_nil n) (fun c hc => Token.isWordChar_of_isDigit (hdigit c hc)) ⟨hdigit, rfl, rfl⟩

theorem lexed_identifier {name : String} (h : IsIdentifier name) : Lexed (unplaced .identifier name) := by
  obtain ⟨hne, hchars, hkeyword⟩ := h.word
  exact lexed_of_stands hne hchars ⟨hchars, h.first, hkeyword, rfl⟩

instance (t : Token) : Decidable (Lexed t) :=
  decidable_of_iff (t.position = 0 ∧ t ∈ Token.scan 0 0 t.lexeme.toList)
    ⟨fun h => ⟨h.1, h.2⟩, fun h => ⟨h.start, h.taken⟩⟩

theorem lexed_operator {operator : String} (h : operator ∈ operatorWords) : Lexed (unplaced .operator operator) := by
  have hall : ∀ operator ∈ operatorWords, Lexed (unplaced .operator operator) := by decide
  exact hall operator h

/-- the words that hold a tree together -/
def marks : List Token := [unplaced .paren "(", unplaced .paren ")", unplaced .paren "\x7b", unplaced .paren "\x7d",
  unplaced .symbol ";", unplaced .symbol "\\", unplaced .operator ":=", unplaced .operator "->", unplaced .keyword "let",
  unplaced .keyword "if", unplaced .keyword "then", unplaced .keyword "else", unplaced .keyword "loop"]

theorem lexed_mark {t : Token} (h : t ∈ marks) : Lexed t := by
  have hall : ∀ t ∈ marks, Lexed t := by decide
  exact hall t h

theorem lexed_wrapped {words : List Token} (h : ∀ t ∈ words, Lexed t) : ∀ t ∈ wrapped words, Lexed t := by
  simp only [wrapped, List.forall_mem_cons, List.forall_mem_append]
  exact ⟨lexed_mark (by decide), h, lexed_mark (by decide), List.forall_mem_nil _⟩

theorem lexed_row {nodes : List Node} (h : ∀ node ∈ nodes, ∀ t ∈ rendered node, Lexed t) :
    ∀ t ∈ renderedRow nodes, Lexed t := by
  induction nodes with
  | nil => exact List.forall_mem_nil _
  | cons node rest ih =>
    obtain ⟨hnode, hrest⟩ := List.forall_mem_cons.1 h
    exact List.forall_mem_append.2 ⟨lexed_wrapped hnode, ih hrest⟩

theorem lexed_lines {nodes : List Node} (h : ∀ node ∈ nodes, ∀ t ∈ asStatement node (rendered node), Lexed t) :
    ∀ t ∈ renderedLines nodes, Lexed t := by
  induction nodes with
  | nil => exact List.forall_mem_nil _
  | cons node rest ih =>
    obtain ⟨hnode, hrest⟩ := List.forall_mem_cons.1 h
    refine List.forall_mem_append.2 ⟨hnode, ?_⟩
    split_ifs
    · exact List.forall_mem_nil _
    · exact List.forall_mem_cons.2 ⟨lexed_mark (by decide), ih hrest⟩

/-- **Every word of a tree is lexed by itself.** -/
theorem lexed_passed : Passed (fun node => ∀ t ∈ rendered node, Lexed t)
    (fun node => ∀ t ∈ asStatement node (rendered node), Lexed t) where
  literal position n _ := by
    rw [rendered_number]
    exact List.forall_mem_singleton.2 (lexed_number n)
  reference position name named := List.forall_mem_singleton.2 (lexed_identifier named)
  call position name args named _ all := List.forall_mem_cons.2 ⟨lexed_identifier named, lexed_row all⟩
  operation position operator left right known first second :=
    List.forall_mem_append.2 ⟨lexed_wrapped first, List.forall_mem_cons.2 ⟨lexed_operator known, lexed_wrapped second⟩⟩
  lambda position names body named inner := by
    rw [rendered]
    simp only [List.map_map, List.forall_mem_cons, List.forall_mem_append, List.forall_mem_map]
    exact ⟨lexed_mark (by decide), fun name hname => lexed_identifier (named name hname), lexed_mark (by decide),
      lexed_wrapped inner⟩
  conditional position condition consequent alternative first second third := by
    rw [rendered]
    simp only [List.forall_mem_cons, List.forall_mem_append]
    exact ⟨lexed_mark (by decide), lexed_wrapped first, lexed_mark (by decide), lexed_wrapped second,
      lexed_mark (by decide), lexed_wrapped third⟩
  loop position count body first second := by
    have hparts : ∀ node ∈ [count, body], ∀ t ∈ rendered node, Lexed t :=
      List.forall_mem_cons.2 ⟨first, List.forall_mem_singleton.2 second⟩
    rw [rendered_loop]
    exact List.forall_mem_cons.2 ⟨lexed_mark (by decide), lexed_row hparts⟩
  block position nodes all := by
    rw [rendered_block]
    simp only [List.forall_mem_cons, List.forall_mem_append]
    exact ⟨lexed_mark (by decide), lexed_lines all, lexed_mark (by decide), List.forall_mem_nil _⟩
  binding position name bound named inner := by
    rw [asStatement, rendered]
    simp only [List.forall_mem_cons]
    exact ⟨lexed_mark (by decide), lexed_identifier named, lexed_mark (by decide), lexed_wrapped inner⟩
  bare node expression inner := by
    rw [asStatement_of_expressible expression]
    exact lexed_wrapped inner

/-! ## Tokens and source texts -/

/-- tokens without their positions -/
abbrev unplacedAll (tokens : List Token) : List Token := tokens.map (Token.relocate fun _ => 0)

/-- words that are lexed by themselves are lexed with spaces between them -/
theorem tokenize_spaced {words : List Token} (h : ∀ t ∈ words, Lexed t) :
    unplacedAll (Token.tokenize (Token.spaced words)) = words := by
  have hspaced := Token.scan_spaced (fun t ht => ⟨0, 0, t.lexeme.toList, (h t ht).taken⟩) 0
  rw [Token.tokenize, hspaced]
  refine List.ext_getElem (by simp [Token.inPlace]) fun index hindex hindex' => ?_
  have hstart := (h words[index] (List.getElem_mem hindex')).start
  simp [Token.inPlace, Token.again, Token.relocate, ← hstart]

/-- statements that are read without positions are read anywhere -/
theorem parse_of_unplaced {tokens : List Token} {body : List Node} (h : Gives (statementLoop nested) (unplacedAll tokens) body []) :
    ∃ position statements, parse tokens = .ok (.statements position (.text "") statements) ∧ statements.map shape = body := by
  have htokens : List.Forall₂ (relocated fun _ => 0).token tokens (unplacedAll tokens) := (forall₂_map_iff _).2 rfl
  have halike := (expression_corresponds predictive_gathers (relocated fun _ => 0)).statementLoop (Q := anyToken)
    (Cursor.start tokens) ⟨unplacedAll tokens, 0, none⟩ htokens trivial
  rw [h 0 none] at halike
  cases hloop : statementLoop nested (Cursor.start tokens) with
  | ok statements next =>
    have hnext := statementLoop_next hloop
    rw [hloop] at halike
    cases halike with
    | ok result rest =>
      rw [List.forall₂_nil_right_iff.1 rest] at hnext
      rw [hnext] at hloop
      exact ⟨_, statements, (parse_eq_ok_iff tokens _).2 ⟨statements, rfl, hloop⟩, ((forall₂_map_iff _).1 result).symm⟩
  | fail complaint next => rw [hloop] at halike; cases halike
  | unreadable token next => rw [hloop] at halike; cases halike

/-- **Every construct can be written, and parentheses isolate.** Any tokens with the words of a tree, wherever they stand, are
parsed to a program with this tree as its one statement; and there is a source text with these words. -/
theorem rendered_parses {tree : Node} (h : Expressible tree) :
    (∀ tokens, unplacedAll tokens = wrapped (rendered tree) →
      ∃ position statement, parse tokens = .ok (.statements position (.text "") [statement]) ∧
        shape statement = shape tree) ∧
    unplacedAll (Token.tokenize (Token.spaced (wrapped (rendered tree)))) = wrapped (rendered tree) := by
  refine ⟨fun tokens htokens => ?_, tokenize_spaced (lexed_wrapped ((lexed_passed.holds tree).1 h))⟩
  have hstatement : ∀ node ∈ [tree], ParsesStatement node :=
    List.forall_mem_singleton.2 ((parses_passed.holds tree).2 (.bare h))
  have hlines := lines_give hstatement (r := []) rfl
  have hwords : renderedLines [tree] ++ [] = unplacedAll tokens := by
    simp [renderedLines, htokens, asStatement_of_expressible h]
  rw [hwords] at hlines
  obtain ⟨position, statements, hparse, hshape⟩ := parse_of_unplaced hlines
  obtain ⟨statement, rfl, hstatement⟩ := List.map_eq_singleton_iff.1 hshape
  exact ⟨position, statement, hparse, hstatement⟩

/-- a product of a conditional, whose condition is a function, and a block -/
def sampleProduct : Node :=
  .operation 0 (.text "*")
    (.conditional 0 (.lambda 0 [.text "x"] (.reference 0 (.text "x"))) (.literal 0 (.int 1)) (.literal 0 (.int 2)))
    (.statements 0 (.text "") [.assign 0 (.text "f") (.literal 0 (.int 3)), .call 0 (.text "print") [.reference 0 (.text "f")]])

theorem rendered_parses_product : Expressible sampleProduct ∧
    ∃ position statement,
      parseSource "((if(\\x->(x))then(1)else(2))*(\x7blet f:=(3);(print(f))\x7d))" =
          .ok (.statements position (.text "") [statement]) ∧
        shape statement = shape sampleProduct := by
  have hname : ∀ name ∈ ["x", "f", "print"], IsIdentifier name := by decide
  have hcondition : Expressible (.lambda 0 (["x"].map .text) (.reference 0 (.text "x"))) :=
    .lambda 0 (List.forall_mem_singleton.2 (hname _ (by decide))) (.reference 0 (hname _ (by decide)))
  have hliteral : ∀ n < 10, Expressible (.literal 0 (.int (n : ℕ))) := by
    intro n hn
    have hshort : ∀ n < 10, (Nat.repr n).length ≤ Numeral.digitLimit := by decide
    exact .literal 0 (hshort n hn)
  have hconditional := Expressible.conditional 0 hcondition (hliteral 1 (by decide)) (hliteral 2 (by decide))
  have hreference : ∀ arg ∈ [Node.reference 0 (.text "f")], Expressible arg :=
    List.forall_mem_singleton.2 (.reference 0 (hname "f" (by decide)))
  have hblock := Expressible.block 0 (List.forall_mem_cons.2
    ⟨.binding 0 (hname "f" (by decide)) (hliteral 3 (by decide)),
      List.forall_mem_singleton.2 (.bare (.call 0 (hname "print" (by decide)) (by simp) hreference))⟩)
  have htree : Expressible sampleProduct := .operation 0 (by decide) hconditional hblock
  exact ⟨htree, (rendered_parses htree).1 _ (by decide)⟩

end LetScript.Language
