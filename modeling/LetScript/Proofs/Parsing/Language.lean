/-
The language of programs, as a grammar.

    program     := statement {";" statement}, or nothing; a last ";" is optional
    statement   := "print" expr | "let" IDENT ":=" expr | expr
    expr        := "\" IDENT* "->" expr | "if" equality "then" expr "else" expr | equality
    equality    := relational [("=" | "!=") relational]
    relational  := additive [(">" | "<" | ">=" | "<=") additive]
    additive    := term {("+" | "-") term}, grouped to the left
    term        := factor {("*" | "/") factor}, grouped to the left
    factor      := "(" expr ")" | "{" program "}" | "loop" count expr | IDENT expr* | NUMBER
    count       := NUMBER | IDENT | "(" expr ")"

A statement whose first token is the identifier `print` has to be a print statement. Each predicate below relates a list of
tokens to a tree that one of its derivations stands for, with the position of the token that each node comes from. The
grammar is ambiguous: in `f a < b` the comparison may belong to the argument or to the call. Nothing here chooses.

`Ordinary` tokens are those for which the words of the grammar and the words of the parser are the same: a number is one
that can be read, and `let` is a keyword. Lexed tokens are ordinary if their numbers are not too long (`tokenize_ordinary`).
Of all lexed tokens it is true that a number that can be read is read as what it stands for (`Lexical`).
-/
import LetScript.Proofs.Parsing.Lookahead
import LetScript.Proofs.Lexing

namespace LetScript.Language

open Parsing

/-- lists of tokens with the results that they may stand for -/
abbrev Phrase (α : Type) := List Token → α → Prop

/-! ## Operators -/

/-- one operand, or two with an operator between them -/
inductive AtMostOnce (operators : List String) (X : Phrase Node) : Phrase Node where
  | one {u : List Token} {a : Node} (first : X u a) : AtMostOnce operators X u a
  | two {u v : List Token} {op : Token} {a b : Node} (first : X u a) (operator : op.isOneOf .operator operators = true)
      (second : X v b) : AtMostOnce operators X (u ++ op :: v) (.operation op.position (.text op.lexeme) a b)

/-- operands with operators between them, grouped to the left -/
inductive LeftChain (operators : List String) (X : Phrase Node) : Phrase Node where
  | one {u : List Token} {a : Node} (first : X u a) : LeftChain operators X u a
  | more {u v : List Token} {op : Token} {a b : Node} (before : LeftChain operators X u a)
      (operator : op.isOneOf .operator operators = true) (last : X v b) :
      LeftChain operators X (u ++ op :: v) (.operation op.position (.text op.lexeme) a b)

/-! ## The grammar -/

/-- the number that a run of decimal digits stands for -/
def decimal (lexeme : String) : ℕ := Numeral.ofDigits (lexeme.toList.map fun c => c.toNat - 0x30)

/-- the literal that a number token stands for -/
def literal (token : Token) : Node := .literal token.position (.int (decimal token.lexeme))

/-- where a program stands: at its first token, or at the given position when it is empty -/
def opening (position : Int) : List Token → Int
  | [] => position
  | token :: _ => token.position

mutual

inductive Program : Phrase (List Node) where
  | empty : Program [] []
  | last {u : List Token} {a : Node} (first : Statement u a) : Program u [a]
  | more {u v : List Token} {semicolon : Token} {a : Node} {others : List Node} (first : Statement u a)
      (separator : semicolon.isOneOf .symbol [";"] = true) (rest : Program v others) :
      Program (u ++ semicolon :: v) (a :: others)

inductive Statement : Phrase Node where
  | print {word : Token} {u : List Token} {a : Node} (isPrint : word.isOneOf .identifier ["print"] = true)
      (shown : Expr u a) : Statement (word :: u) (.call word.position (.text "print") [a])
  | binding {word name sign : Token} {u : List Token} {a : Node} (isLet : word.isOneOf .keyword ["let"] = true)
      (isName : name.kind = .identifier) (isSign : sign.isOneOf .operator [":="] = true) (bound : Expr u a) :
      Statement (word :: name :: sign :: u) (.assign name.position (.text name.lexeme) a)
  | bare {u : List Token} {a : Node} (notPrint : headIs .identifier ["print"] u.head? = false) (expr : Expr u a) :
      Statement u a

inductive Expr : Phrase Node where
  | lambda {backslash arrow : Token} {params u : List Token} {a : Node}
      (isBackslash : backslash.isOneOf .symbol ["\\"] = true) (areParams : ∀ t ∈ params, t.kind = .identifier)
      (isArrow : arrow.isOneOf .operator ["->"] = true) (body : Expr u a) :
      Expr (backslash :: (params ++ arrow :: u)) (.lambda backslash.position (params.map fun t => .text t.lexeme) a)
  | conditional {wordIf wordThen wordElse : Token} {u v w : List Token} {a b d : Node}
      (isIf : wordIf.isOneOf .keyword ["if"] = true)
      (condition : AtMostOnce equalityOperators (AtMostOnce relationalOperators (LeftChain additiveOperators
        (LeftChain multiplicativeOperators Factor))) u a)
      (isThen : wordThen.isOneOf .keyword ["then"] = true) (consequent : Expr v b)
      (isElse : wordElse.isOneOf .keyword ["else"] = true) (alternative : Expr w d) :
      Expr (wordIf :: (u ++ wordThen :: (v ++ wordElse :: w))) (.conditional a.position a b d)
  | equality {u : List Token} {a : Node}
      (equality : AtMostOnce equalityOperators (AtMostOnce relationalOperators (LeftChain additiveOperators
        (LeftChain multiplicativeOperators Factor))) u a) : Expr u a

inductive Factor : Phrase Node where
  | group {left right : Token} {u : List Token} {a : Node} (isLeft : left.isOneOf .paren ["("] = true)
      (inner : Expr u a) (isRight : right.isOneOf .paren [")"] = true) : Factor (left :: (u ++ [right])) a
  | block {left right : Token} {u : List Token} {body : List Node} (isLeft : left.isOneOf .paren ["\x7b"] = true)
      (inner : Program u body) (isRight : right.isOneOf .paren ["\x7d"] = true) :
      Factor (left :: (u ++ [right])) (.statements (opening left.position u) (.text "") body)
  | loop {word : Token} {u v : List Token} {a b : Node} (isLoop : word.isOneOf .keyword ["loop"] = true)
      (count : Count u a) (body : Expr v b) :
      Factor (word :: (u ++ v)) (.statements word.position (.text loopMode) [a, b])
  | reference {name : Token} (isName : name.kind = .identifier) :
      Factor [name] (.reference name.position (.text name.lexeme))
  | call {name : Token} {u : List Token} {args : List Node} (isName : name.kind = .identifier) (arguments : Arguments u args)
      (some : args ≠ []) : Factor (name :: u) (.call name.position (.text name.lexeme) args)
  | number {token : Token} (isNumber : token.kind = .number) : Factor [token] (literal token)

inductive Count : Phrase Node where
  | number {token : Token} (isNumber : token.kind = .number) : Count [token] (literal token)
  | reference {name : Token} (isName : name.kind = .identifier) :
      Count [name] (.reference name.position (.text name.lexeme))
  | group {left right : Token} {u : List Token} {a : Node} (isLeft : left.isOneOf .paren ["("] = true)
      (inner : Expr u a) (isRight : right.isOneOf .paren [")"] = true) : Count (left :: (u ++ [right])) a

inductive Arguments : Phrase (List Node) where
  | none : Arguments [] []
  | more {u v : List Token} {a : Node} {others : List Node} (first : Expr u a) (rest : Arguments v others) :
      Arguments (u ++ v) (a :: others)

end

abbrev Term : Phrase Node := LeftChain multiplicativeOperators Factor
abbrev Additive : Phrase Node := LeftChain additiveOperators Term
abbrev Relational : Phrase Node := AtMostOnce relationalOperators Additive
abbrev Equality : Phrase Node := AtMostOnce equalityOperators Relational

/-! ## Ordinary tokens -/

/-- a token that is no unreadable number and no identifier `let` -/
structure Ordinary (t : Token) : Prop where
  readable : t.kind = .number → Numeral.read t.lexeme = some (decimal t.lexeme : Int)
  notLet : t.isOneOf .identifier ["let"] = false

/-- a token that is no number read as something else than what it stands for, and no identifier `let` -/
structure Lexical (t : Token) : Prop where
  read : t.kind = .number → ∀ n, Numeral.read t.lexeme = some n → n = decimal t.lexeme
  notLet : t.isOneOf .identifier ["let"] = false

theorem Ordinary.lexical {t : Token} (h : Ordinary t) : Lexical t := by
  refine ⟨fun hkind n hn => ?_, h.notLet⟩
  rw [h.readable hkind] at hn
  exact (Option.some.inj hn).symm

/-- a decimal digit is neither blank nor sign nor underscore -/
theorem digit_facts {c : Char} (h : Token.isDigit c = true) :
    Numeral.isBlank c = false ∧ c ≠ '-' ∧ c ≠ '+' ∧ c ≠ '_' ∧ Numeral.digitValue? c = some (c.toNat - 0x30) := by
  simp only [Token.isDigit, decide_eq_true_eq] at h
  obtain ⟨hlow, hhigh⟩ := h
  have hl : 48 ≤ c.toNat := hlow
  have hh : c.toNat ≤ 57 := hhigh
  refine ⟨?_, ?_, ?_, ?_, ?_⟩
  · have hspace : c ≠ ' ' := by rintro rfl; exact absurd hl (by decide)
    simp only [Numeral.isBlank, hspace, decide_false, Bool.false_or, Bool.or_eq_false_iff, Bool.and_eq_false_iff,
      decide_eq_false_iff_not]
    omega
  · rintro rfl; exact absurd hl (by decide)
  · rintro rfl; exact absurd hl (by decide)
  · rintro rfl; exact absurd hh (by decide)
  · simp only [Numeral.digitValue?, hlow, hhigh, and_self, if_true]

theorem trim_digits {digits : List Char} (h : ∀ c ∈ digits, Token.isDigit c = true) : Numeral.trim digits = digits := by
  have hdrop : ∀ text : List Char, (∀ c ∈ text, Token.isDigit c = true) → text.dropWhile Numeral.isBlank = text := by
    intro text ht
    cases text with
    | nil => rfl
    | cons c rest => rw [List.dropWhile_cons, (digit_facts (ht c List.mem_cons_self)).1]; rfl
  rw [Numeral.trim, hdrop digits h, hdrop digits.reverse (fun c hc => h c (List.mem_reverse.1 hc)), List.reverse_reverse]

theorem digitRun_digits {digits : List Char} (h : ∀ c ∈ digits, Token.isDigit c = true) :
    Numeral.digitRun? true digits = some (digits.map fun c => c.toNat - 0x30) := by
  induction digits with
  | nil => rfl
  | cons c rest ih =>
    obtain ⟨-, -, -, hunderscore, hvalue⟩ := digit_facts (h c List.mem_cons_self)
    simp only [Numeral.digitRun?, if_neg hunderscore, hvalue, ih fun d hd => h d (List.mem_cons_of_mem c hd)]
    rfl

/-- a run of decimal digits is read as the number it stands for, unless it is too long -/
theorem read_run {lexeme : String} (hne : lexeme.toList ≠ []) (h : ∀ c ∈ lexeme.toList, Token.isDigit c = true) :
    Numeral.read lexeme = if lexeme.length ≤ Numeral.digitLimit then some (decimal lexeme : Int) else none := by
  unfold Numeral.read decimal
  rw [trim_digits h, ← String.length_toList]
  cases htext : lexeme.toList with
  | nil => exact absurd htext hne
  | cons c rest =>
    rw [htext] at h
    obtain ⟨-, hminus, hplus, hunderscore, hvalue⟩ := digit_facts (h c List.mem_cons_self)
    have hsign : Numeral.splitSign (c :: rest) = (false, c :: rest) := by
      unfold Numeral.splitSign
      split
      · next heq => cases heq; exact absurd rfl hminus
      · next heq => cases heq; exact absurd rfl hplus
      · rfl
    have hrun : Numeral.digitRun? false (c :: rest) = some ((c :: rest).map fun d => d.toNat - 0x30) := by
      simp only [Numeral.digitRun?, if_neg hunderscore, hvalue,
        digitRun_digits fun d hd => h d (List.mem_cons_of_mem c hd)]
      rfl
    simp only [hsign, hrun, List.length_map, Bool.false_eq_true, if_false]

/-- a run of decimal digits that is not too long is read as the number it stands for -/
theorem read_digits {lexeme : String} (hne : lexeme.toList ≠ []) (h : ∀ c ∈ lexeme.toList, Token.isDigit c = true)
    (hl : lexeme.length ≤ Numeral.digitLimit) : Numeral.read lexeme = some (decimal lexeme : Int) := by
  rw [read_run hne h, if_pos hl]

/-- **Lexed tokens are lexical.** -/
theorem tokenize_lexical (source : String) : ∀ t ∈ Token.tokenize source, Lexical t := by
  intro t ht
  have hword := Token.scan_words 0 0 source.toList t ht
  refine ⟨fun hk n hn => ?_, ?_⟩
  · rw [hk] at hword
    rw [read_run hword.1 hword.2] at hn
    split_ifs at hn
    exact (Option.some.inj hn).symm
  · by_contra hlet
    simp only [Token.isOneOf, Bool.not_eq_false, Bool.and_eq_true, decide_eq_true_eq, List.contains_cons,
      List.contains_nil, Bool.or_false, beq_iff_eq] at hlet
    rw [hlet.1] at hword
    refine hword.2.2 ?_
    rw [String.ofList_toList, hlet.2]
    decide

/-- **Lexed tokens are ordinary** if their numbers have at most as many digits as can be read. -/
theorem tokenize_ordinary {source : String}
    (h : ∀ t ∈ Token.tokenize source, t.kind = .number → t.lexeme.length ≤ Numeral.digitLimit) :
    ∀ t ∈ Token.tokenize source, Ordinary t := by
  intro t ht
  have hword := Token.scan_words 0 0 source.toList t ht
  refine ⟨fun hk => ?_, (tokenize_lexical source t ht).notLet⟩
  rw [hk] at hword
  exact read_digits hword.1 hword.2 (h t ht hk)

/-! ## First tokens -/

/-- every word of a phrase starts with a token that satisfies the given condition -/
def Starts (X : Phrase Node) (P : Option Token → Prop) : Prop := ∀ u a, X u a → P u.head? ∧ u ≠ []

theorem Starts.head {X : Phrase Node} {P : Option Token → Prop} (h : Starts X P) {u : List Token} {a : Node} (hu : X u a)
    (v : List Token) : P (u ++ v).head? := by
  obtain ⟨hp, hne⟩ := h u a hu
  rwa [List.head?_append_of_ne_nil u hne]

theorem Starts.append {X : Phrase Node} {P : Option Token → Prop} (h : Starts X P) {u : List Token} {a : Node} (hu : X u a)
    (v : List Token) : P (u ++ v).head? ∧ u ++ v ≠ [] :=
  ⟨h.head hu v, fun he => (h u a hu).2 (List.append_eq_nil_iff.1 he).1⟩

theorem AtMostOnce.starts {operators : List String} {X : Phrase Node} {P : Option Token → Prop} (h : Starts X P) :
    Starts (AtMostOnce operators X) P := by
  intro u a hu
  cases hu with
  | one first => exact h _ _ first
  | two first operator second => exact h.append first _

theorem LeftChain.starts {operators : List String} {X : Phrase Node} {P : Option Token → Prop} (h : Starts X P) :
    Starts (LeftChain operators X) P := by
  intro u a hu
  induction hu with
  | one first => exact h _ _ first
  | @more u v op a b before operator last ih =>
    refine ⟨?_, by simp⟩
    rw [List.head?_append_of_ne_nil u ih.2]
    exact ih.1

theorem isOneOf_iff {kind : TokenKind} {lexemes : List String} {t : Token} :
    t.isOneOf kind lexemes = true ↔ t.kind = kind ∧ t.lexeme ∈ lexemes := by
  simp [Token.isOneOf]

theorem headStartsFactor_some {t : Token}
    (h : t.isOneOf .paren ["(", "\x7b"] = true ∨ t.isOneOf .keyword ["loop"] = true ∨ t.kind = .identifier ∨
      t.kind = .number) : headStartsFactor (some t) := by
  simp only [isOneOf_iff, List.mem_cons, List.not_mem_nil, or_false] at h
  simp only [headStartsFactor, headStarts, headIs, headKind, Option.any_some, Bool.or_eq_true, ← Bool.not_eq_true,
    isOneOf_iff, List.mem_cons, List.not_mem_nil, or_false, decide_eq_true_eq]
  grind

theorem Factor.starts : Starts Factor headStartsFactor := by
  intro u a hu
  cases hu with
  | group isLeft inner isRight =>
    have hleft := isOneOf_iff.1 isLeft
    exact ⟨headStartsFactor_some (Or.inl (isOneOf_iff.2 ⟨hleft.1, List.mem_append_left _ hleft.2⟩)), by simp⟩
  | block isLeft inner isRight =>
    have hleft := isOneOf_iff.1 isLeft
    exact ⟨headStartsFactor_some (Or.inl (isOneOf_iff.2 ⟨hleft.1, List.mem_cons_of_mem _ hleft.2⟩)), by simp⟩
  | loop isLoop count body => exact ⟨headStartsFactor_some (Or.inr (Or.inl isLoop)), by simp⟩
  | reference isName => exact ⟨headStartsFactor_some (Or.inr (Or.inr (Or.inl isName))), by simp⟩
  | call isName arguments some => exact ⟨headStartsFactor_some (Or.inr (Or.inr (Or.inl isName))), by simp⟩
  | number isNumber => exact ⟨headStartsFactor_some (Or.inr (Or.inr (Or.inr isNumber))), by simp⟩

theorem equality_starts : Starts Equality headStartsFactor :=
  AtMostOnce.starts (AtMostOnce.starts (LeftChain.starts (LeftChain.starts Factor.starts)))

theorem Expr.starts : Starts Expr fun head => headStarts head = true := by
  intro u a hu
  cases hu with
  | lambda isBackslash areParams isArrow body =>
    refine ⟨?_, by simp⟩
    simp only [List.head?_cons, headStarts, headIs, Option.any_some, isBackslash, Bool.true_or]
  | conditional isIf condition isThen consequent isElse alternative =>
    have hif := isOneOf_iff.1 isIf
    refine ⟨?_, by simp⟩
    have hword := isOneOf_iff.2 ⟨hif.1, List.mem_append_left ["loop"] hif.2⟩
    simp only [List.singleton_append] at hword
    simp only [List.head?_cons, headStarts, headIs, Option.any_some, hword, Bool.true_or, Bool.or_true]
  | equality equality => exact ⟨(equality_starts _ _ equality).1.1, (equality_starts _ _ equality).2⟩

/-- a statement does not start where statements end -/
theorem Statement.starts : Starts Statement fun head => headCloses head = false := by
  intro u a hu
  cases hu with
  | @print word u a isPrint shown =>
    refine ⟨?_, by simp⟩
    simp [headCloses, headIs, Token.isOneOf, (isOneOf_iff.1 isPrint).1]
  | @binding word name sign u a isLet isName isSign bound =>
    refine ⟨?_, by simp⟩
    simp [headCloses, headIs, Token.isOneOf, (isOneOf_iff.1 isLet).1]
  | bare notPrint expr =>
    obtain ⟨hs, hne⟩ := Expr.starts _ _ expr
    refine ⟨?_, hne⟩
    have hsome : u.head?.isNone = false := by simpa using hne
    simp only [headCloses, hsome, (starts_excludes hs).2.1, Bool.or_self]

/-- where statements end stands no semicolon -/
theorem not_semicolon_of_closes {head : Option Token} (h : headCloses head = true) : headIs .symbol [";"] head = false := by
  cases head with
  | none => rfl
  | some t =>
    have hparen : t.isOneOf .paren ["\x7d"] = true := by simpa [headCloses, headIs] using h
    simp [headIs, Token.isOneOf, (isOneOf_iff.1 hparen).1]

end LetScript.Language
