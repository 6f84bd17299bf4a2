/-
Where the nodes of a program stand.

A name stands at a token that spells it, an operation at the token of its operator, and the count of a loop at one of the
tokens that were read as the count (`Placed`). A derivation of the grammar says which tokens each node was read from, so this
is shown by going through the rules: what holds of the expressions inside holds of the expression (`expr_spread`). The tree of
a source text is derived from all its tokens, whatever the length of its numbers (`program_of_parseSource`), so all its parts
are placed: `parseSource_placed`.
-/
import LetScript.Proofs.Tree
import LetScript.Proofs.Parsing.Completeness
import LetScript.Proofs.Parsing.Correspondence

namespace LetScript.Language

open Parsing

/-! ## Places -/

/-- a loop among tokens: its keyword stands at the position, and behind it the count and the body, each with its tokens; the
count stands at one of its own -/
def LoopAt (tokens : List Token) (position : Int) (count body : Node) : Prop :=
  ∃ before word u v after, tokens = before ++ word :: (u ++ v) ++ after ∧ word.isOneOf .keyword ["loop"] = true ∧
    word.position = position ∧ Count u count ∧ Expr v body ∧ ∃ t ∈ u, t.position = count.position

/-- a word of a token at a position -/
def WordAt (tokens : List Token) (position : Int) (word : Json) : Prop :=
  ∃ t ∈ tokens, t.position = position ∧ word = .text t.lexeme

/-- a node of a program stands where it was read -/
def Placed (tokens : List Token) : Node → Prop
  | .statements position mode nodes =>
    mode = .text loopMode → ∃ count body, nodes = [count, body] ∧ LoopAt tokens position count body
  | .operation position operator _ _ =>
    WordAt tokens position operator ∧ ∃ spelling ∈ operatorWords, operator = .text spelling
  | .literal _ value => ∃ n, value = .int n
  | .reference position name => WordAt tokens position name
  | .call position name _ => WordAt tokens position name
  | .blank _ => False
  | _ => True

/-- a block is no loop -/
theorem placed_block (tokens : List Token) (position : Int) (body : List Node) :
    Placed tokens (.statements position (.text "") body) := by
  intro hloop
  simp [loopMode] at hloop

/-- all parts of a node are placed in every list in which the tokens stand -/
def Inside (u : List Token) (node : Node) : Prop :=
  ∀ before after part, Part part node → Placed (before ++ u ++ after) part

theorem Inside.widen {u w : List Token} {node : Node} (h : Inside u node) (hw : u <:+: w) : Inside w node := by
  obtain ⟨x, y, rfl⟩ := hw
  intro before after part hpart
  have hplaced := h (before ++ x) (y ++ after) part hpart
  simpa only [List.append_assoc] using hplaced

theorem Inside.of_children {w : List Token} {node : Node} (here : ∀ before after, Placed (before ++ w ++ after) node)
    (children : ∀ child ∈ node.children, Inside w child) : Inside w node := by
  intro before after
  rw [forall_part_iff]
  exact ⟨here before after, fun child hchild part hpart => children child hchild before after part hpart⟩

theorem WordAt.intro {w before after : List Token} {t : Token} (ht : t ∈ w) :
    WordAt (before ++ w ++ after) t.position (.text t.lexeme) :=
  ⟨t, by simp [ht], rfl, rfl⟩

/-- all parts of a node are placed, and the node itself stands at one of its tokens -/
structure Spread (u : List Token) (node : Node) : Prop where
  inside : Inside u node
  start : ∃ t ∈ u, t.position = node.position

/-- the words of a phrase with fewer than `n` tokens are spread over them -/
def Spreads (n : ℕ) (X : Phrase Node) : Prop := ∀ u a, u.length < n → X u a → Spread u a

/-! ## Rules -/

section

variable {n : ℕ} {X : Phrase Node} {operators : List String}

/-- an operation stands at its operator -/
theorem operation_spread {u v : List Token} {op : Token} {a b : Node} (hops : ∀ operator ∈ operators, operator ∈ operatorWords)
    (hop : op.isOneOf .operator operators = true) (ha : Spread u a) (hb : Spread v b) :
    Spread (u ++ op :: v) (.operation op.position (.text op.lexeme) a b) := by
  refine ⟨.of_children (fun before after => ⟨.intro (by simp), op.lexeme, ?_, rfl⟩) ?_, op, by simp, rfl⟩
  · exact hops _ (isOneOf_iff.1 hop).2
  · simp only [Node.children, List.mem_cons, List.not_mem_nil, or_false]
    rintro child (rfl | rfl)
    · exact ha.inside.widen ⟨[], op :: v, by simp⟩
    · exact hb.inside.widen ⟨u ++ [op], [], by simp⟩

theorem atMostOnce_spread (hops : ∀ operator ∈ operators, operator ∈ operatorWords) (h : Spreads n X) :
    Spreads n (AtMostOnce operators X) := by
  intro w a hw ha
  cases ha with
  | one first => exact h _ _ hw first
  | @two u v op a b first operator second =>
    rw [List.length_append, List.length_cons] at hw
    exact operation_spread hops operator (h u a (by omega) first) (h v b (by omega) second)

theorem leftChain_spread (hops : ∀ operator ∈ operators, operator ∈ operatorWords) (h : Spreads n X) :
    Spreads n (LeftChain operators X) := by
  intro w a hw ha
  induction ha with
  | one first => exact h _ _ hw first
  | @more u v op a b before operator last ih =>
    rw [List.length_append, List.length_cons] at hw
    exact operation_spread hops operator (ih (by omega)) (h v b (by omega) last)

theorem equality_spread (h : Spreads n Factor) : Spreads n Equality := by
  have hequality : ∀ operator ∈ equalityOperators, operator ∈ operatorWords := by decide
  have hrelational : ∀ operator ∈ relationalOperators, operator ∈ operatorWords := by decide
  have hadditive : ∀ operator ∈ additiveOperators, operator ∈ operatorWords := by decide
  have hterm : ∀ operator ∈ multiplicativeOperators, operator ∈ operatorWords := by decide
  exact atMostOnce_spread hequality (atMostOnce_spread hrelational (leftChain_spread hadditive (leftChain_spread hterm h)))

theorem name_spread (name : Token) : Spread [name] (.reference name.position (.text name.lexeme)) :=
  ⟨.of_children (fun _ _ => .intro (by simp)) nofun, name, by simp, rfl⟩

theorem number_spread (token : Token) : Spread [token] (literal token) :=
  ⟨.of_children (fun _ _ => ⟨_, rfl⟩) nofun, token, by simp, rfl⟩

theorem group_spread {left right : Token} {u : List Token} {a : Node} (h : Spread u a) : Spread (left :: (u ++ [right])) a := by
  obtain ⟨t, ht, hposition⟩ := h.start
  exact ⟨h.inside.widen ⟨[left], [right], by simp⟩, t, by simp [ht], hposition⟩

theorem call_spread {name : Token} {u : List Token} {args : List Node} (h : ∀ arg ∈ args, Inside u arg) :
    Spread (name :: u) (.call name.position (.text name.lexeme) args) := by
  refine ⟨.of_children (fun _ _ => .intro (by simp)) fun arg harg => ?_, name, by simp, rfl⟩
  exact (h arg harg).widen ⟨[name], [], by simp⟩

variable (he : Spreads n Expr)

include he

theorem statement_spread : Spreads n Statement := by
  intro w a hw ha
  cases ha with
  | @print word u a isPrint shown =>
    rw [List.length_cons] at hw
    have hshown := (he u a (by omega) shown).inside
    have hword : word.lexeme = "print" := by simpa using (isOneOf_iff.1 isPrint).2
    rw [← hword]
    exact call_spread (List.forall_mem_singleton.2 hshown)
  | @binding word name sign u a isLet isName isSign bound =>
    simp only [List.length_cons] at hw
    have hbound := (he u a (by omega) bound).inside
    refine ⟨.of_children (fun _ _ => trivial) ?_, name, by simp, rfl⟩
    exact List.forall_mem_singleton.2 (hbound.widen ⟨[word, name, sign], [], by simp⟩)
  | bare notPrint expr => exact he _ _ hw expr

theorem program_inside {body : List Node} {u : List Token} (hu : u.length < n) (h : Program u body) :
    ∀ a ∈ body, Inside u a := by
  induction body generalizing u with
  | nil => exact fun _ ha => by cases ha
  | cons first others ih =>
    cases h with
    | last statement => exact List.forall_mem_singleton.2 (statement_spread he _ _ hu statement).inside
    | @more u v semicolon _ _ statement separator rest =>
      rw [List.length_append, List.length_cons] at hu
      refine List.forall_mem_cons.2 ⟨?_, fun a ha => ?_⟩
      · exact (statement_spread he _ _ (by omega) statement).inside.widen ⟨[], semicolon :: v, by simp⟩
      · exact (ih (by omega) rest a ha).widen ⟨u ++ [semicolon], [], by simp⟩

theorem arguments_inside {args : List Node} {u : List Token} (hu : u.length < n) (h : Arguments u args) :
    ∀ a ∈ args, Inside u a := by
  induction args generalizing u with
  | nil => exact fun _ ha => by cases ha
  | cons first others ih =>
    cases h with
    | @more u v _ _ expr rest =>
      rw [List.length_append] at hu
      refine List.forall_mem_cons.2 ⟨?_, fun a ha => ?_⟩
      · exact (he _ _ (by omega) expr).inside.widen ⟨[], v, by simp⟩
      · exact (ih (by omega) rest a ha).widen ⟨u, [], by simp⟩

theorem count_spread : Spreads (n + 1) Count := by
  intro w a hw ha
  cases ha with
  | number isNumber => exact number_spread _
  | reference isName => exact name_spread _
  | group isLeft inner isRight =>
    simp only [List.length_cons, List.length_append, List.length_nil] at hw
    exact group_spread (he _ _ (by omega) inner)

theorem factor_spread : Spreads (n + 1) Factor := by
  intro w a hw ha
  cases ha with
  | group isLeft inner isRight =>
    simp only [List.length_cons, List.length_append, List.length_nil] at hw
    exact group_spread (he _ _ (by omega) inner)
  | @block left right u body isLeft inner isRight =>
    simp only [List.length_cons, List.length_append, List.length_nil] at hw
    refine ⟨.of_children (fun _ _ => placed_block _ _ _) fun a ha => ?_, ?_⟩
    · exact (program_inside he (by omega) inner a ha).widen ⟨[left], [right], by simp⟩
    · cases u with
      | nil => exact ⟨left, by simp, rfl⟩
      | cons t ts => exact ⟨t, by simp, rfl⟩
  | @loop word u v a b isLoop count body =>
    rw [List.length_cons, List.length_append] at hw
    have hcount := count_spread he u a (by omega) count
    have hbody := he v b (by omega) body
    refine ⟨.of_children (fun before after => ?_) ?_, word, by simp, rfl⟩
    · exact fun _ => ⟨a, b, rfl, before, word, u, v, after, rfl, isLoop, rfl, count, body, hcount.start⟩
    · simp only [Node.children, List.mem_cons, List.not_mem_nil, or_false]
      rintro child (rfl | rfl)
      · exact hcount.inside.widen ⟨[word], v, by simp⟩
      · exact hbody.inside.widen ⟨word :: u, [], by simp⟩
  | reference isName => exact name_spread _
  | call isName arguments some =>
    rw [List.length_cons] at hw
    exact call_spread (arguments_inside he (by omega) arguments)
  | number isNumber => exact number_spread _

end

/-- **An expression stands where it was read**, and so do all its parts. -/
theorem expr_spread (n : ℕ) : Spreads n Expr := by
  induction n with
  | zero => exact fun _ _ hu => absurd hu (Nat.not_lt_zero _)
  | succ n ih =>
    have hequality := equality_spread (factor_spread ih)
    intro w a hw ha
    cases ha with
    | @lambda backslash arrow params u a isBackslash areParams isArrow body =>
      simp only [List.length_cons, List.length_append] at hw
      refine ⟨.of_children (fun _ _ => trivial) (List.forall_mem_singleton.2 ?_), backslash, by simp, rfl⟩
      exact (ih u a (by omega) body).inside.widen ⟨backslash :: (params ++ [arrow]), [], by simp⟩
    | @conditional wordIf wordThen wordElse u v x a b d isIf condition isThen consequent isElse alternative =>
      simp only [List.length_cons, List.length_append] at hw
      have hcondition := hequality u a (by omega) condition
      have hconsequent := ih v b (by omega) consequent
      have halternative := ih x d (by omega) alternative
      obtain ⟨t, ht, hposition⟩ := hcondition.start
      refine ⟨.of_children (fun _ _ => trivial) ?_, t, by simp [ht], hposition⟩
      simp only [Node.children, List.mem_cons, List.not_mem_nil, or_false]
      rintro child (rfl | rfl | rfl)
      · exact hcondition.inside.widen ⟨[wordIf], wordThen :: (v ++ wordElse :: x), by simp⟩
      · exact hconsequent.inside.widen ⟨wordIf :: (u ++ [wordThen]), wordElse :: x, by simp⟩
      · exact halternative.inside.widen ⟨wordIf :: (u ++ wordThen :: (v ++ [wordElse])), [], by simp⟩
    | equality inner => exact hequality _ _ hw inner

/-! ## Source texts -/

/-- the tree of a source text is that of a derivation, whatever the length of its numbers -/
theorem program_of_parseSource {source : String} {tree : Node} (h : parseSource source = .ok tree) :
    ∃ body, Program (Token.tokenize source) body ∧
      tree = .statements (opening 0 (Token.tokenize source)) (.text "") body := by
  have hverdict := (parse_ok_iff _ tree).1 h
  rcases wholeInput_reading (tokenize_lexical source) with ⟨body, next, hok, -, hbody⟩ | ⟨u, complaint, next, hfail, -⟩ |
    ⟨token, next, hrefused, -⟩
  · rw [hok] at hverdict
    cases hverdict
    exact ⟨body, hbody, rfl⟩
  · rw [hfail] at hverdict
    cases hverdict
  · rw [hrefused] at hverdict
    cases hverdict

/-- **Every part of a program stands where it was read.** -/
theorem parseSource_placed {source : String} {tree : Node} (h : parseSource source = .ok tree) :
    ∀ part, Part part tree → Placed (Token.tokenize source) part := by
  obtain ⟨body, hbody, rfl⟩ := program_of_parseSource h
  have hchildren := program_inside (expr_spread _) (Nat.lt_succ_self _) hbody
  have hinside : Inside (Token.tokenize source) (.statements (opening 0 (Token.tokenize source)) (.text "") body) :=
    .of_children (fun _ _ => placed_block _ _ _) hchildren
  intro part hpart
  simpa using hinside [] [] part hpart

end LetScript.Language
