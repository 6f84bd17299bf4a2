/-
What trees from the parser are made of.

Every part of a parsed tree stands where one of the tokens stands, and holds texts or an integer that was read (`Built`). The
parser makes a node in one of ten ways; each of them keeps this, so it is a `Correspondence` of equal tokens and equal nodes,
and the tree of a program has it: `parse_built`. The program itself stands at its first token, and an empty one at zero.
-/
import LetScript.Proofs.Tree
import LetScript.Proofs.Parsing.Joining

namespace LetScript.Parsing

/-! ## Parts of parsed trees -/

/-- a name or an operator is a text -/
def IsWord (payload : Json) : Prop := ∃ word, payload = .text word

/-- the payload of a node, as the parser makes it -/
def Plain : Node → Prop
  | .statements _ mode _ => mode = .text "" ∨ mode = .text loopMode
  | .operation _ operator _ _ => IsWord operator
  | .literal _ value => ∃ digits n, Numeral.read digits = some n ∧ value = .int n
  | .reference _ name => IsWord name
  | .assign _ name _ => IsWord name
  | .lambda _ params _ => ∀ param ∈ params, IsWord param
  | .call _ name _ => IsWord name
  | .conditional .. => True
  | .blank _ => False

/-- every part of a tree stands at a position of the given ones and has a payload as the parser makes it -/
def Built (P : Int → Prop) (node : Node) : Prop := ∀ part, Part part node → P part.position ∧ Plain part

section

variable {P : Int → Prop} {node : Node}

theorem Built.position (h : Built P node) : P node.position := (h node .self).1

/-- a node is built when its children are -/
theorem built_iff : Built P node ↔ (P node.position ∧ Plain node) ∧ ∀ child ∈ node.children, Built P child :=
  forall_part_iff

theorem built_of (hposition : P node.position) (hplain : Plain node) (hchildren : ∀ child ∈ node.children, Built P child) :
    Built P node := built_iff.2 ⟨⟨hposition, hplain⟩, hchildren⟩

end

/-! ## Every rule builds -/

/-- tokens at the given positions, and the trees built from them -/
def built (P : Int → Prop) : Correspondence where
  token t t' := t' = t ∧ P t.position
  node a a' := a' = a ∧ Built P a
  kind h := by rw [h.1]
  lexeme h := by rw [h.1]
  literal h hread := ⟨by rw [h.1], built_of h.2 ⟨_, _, hread, rfl⟩ nofun⟩
  reference h _ := ⟨by rw [h.1], built_of h.2 ⟨_, rfl⟩ nofun⟩
  assign h _ ha := ⟨by rw [h.1, ha.1], built_of h.2 ⟨_, rfl⟩ (List.forall_mem_singleton.2 ha.2)⟩
  print h ha := ⟨by rw [h.1, ha.1], built_of h.2 ⟨_, rfl⟩ (List.forall_mem_singleton.2 ha.2)⟩
  call h _ hargs := by
    obtain ⟨heq, hall⟩ := forall₂_diagonal hargs
    exact ⟨by rw [h.1, heq], built_of h.2 ⟨_, rfl⟩ hall⟩
  operation h _ ha hb :=
    ⟨by rw [h.1, ha.1, hb.1], built_of h.2 ⟨_, rfl⟩ (List.forall_mem_cons.2 ⟨ha.2, List.forall_mem_singleton.2 hb.2⟩)⟩
  lambda h hparams ha := by
    refine ⟨by rw [h.1, ha.1], built_of h.2 (fun param hparam => ?_) (List.forall_mem_singleton.2 ha.2)⟩
    obtain ⟨s, s', -, -, rfl⟩ := hparams param hparam
    exact ⟨_, rfl⟩
  conditional ha hb hd :=
    ⟨by rw [ha.1, hb.1, hd.1], built_of ha.2.position trivial
      (List.forall_mem_cons.2 ⟨ha.2, List.forall_mem_cons.2 ⟨hb.2, List.forall_mem_singleton.2 hd.2⟩⟩)⟩
  loop h ha hb :=
    ⟨by rw [h.1, ha.1, hb.1], built_of h.2 (Or.inr rfl) (List.forall_mem_cons.2 ⟨ha.2, List.forall_mem_singleton.2 hb.2⟩)⟩
  block h hbody := by
    obtain ⟨heq, hall⟩ := forall₂_diagonal hbody
    exact ⟨by rw [h.1, heq], built_of h.2 (Or.inl rfl) hall⟩

/-! ## Programs -/

/-- where a program stands: at its first token, or at zero -/
def programStart (tokens : List Token) : Int := (tokens.head?.map Token.position).getD 0

/-- the tree of a program stands at its first token; a closing brace there would be left over -/
theorem parse_eq_ok_iff_start (tokens : List Token) (tree : Node) :
    parse tokens = .ok tree ↔ ∃ body, tree = .statements (programStart tokens) (.text "") body ∧
      statementLoop (expression predictive) (Cursor.start tokens) = .ok body ⟨[], Cursor.stopOf tokens, none⟩ := by
  rw [parse_eq_ok_iff]
  refine exists_congr fun body => and_congr_left fun hloop => ?_
  have hstart : headOpening 0 tokens.head? = programStart tokens := by
    cases tokens with
    | nil => rfl
    | cons t ts =>
      refine if_neg fun hbrace => ?_
      have hcloses : headCloses (some t) = true := by simp [headCloses, headIs, hbrace]
      rw [Language.Reads.statementLoop_of_closes predictive_consumes (c := Cursor.start (t :: ts)) hcloses] at hloop
      cases hloop
  rw [hstart]

/-- the positions of tokens, and zero when there are none -/
def IsPlace (tokens : List Token) (position : Int) : Prop := (∃ t ∈ tokens, t.position = position) ∨ tokens = [] ∧ position = 0

theorem isPlace_programStart (tokens : List Token) : IsPlace tokens (programStart tokens) := by
  cases tokens with
  | nil => exact Or.inr ⟨rfl, rfl⟩
  | cons t ts => exact Or.inl ⟨t, List.mem_cons_self, rfl⟩

/-- **What the parser makes is built from its tokens.** -/
theorem parse_built {tokens : List Token} {tree : Node} (h : parse tokens = .ok tree) : Built (IsPlace tokens) tree := by
  obtain ⟨body, rfl, hloop⟩ := (parse_eq_ok_iff_start tokens tree).1 h
  have htokens : List.Forall₂ (built (IsPlace tokens)).token tokens tokens :=
    List.forall₂_same.2 fun t ht => ⟨rfl, Or.inl ⟨t, ht, rfl⟩⟩
  have halike := (expression_corresponds predictive_gathers (built (IsPlace tokens))).statementLoop (Q := anyToken)
    (Cursor.start tokens) (Cursor.start tokens) htokens trivial
  rw [hloop] at halike
  cases halike with
  | ok result => exact built_of (isPlace_programStart tokens) (Or.inl rfl) (forall₂_diagonal result).2

end LetScript.Parsing
