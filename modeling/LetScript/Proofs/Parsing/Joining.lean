/-
The tree of two source texts that are joined by a semicolon on a line of its own.

The tokens are those of the first text, the semicolon, and those of the second text further on (`tokenize_join`). Statements
before tokens that stand further on are the same statements further on (`statementLoop_shift`), because positions do not
matter to the parser. So if both texts parse and no semicolon ends the first, the tree of the two has the statements of both:
`parseSource_join`.
-/
import LetScript.Proofs.Lexing.Lines
import LetScript.Proofs.Parsing.Closing
import LetScript.Proofs.Parsing.Correspondence
import LetScript.Proofs.Parsing.Soundness
import LetScript.Proofs.Parsing.Speculation
import LetScript.Proofs.Evaluation.Relocation

namespace LetScript

/-! ## Tokens -/

namespace Token

/-- a token with its position put through a function -/
def relocate (f : Int → Int) (token : Token) : Token := { token with position := f token.position }

theorem shift_shift (distance further : Int) (token : Token) :
    (token.shift distance).shift further = token.shift (further + distance) := by
  simp only [shift, Token.mk.injEq, true_and]
  omega

/-- the tokens of two texts with a semicolon on a line between them -/
theorem tokenize_join (a b : String) :
    tokenize (a ++ "\n;\n" ++ b) =
      tokenize a ++ (⟨.symbol, ";", a.length + 1⟩ : Token) :: (tokenize b).map (shift (a.length + 3)) := by
  have hlines : a ++ "\n;\n" ++ b = a ++ "\n" ++ (";" ++ "\n" ++ b) := by
    have hbreaks : "\n;\n" = "\n" ++ (";" ++ "\n") := by decide
    rw [hbreaks]
    simp only [String.append_assoc]
  have hsemicolon : tokenize ";" = [⟨.symbol, ";", 0⟩] := by decide
  have hlength : ";".length = 1 := by decide
  have hnewline : "\n" = String.singleton '\n' := rfl
  rw [hlines, hnewline, tokenize_lines rfl, tokenize_lines rfl, hsemicolon, hlength, List.singleton_append, List.map_cons, List.map_map]
  have hshift : shift ((a.length + 1 : ℕ) : Int) ∘ shift ((1 + 1 : ℕ) : Int) = shift (a.length + 3) := by
    funext token
    rw [Function.comp_apply, shift_shift]
    congr 1
  rw [hshift]
  simp [shift]

end Token

namespace Parsing

/-! ## Programs and their statements -/

/-- statements of the predictive parser leave the rest of the cursor alone -/
theorem statementLoop_next {c next : Cursor} {body : List Node}
    (h : statementLoop (expression predictive) c = .ok body next) : next = ⟨next.rest, c.stop, c.furthest⟩ := by
  have hahead := (expression_oneAhead (c.rest.length + 1)).statementLoop predictive_consumes c.rest c.stop c.furthest
    (Nat.lt_succ_self _)
  rw [h] at hahead
  cases hahead with
  | ok split taken same => rfl

/-- **A token list is a program when statements take all of it.** -/
theorem parse_eq_ok_iff (tokens : List Token) (tree : Node) :
    parse tokens = .ok tree ↔ ∃ body, tree = .statements (headOpening 0 tokens.head?) (.text "") body ∧
      statementLoop (expression predictive) (Cursor.start tokens) = .ok body ⟨[], Cursor.stopOf tokens, none⟩ := by
  have hstatements : ∀ body next, statementLoop (expression predictive) (Cursor.start tokens) = .ok body next →
      statements (expression predictive) 0 (Cursor.start tokens) =
        .ok (.statements (headOpening 0 tokens.head?) (.text "") body) next := by
    intro body next hloop
    rw [statements_eq, look_bind, openingPosition_eq]
    exact bind_ok hloop
  rw [parse_ok_iff]
  constructor
  · intro h
    cases hwhole : wholeInput predictive (Cursor.start tokens) with
    | fail complaint next => rw [hwhole] at h; cases h
    | unreadable token next => rw [hwhole] at h; cases h
    | ok found last =>
      rw [hwhole] at h
      cases h
      obtain ⟨whole, next, hbody, hwhole⟩ := bind_eq_ok hwhole
      obtain ⟨position, c, hlook, hloop⟩ := bind_eq_ok (statements_eq _ _ ▸ hbody)
      cases hlook
      obtain ⟨body, after, hloop, -⟩ := bind_eq_ok hloop
      rw [hstatements _ _ hloop] at hbody
      cases hbody
      have hstop := Language.statementLoop_stops predictive_consumes hloop
      have hnext := statementLoop_next hloop
      rw [look_bind, more_eq] at hwhole
      cases hrest : next.rest with
      | nil =>
        rw [hrest] at hwhole hnext
        cases hwhole
        rw [hnext] at hloop
        exact ⟨body, rfl, hloop⟩
      | cons t ts =>
        -- a semicolon is wanted here, and the statements did not stop before one
        rw [hrest] at hwhole
        obtain ⟨semicolon, after, hsemicolon, -⟩ := bind_eq_ok (p := expect .symbol [";"]) hwhole
        obtain ⟨wanted, hfail⟩ := expect_of_not hstop
        rw [hfail] at hsemicolon
        cases hsemicolon
  · rintro ⟨body, rfl, hloop⟩
    have hwhole : wholeInput predictive (Cursor.start tokens) =
        .ok (.statements (headOpening 0 tokens.head?) (.text "") body) ⟨[], Cursor.stopOf tokens, none⟩ :=
      bind_ok (hstatements _ _ hloop)
    rw [hwhole]
    rfl

/-! ## Statements further on -/

/-- lists related item by item to what a function makes of the items -/
theorem forall₂_map_iff {α : Type} (f : α → α) {items items' : List α} :
    List.Forall₂ (fun a a' => a' = f a) items items' ↔ items' = items.map f := by
  constructor
  · intro h
    induction h with
    | nil => rfl
    | cons first _ ih => rw [first, ih, List.map_cons]
  · rintro rfl
    exact List.forall₂_map_right_iff.2 (List.forall₂_same.2 fun _ _ => rfl)

/-- tokens, and nodes, with their positions put through a function -/
def relocated (f : Int → Int) : Correspondence where
  token t t' := t' = t.relocate f
  node a a' := a' = a.relocate f
  kind h := by rw [h]; rfl
  lexeme h := by rw [h]; rfl
  literal h _ := by rw [h]; rfl
  reference h _ := by rw [h]; rfl
  assign h _ ha := by rw [h, ha]; rfl
  print h ha := by rw [h, ha]; rfl
  call h _ hargs := by rw [h, (forall₂_map_iff _).1 hargs, Node.relocate, Node.relocateAll_eq]; rfl
  operation h _ ha hb := by rw [h, ha, hb]; rfl
  lambda h _ ha := by rw [h, ha]; rfl
  conditional ha hb hd := by rw [ha, hb, hd, Node.relocate, Node.position_relocate]
  loop h ha hb := by rw [h, ha, hb]; rfl
  block h hbody := by rw [h, (forall₂_map_iff _).1 hbody, Node.relocate, Node.relocateAll_eq]; rfl

/-- statements that take all tokens also do so further on -/
theorem statementLoop_shift (distance : Int) {w : List Token} {s s' : Int} {f f' : Option Complaint} {body : List Node}
    (h : statementLoop (expression predictive) ⟨w, s, f⟩ = .ok body ⟨[], s, f⟩) :
    statementLoop (expression predictive) ⟨w.map (Token.shift distance), s', f'⟩ =
      .ok (body.map (Node.relocate (· + distance))) ⟨[], s', f'⟩ := by
  have htokens : List.Forall₂ (relocated (· + distance)).token w (w.map (Token.shift distance)) := (forall₂_map_iff _).2 rfl
  have halike := (expression_corresponds predictive_gathers (relocated (· + distance))).statementLoop (Q := anyToken) ⟨w, s, f⟩
    ⟨w.map (Token.shift distance), s', f'⟩ htokens trivial
  rw [h] at halike
  cases hshifted : statementLoop (expression predictive) ⟨w.map (Token.shift distance), s', f'⟩ with
  | ok body' next =>
    have hnext := statementLoop_next hshifted
    rw [hshifted] at halike
    cases halike with
    | ok result rest =>
      rw [List.forall₂_nil_left_iff.1 rest] at hnext
      rw [(forall₂_map_iff _).1 result, hnext]
  | fail complaint next => rw [hshifted] at halike; cases halike
  | unreadable token next => rw [hshifted] at halike; cases halike

/-! ## Joined texts -/

/-- **The tree of two texts has the statements of both**, those of the second further on. -/
theorem parseSource_join {a b : String} {first second : Node} (ha : parseSource a = .ok first) (hb : parseSource b = .ok second)
    (hlast : ∃ t, (Token.tokenize a).getLast? = some t ∧ t.lexeme ≠ ";") :
    ∃ p q body others, first = .statements p (.text "") body ∧ second = .statements q (.text "") others ∧
      parseSource (a ++ "\n;\n" ++ b) =
        .ok (.statements p (.text "") (body ++ others.map (Node.relocate (· + (a.length + 3))))) := by
  obtain ⟨body, hfirst, hbody⟩ := (parse_eq_ok_iff _ _).1 ha
  obtain ⟨others, hsecond, hothers⟩ := (parse_eq_ok_iff _ _).1 hb
  refine ⟨_, _, body, others, hfirst, hsecond, ?_⟩
  rw [parseSource, Token.tokenize_join, parse_eq_ok_iff]
  obtain ⟨t, ht, hsemicolon⟩ := hlast
  have hhead : ∀ rest, (Token.tokenize a ++ rest).head? = (Token.tokenize a).head? := by
    intro rest
    refine List.head?_append_of_ne_nil _ ?_
    intro hnil
    rw [hnil] at ht
    cases ht
  refine ⟨_, by rw [hhead], ?_⟩
  have hahead : ∀ n, OneAhead n 1 noToken (expression predictive) := fun n =>
    (expression_oneAhead n).mono le_rfl le_rfl fun _ h => h.elim
  have hjoint : IsSemicolon (⟨.symbol, ";", a.length + 1⟩ : Token) := rfl
  have hopen : ¬ IsSemicolon t := by
    intro hclosed
    simp only [IsSemicolon, Token.isOneOf, Bool.and_eq_true, List.contains_cons, List.contains_nil, Bool.or_false,
      beq_iff_eq] at hclosed
    exact hsemicolon hclosed.2
  exact statementLoop_join predictive_consumes hahead expression_closing hbody ⟨t, ht, hopen⟩ hjoint
    (statementLoop_shift _ hothers)

end Parsing

end LetScript
