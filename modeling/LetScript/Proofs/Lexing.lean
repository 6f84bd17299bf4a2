/-
What the lexer gives.

- `lead_rule`: what stands at the front of a text is what one of the rules finds there (`Rule`).
- `lead_token`: so at every place the token taken is a word of its kind (`Word`), not empty and not longer than the text.
- `scan_words`, `scan_spans`: so the tokens of a text are words of their kinds, and they stand in order without overlap.
-/
import Mathlib.Tactic
import LetScript.Token.Lexer

namespace LetScript.Token

/-! ## Words -/

/-- the words of each kind, by their characters alone -/
def Word : TokenKind → List Char → Prop
  | .keyword, word => String.ofList word ∈ keywords
  | .number, word => word ≠ [] ∧ ∀ c ∈ word, isDigit c = true
  | .identifier, word => word ≠ [] ∧ (∀ c ∈ word, isWordChar c = true) ∧ String.ofList word ∉ keywords
  | .operator, word => (∃ pair ∈ operatorPairs, word = [pair.1, pair.2]) ∨ ∃ c ∈ operatorChars, word = [c]
  | .paren, word => ∃ c ∈ parenChars, word = [c]
  | .symbol, word => ∃ c, word = [c]

theorem take_takeWhile (p : Char → Bool) (text : List Char) : text.take (text.takeWhile p).length = text.takeWhile p :=
  (List.prefix_iff_eq_take.1 (List.takeWhile_prefix p)).symm

/-- a keyword at the front is the word at the front -/
theorem take_keyword {text : List Char} {keyword : String} (h : startsWithKeyword text keyword = true) :
    text.take keyword.length = keyword.toList := by
  simp only [startsWithKeyword, Bool.and_eq_true, List.isPrefixOf_iff_prefix] at h
  rw [← String.length_toList]
  exact (List.prefix_iff_eq_take.1 h.1).symm

theorem keyword_word {text : List Char} {keyword : String} (hmem : keyword ∈ keywords)
    (h : startsWithKeyword text keyword = true) :
    Word .keyword (text.take keyword.length) ∧ 0 < keyword.length ∧ keyword.length ≤ text.length := by
  have hpos : ∀ keyword ∈ keywords, 0 < keyword.length := by decide
  have htake := take_keyword h
  have hlen := congrArg List.length htake
  simp only [List.length_take, String.length_toList] at hlen
  refine ⟨?_, hpos keyword hmem, by omega⟩
  rw [htake]
  simpa [Word] using hmem

/-- a run that starts with the first character is not empty -/
theorem run_length {p : Char → Bool} {c : Char} (rest : List Char) (hp : p c = true) :
    0 < ((c :: rest).takeWhile p).length ∧ ((c :: rest).takeWhile p).length ≤ (c :: rest).length :=
  ⟨by simp [hp], (List.takeWhile_prefix p).length_le⟩

/-- a run of word characters that is a keyword starts with that keyword and ends there -/
theorem startsWithKeyword_run (text : List Char) (keyword : String) (h : text.takeWhile isWordChar = keyword.toList) :
    startsWithKeyword text keyword = true := by
  have hsplit := List.takeWhile_append_dropWhile (p := isWordChar) (l := text)
  rw [h] at hsplit
  have hdrop : text.drop keyword.length = text.dropWhile isWordChar := by
    rw [← hsplit, ← String.length_toList, List.drop_left, hsplit]
  simp only [startsWithKeyword, Bool.and_eq_true, List.isPrefixOf_iff_prefix]
  refine ⟨h ▸ List.takeWhile_prefix _, ?_⟩
  rw [hdrop]
  cases hd : text.dropWhile isWordChar with
  | nil => rfl
  | cons c rest =>
    have hc : isWordChar c = false := by
      have := List.head?_dropWhile_not isWordChar text
      rw [hd] at this
      simpa using this
    simp [hc]

/-! ## The front of a text -/

/-- what a rule finds at the front of a text, and when it comes to be used -/
inductive Rule (c : Char) (rest : List Char) : Lead → Prop where
  | blank (blank : isBlank c = true) : Rule c rest (.gap 1)
  | keyword {keyword : String} (known : keyword ∈ keywords) (starts : startsWithKeyword (c :: rest) keyword = true) :
      Rule c rest (.token .keyword keyword.length)
  | number (digit : isDigit c = true) : Rule c rest (.token .number ((c :: rest).takeWhile isDigit).length)
  | comment (starts : startsComment (c :: rest) = true) : Rule c rest (.gap ((c :: rest).takeWhile (!isLineBreak ·)).length)
  | mark (symbol : c ∈ symbolChars) : Rule c rest (.token .symbol 1)
  | pair (starts : startsWithPair (c :: rest) = true) : Rule c rest (.token .operator 2)
  | operator (operator : c ∈ operatorChars) (single : startsWithPair (c :: rest) = false) :
      Rule c rest (.token .operator 1)
  | paren (paren : c ∈ parenChars) : Rule c rest (.token .paren 1)
  | identifier (word : isWordChar c = true) (digit : isDigit c = false)
      (unknown : ∀ keyword ∈ keywords, startsWithKeyword (c :: rest) keyword = false) :
      Rule c rest (.token .identifier ((c :: rest).takeWhile isWordChar).length)
  | stray (blank : isBlank c = false) (word : isWordChar c = false) (operator : c ∉ operatorChars) (paren : c ∉ parenChars)
      (single : startsWithPair (c :: rest) = false) : Rule c rest (.token .symbol 1)

/-- **What stands at the front is what one of the rules finds there.** -/
theorem lead_rule (c : Char) (rest : List Char) : Rule c rest (lead c rest) := by
  by_cases hblank : isBlank c = true
  · rw [lead, if_pos hblank]
    exact .blank hblank
  · rw [lead, if_neg hblank]
    cases hk : keywords.find? (startsWithKeyword (c :: rest)) with
    | some keyword => exact .keyword (List.mem_of_find?_eq_some hk) (List.find?_some hk)
    | none =>
      dsimp only
      split_ifs with hdigit hcomment hsymbol hpair hoperator hparen hword
      · exact .number hdigit
      · exact .comment hcomment
      · exact .mark (by simpa using hsymbol)
      · exact .pair hpair
      · exact .operator (by simpa using hoperator) (by simpa using hpair)
      · exact .paren (by simpa using hparen)
      · exact .identifier hword (by simpa using hdigit) fun keyword hmem => by
          simpa using List.find?_eq_none.1 hk keyword hmem
      · exact .stray (by simpa using hblank) (by simpa using hword) (by simpa using hoperator) (by simpa using hparen)
          (by simpa using hpair)

/-- a token taken is a word of its kind, inside the text -/
theorem lead_token {c : Char} {rest : List Char} {kind : TokenKind} {length : ℕ}
    (h : lead c rest = .token kind length) :
    Word kind ((c :: rest).take length) ∧ 0 < length ∧ length ≤ (c :: rest).length := by
  have hrule := lead_rule c rest
  rw [h] at hrule
  cases hrule with
  | keyword known starts => exact keyword_word known starts
  | number digit =>
    refine ⟨?_, run_length rest digit⟩
    rw [take_takeWhile]
    exact ⟨by simp [digit], List.all_eq_true.1 List.all_takeWhile⟩
  | mark symbol => exact ⟨⟨c, rfl⟩, Nat.one_pos, by simp⟩
  | pair starts =>
    cases rest with
    | nil => cases starts
    | cons d rest => exact ⟨Or.inl ⟨(c, d), by simpa [startsWithPair] using starts, rfl⟩, Nat.two_pos, by simp⟩
  | operator operator single => exact ⟨Or.inr ⟨c, operator, rfl⟩, Nat.one_pos, by simp⟩
  | paren paren => exact ⟨⟨c, paren, rfl⟩, Nat.one_pos, by simp⟩
  | identifier word digit unknown =>
    refine ⟨?_, run_length rest word⟩
    rw [take_takeWhile]
    refine ⟨by simp [word], List.all_eq_true.1 List.all_takeWhile, fun hmem => ?_⟩
    have hstarts := startsWithKeyword_run (c :: rest) _ String.toList_ofList.symm
    rw [unknown _ hmem] at hstarts
    cases hstarts
  | stray => exact ⟨⟨c, rfl⟩, Nat.one_pos, by simp⟩

/-! ## The tokens of a text -/

/-- **Every token is a word of its kind.** -/
theorem scan_words (skip offset : ℕ) (text : List Char) : ∀ t ∈ scan skip offset text, Word t.kind t.lexeme.toList := by
  induction text generalizing skip offset with
  | nil => intro t ht; cases ht
  | cons c rest ih =>
    cases skip with
    | succ skip => exact ih skip (offset + 1)
    | zero =>
      unfold scan
      cases hl : lead c rest with
      | gap length => exact ih (length - 1) (offset + 1)
      | token kind length =>
        intro t ht
        rcases List.mem_cons.1 ht with rfl | ht
        · simpa using (lead_token hl).1
        · exact ih (length - 1) (offset + 1) t ht

/-- **The tokens stand in order**: none is empty, and each ends before the next begins. -/
theorem scan_spans (skip offset : ℕ) (text : List Char) :
    (scan skip offset text).Pairwise (fun t t' => t.stop ≤ t'.position) ∧
      ∀ t ∈ scan skip offset text, (offset + skip : Int) ≤ t.position ∧ t.position < t.stop := by
  induction text generalizing skip offset with
  | nil => exact ⟨List.Pairwise.nil, fun t ht => by cases ht⟩
  | cons c rest ih =>
    cases skip with
    | succ skip =>
      obtain ⟨hpair, hmem⟩ := ih skip (offset + 1)
      refine ⟨hpair, fun t ht => ?_⟩
      obtain ⟨hpos, hstop⟩ := hmem t ht
      push_cast at hpos ⊢
      exact ⟨by omega, hstop⟩
    | zero =>
      unfold scan
      cases hl : lead c rest with
      | gap length =>
        obtain ⟨hpair, hmem⟩ := ih (length - 1) (offset + 1)
        refine ⟨hpair, fun t ht => ?_⟩
        obtain ⟨hpos, hstop⟩ := hmem t ht
        push_cast at hpos ⊢
        exact ⟨by omega, hstop⟩
      | token kind length =>
        obtain ⟨hpair, hmem⟩ := ih (length - 1) (offset + 1)
        obtain ⟨-, hpos, hle⟩ := lead_token hl
        have hstop : Token.stop ⟨kind, String.ofList ((c :: rest).take length), offset⟩ = offset + length := by
          simp only [Token.stop, String.length_ofList, List.length_take]
          omega
        refine ⟨List.pairwise_cons.2 ⟨fun t ht => ?_, hpair⟩, fun t ht => ?_⟩
        · have := (hmem t ht).1
          rw [hstop]
          push_cast at this
          omega
        · rcases List.mem_cons.1 ht with rfl | ht
          · rw [hstop]
            simp only
            omega
          · have := hmem t ht
            push_cast at this ⊢
            omega

end LetScript.Token
