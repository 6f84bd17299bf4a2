/-
Nothing is lost in lexing.

The tokens of a text and the gaps around them are the text (`Covers`). A gap is made of blanks and comments (`Gap`). A token
is what its kind prescribes where it stands (`Stands`), which takes in what stands beside it: a word does not go on, a number
goes on neither way, and no single character is taken where a two-character operator starts. Stated by positions in the text
this is `Lossless`, and `tokenize_lossless` says it of every source text.
-/
import LetScript.Proofs.Lexing.Lines

namespace LetScript.Token

/-! ## Gaps and words in their place -/

/-- blanks and comments one after the other; a comment goes up to the next line break or to the end -/
inductive Gap (after : List Char) : List Char → Prop where
  | nil : Gap after []
  | blank {c : Char} {rest : List Char} (blank : isBlank c = true) (more : Gap after rest) : Gap after (c :: rest)
  | comment {body rest : List Char} (inside : ∀ c ∈ body, isLineBreak c = false)
      (ends : ∀ c ∈ (rest ++ after).head?, isLineBreak c = true) (more : Gap after rest) :
      Gap after ('-' :: '-' :: (body ++ rest))

/-- whether the first character of a text, if there is one, is of a class -/
def goesOn (p : Char → Bool) (text : List Char) : Bool := text.head?.any p

/-- the words of a kind between what stands before and after them -/
def Stands (before : List Char) (word : List Char) (after : List Char) : TokenKind → Prop
  | .keyword => String.ofList word ∈ keywords ∧ goesOn isWordChar after = false
  | .number => (∀ c ∈ word, isDigit c = true) ∧ goesOn isDigit after = false ∧ goesOn isDigit before.reverse = false
  | .identifier =>
    (∀ c ∈ word, isWordChar c = true) ∧ goesOn isDigit word = false ∧ String.ofList word ∉ keywords ∧
      goesOn isWordChar after = false
  | .operator =>
    (∃ pair ∈ operatorPairs, word = [pair.1, pair.2]) ∨
      ∃ c ∈ operatorChars, word = [c] ∧ startsWithPair (c :: after) = false
  | .paren => ∃ c ∈ parenChars, word = [c]
  | .symbol =>
    ∃ c, word = [c] ∧ isBlank c = false ∧ isWordChar c = false ∧ c ∉ operatorChars ∧ c ∉ parenChars ∧
      startsWithPair (c :: after) = false

/-- a text that stands after another is gaps and words by turns, and these words are the tokens -/
inductive Covers : List Char → List Char → List Token → Prop where
  | last {before gap : List Char} (only : Gap [] gap) : Covers before gap []
  | token {before gap word after : List Char} {kind : TokenKind} {tokens : List Token} (first : Gap (word ++ after) gap)
      (stands : Stands (before ++ gap) word after kind) (more : Covers (before ++ gap ++ word) after tokens) :
      Covers before (gap ++ word ++ after) (⟨kind, String.ofList word, (before ++ gap).length⟩ :: tokens)

/-! ## The front of a text -/

/-- no number goes on from what stands before -/
def Detached (before text : List Char) : Prop := goesOn isDigit text = true → goesOn isDigit before.reverse = false

theorem goesOn_dropWhile (p : Char → Bool) (text : List Char) : goesOn p (text.dropWhile p) = false := by
  have hnot := List.head?_dropWhile_not p text
  unfold goesOn
  cases hd : (text.dropWhile p).head? with
  | none => rfl
  | some c =>
    rw [hd] at hnot
    simpa using hnot

theorem drop_takeWhile (p : Char → Bool) (text : List Char) : text.drop (text.takeWhile p).length = text.dropWhile p := by
  have hsplit := List.takeWhile_append_dropWhile (p := p) (l := text)
  calc text.drop (text.takeWhile p).length
      = (text.takeWhile p ++ text.dropWhile p).drop (text.takeWhile p).length := by rw [hsplit]
    _ = text.dropWhile p := List.drop_left

/-- a digit is a word character -/
theorem isWordChar_of_isDigit {c : Char} (h : isDigit c = true) : isWordChar c = true := by
  simp [isWordChar, h]

theorem goesOn_isDigit {text : List Char} (h : goesOn isWordChar text = false) : goesOn isDigit text = false := by
  cases text with
  | nil => rfl
  | cons c rest =>
    simp only [goesOn, List.head?_cons, Option.any_some] at h ⊢
    by_contra hdigit
    rw [Bool.not_eq_false] at hdigit
    rw [isWordChar_of_isDigit hdigit] at h
    cases h

/-- the characters with a class of their own are neither blank nor word characters -/
theorem special_excluded :
    (∀ c ∈ symbolChars, isBlank c = false ∧ isWordChar c = false ∧ c ∉ operatorChars ∧ c ∉ parenChars ∧
        ∀ d, (c, d) ∉ operatorPairs) ∧
      (∀ c ∈ operatorChars, isWordChar c = false) ∧ (∀ c ∈ parenChars, isWordChar c = false) ∧
        ∀ pair ∈ operatorPairs, isWordChar pair.2 = false := by
  refine ⟨fun c hc => ?_, by simp [operatorChars, isWordChar, isDigit], by simp [parenChars, isWordChar, isDigit], by decide⟩
  simp only [symbolChars, List.mem_cons, List.not_mem_nil, or_false] at hc
  rcases hc with rfl | rfl
  · exact ⟨by decide, by decide, by decide, by decide, fun d hd => by simp [operatorPairs] at hd⟩
  · exact ⟨by decide, by decide, by decide, by decide, fun d hd => by simp [operatorPairs] at hd⟩

/-- keywords are made of letters -/
theorem keyword_letters : ∀ keyword ∈ keywords, ∀ c ∈ keyword.toList, isWordChar c = true ∧ isDigit c = false := by
  simp [keywords, isWordChar, isDigit]

/-- **A token taken is what its kind prescribes where it stands.** -/
theorem lead_stands {c : Char} {rest : List Char} {kind : TokenKind} {length : ℕ} (h : lead c rest = .token kind length)
    {before : List Char} (hbefore : Detached before (c :: rest)) :
    Stands before ((c :: rest).take length) ((c :: rest).drop length) kind := by
  have hword := (lead_token h).1
  have hrule := lead_rule c rest
  rw [h] at hrule
  cases hrule with
  | keyword known starts =>
    simp only [startsWithKeyword, Bool.and_eq_true, Bool.not_eq_true'] at starts
    exact ⟨hword, starts.2⟩
  | number digit =>
    rw [drop_takeWhile]
    exact ⟨hword.2, goesOn_dropWhile isDigit _, hbefore digit⟩
  | mark symbol =>
    obtain ⟨hblank, hchar, hoperator, hparen, hpairs⟩ := special_excluded.1 c symbol
    refine ⟨c, rfl, hblank, hchar, hoperator, hparen, ?_⟩
    cases rest with
    | nil => rfl
    | cons d rest => simpa [startsWithPair] using hpairs d
  | pair starts =>
    cases rest with
    | nil => cases starts
    | cons d rest => exact Or.inl ⟨(c, d), by simpa [startsWithPair] using starts, rfl⟩
  | operator operator single => exact Or.inr ⟨c, operator, rfl, single⟩
  | paren paren => exact hword
  | identifier word digit unknown =>
    refine ⟨hword.2.1, ?_, hword.2.2, ?_⟩
    · rw [take_takeWhile]
      simpa [goesOn, word] using digit
    · rw [drop_takeWhile]
      exact goesOn_dropWhile isWordChar _
  | stray blank word operator paren single => exact ⟨c, rfl, blank, word, operator, paren, single⟩

/-- what is skipped is the beginning of a gap -/
theorem lead_gap {c : Char} {rest : List Char} {length : ℕ} (h : lead c rest = .gap length) :
    0 < length ∧ ∀ gap after, (c :: rest).drop length = gap ++ after → Gap after gap →
      Gap after ((c :: rest).take length ++ gap) := by
  have hrule := lead_rule c rest
  rw [h] at hrule
  cases hrule with
  | blank blank => exact ⟨Nat.one_pos, fun gap after _ hgap => .blank blank hgap⟩
  | comment starts =>
    rw [startsComment_eq, decide_eq_true_eq] at starts
    obtain ⟨rfl, hrest⟩ := starts
    obtain ⟨tail, rfl⟩ := List.head?_eq_some_iff.1 hrest
    have hcomment : ('-' :: '-' :: tail).takeWhile (!isLineBreak ·) = '-' :: '-' :: tail.takeWhile (!isLineBreak ·) := by
      simp [isLineBreak]
    refine ⟨by simp [hcomment], fun gap after hdrop hgap => ?_⟩
    rw [drop_takeWhile] at hdrop
    rw [take_takeWhile, hcomment]
    refine .comment (fun d hd => ?_) (fun d hd => ?_) hgap
    · simpa using List.all_eq_true.1 List.all_takeWhile d hd
    · have hends := goesOn_dropWhile (!isLineBreak ·) ('-' :: '-' :: tail)
      rw [hdrop, goesOn, Option.mem_def.1 hd] at hends
      simpa using hends

/-- no number goes on from a token -/
theorem Stands.detached {before word after : List Char} {kind : TokenKind} (h : Stands before word after kind) :
    Detached (before ++ word) after := by
  -- either the token does not go on, or it ends in a character that is no digit
  have hsingle : ∀ c, isWordChar c = false → goesOn isDigit (before ++ [c]).reverse = false := by
    intro c hc
    apply goesOn_isDigit
    simp [goesOn, hc]
  obtain ⟨-, hoperators, hparens, hpairs⟩ := special_excluded
  intro hafter
  cases kind with
  | keyword =>
    rw [goesOn_isDigit h.2] at hafter
    cases hafter
  | number =>
    rw [h.2.1] at hafter
    cases hafter
  | identifier =>
    rw [goesOn_isDigit h.2.2.2] at hafter
    cases hafter
  | operator =>
    rcases h with ⟨pair, hpair, rfl⟩ | ⟨c, hc, rfl, -⟩
    · have hlast := hsingle pair.2 (hpairs pair hpair)
      simpa [goesOn] using hlast
    · exact hsingle c (hoperators c hc)
  | paren =>
    obtain ⟨c, hc, rfl⟩ := h
    exact hsingle c (hparens c hc)
  | symbol =>
    obtain ⟨c, rfl, -, hc, -⟩ := h
    exact hsingle c hc

/-- no number goes on from what is skipped -/
theorem gap_detached {c : Char} {rest : List Char} {length : ℕ} (h : lead c rest = .gap length) (before : List Char) :
    Detached (before ++ (c :: rest).take length) ((c :: rest).drop length) := by
  have hrule := lead_rule c rest
  rw [h] at hrule
  intro hafter
  cases hrule with
  | blank blank => simpa [goesOn] using (blank_excluded blank).1
  | comment starts =>
    rw [drop_takeWhile] at hafter
    have hends := goesOn_dropWhile (!isLineBreak ·) (c :: rest)
    -- what stands after a comment is a line break, which is no digit
    cases hd : (c :: rest).dropWhile (!isLineBreak ·) with
    | nil =>
      rw [hd] at hafter
      cases hafter
    | cons d tail =>
      rw [hd] at hafter hends
      have hbreak : isLineBreak d = true := by simpa [goesOn] using hends
      have hdigit : isDigit d = true := hafter
      rw [(break_excluded hbreak).2.1] at hdigit
      cases hdigit

/-! ## The whole text -/

theorem scan_drop (skip offset : ℕ) (text : List Char) : scan skip offset text = scan 0 (offset + skip) (text.drop skip) := by
  induction text generalizing skip offset with
  | nil => simp [scan]
  | cons c rest ih =>
    cases skip with
    | zero => rfl
    | succ skip =>
      rw [scan, ih, List.drop_succ_cons, Nat.add_assoc, Nat.add_comm 1 skip]

/-- what is scanned behind what stands at the front -/
theorem scan_behind {length : ℕ} (hlength : 0 < length) (offset : ℕ) (c : Char) (rest : List Char) :
    scan (length - 1) (offset + 1) rest = scan 0 (offset + length) ((c :: rest).drop length) := by
  obtain ⟨skip, rfl⟩ := Nat.exists_eq_add_one.2 hlength
  rw [scan_drop, Nat.add_sub_cancel, List.drop_succ_cons, Nat.add_assoc, Nat.add_comm 1]

/-- a gap before a text that is covered belongs to its first gap -/
theorem Covers.skip {before skipped text : List Char} {tokens : List Token} (h : Covers (before ++ skipped) text tokens)
    (hgap : ∀ gap after, text = gap ++ after → Gap after gap → Gap after (skipped ++ gap)) :
    Covers before (skipped ++ text) tokens := by
  cases h with
  | last only => exact .last (hgap text [] (List.append_nil text).symm only)
  | @token _ gap word after kind tokens first stands more =>
    rw [List.append_assoc before] at stands more
    have hcovers := Covers.token (hgap gap (word ++ after) (List.append_assoc _ _ _) first) stands more
    simpa only [List.append_assoc] using hcovers

/-- **Gaps and tokens cover the text.** -/
theorem scan_covers (before text : List Char) (h : Detached before text) : Covers before text (scan 0 before.length text) := by
  induction hn : text.length using Nat.strong_induction_on generalizing before text with
  | h n ih =>
    cases text with
    | nil => exact .last .nil
    | cons c rest =>
      -- the text behind what stands at its front is shorter
      have hnext : ∀ length, 0 < length → Detached (before ++ (c :: rest).take length) ((c :: rest).drop length) →
          Covers (before ++ (c :: rest).take length) ((c :: rest).drop length)
            (scan 0 (before ++ (c :: rest).take length).length ((c :: rest).drop length)) := by
        intro length hlength hdetached
        refine ih _ ?_ _ _ hdetached rfl
        rw [List.length_drop, ← hn]
        have : 0 < (c :: rest).length := by simp
        omega
      have hscan : ∀ length, 0 < length → length ≤ (c :: rest).length →
          scan (length - 1) (before.length + 1) rest =
            scan 0 (before ++ (c :: rest).take length).length ((c :: rest).drop length) := by
        intro length hlength hle
        rw [scan_behind hlength, List.length_append, List.length_take_of_le hle]
      cases hl : lead c rest with
      | gap length =>
        obtain ⟨hpos, hgap⟩ := lead_gap hl
        rw [scan_gap hl, hscan length hpos (gap_length hl)]
        have hcovers := (hnext length hpos (gap_detached hl before)).skip hgap
        rwa [List.take_append_drop] at hcovers
      | token kind length =>
        obtain ⟨-, hpos, hle⟩ := lead_token hl
        have hstands := lead_stands hl h
        rw [scan_token hl, hscan length hpos hle]
        have hnone : Gap ((c :: rest).take length ++ (c :: rest).drop length) [] := .nil
        have hcovers := Covers.token hnone (by rwa [List.append_nil])
          (by rw [List.append_nil]; exact hnext length hpos hstands.detached)
        rwa [List.nil_append, List.take_append_drop, List.append_nil] at hcovers

/-! ## By positions -/

/-- the characters of a text from one position up to another -/
def between (text : List Char) (start stop : Int) : List Char := (text.take stop.toNat).drop start.toNat

/-- where tokens that start at a position end: after the last one -/
def endOf (start : Int) (tokens : List Token) : Int := (tokens.getLast?.map stop).getD start

/-- where the gap before tokens ends: at the first one, or with the text -/
def startOf (text : List Char) (tokens : List Token) : Int := (tokens.head?.map position).getD text.length

/-- tokens in which nothing of a text is lost -/
structure Lossless (text : List Char) (tokens : List Token) : Prop where
  /-- no token is empty, and all are inside the text -/
  inside : ∀ t ∈ tokens, 0 ≤ t.position ∧ t.position < t.stop ∧ t.stop ≤ text.length
  /-- each token ends before the next begins -/
  apart : tokens.Pairwise fun t t' => t.stop ≤ t'.position
  /-- a token's lexeme stands at its position -/
  lexeme : ∀ t ∈ tokens, between text t.position t.stop = t.lexeme.toList
  /-- before, between and after the tokens stand blanks and comments only -/
  gaps : ∀ earlier later, tokens = earlier ++ later →
    Gap (text.drop (startOf text later).toNat) (between text (endOf 0 earlier) (startOf text later))
  /-- a token is what its kind prescribes where it stands -/
  stands : ∀ t ∈ tokens, Stands (text.take t.position.toNat) t.lexeme.toList (text.drop t.stop.toNat) t.kind
  /-- the keywords are tokens of their own kind -/
  keyword : ∀ t ∈ tokens, t.kind = .keyword ↔ t.lexeme ∈ keywords

namespace Covers

variable {before text : List Char} {tokens : List Token}

/-- where a token stands in a text that is covered -/
theorem token_at (h : Covers before text tokens) {t : Token} (ht : t ∈ tokens) :
    ∃ earlier after, text = earlier ++ t.lexeme.toList ++ after ∧ t.position = (before ++ earlier).length ∧
      Stands (before ++ earlier) t.lexeme.toList after t.kind := by
  induction h with
  | last only => cases ht
  | @token before gap word after kind tokens first stands more ih =>
    rcases List.mem_cons.1 ht with rfl | ht
    · exact ⟨gap, after, by simp, rfl, by simpa using stands⟩
    · obtain ⟨earlier, later, rfl, hposition, hstands⟩ := ih ht
      refine ⟨gap ++ word ++ earlier, later, by simp only [List.append_assoc], ?_, ?_⟩
      · simpa only [List.append_assoc] using hposition
      · simpa only [List.append_assoc] using hstands

/-- the gap between tokens of a text that is covered -/
theorem gap_at (h : Covers before text tokens) {earlier later : List Token} (hsplit : tokens = earlier ++ later) :
    ∃ front gap after, text = front ++ gap ++ after ∧ ((before ++ front).length : Int) = endOf before.length earlier ∧
      ((before ++ front ++ gap).length : Int) = startOf (before ++ text) later ∧ Gap after gap := by
  induction h generalizing earlier with
  | @last before gap only =>
    obtain ⟨rfl, rfl⟩ := List.append_eq_nil_iff.1 hsplit.symm
    exact ⟨[], gap, [], by simp, by simp [endOf], by simp [startOf], only⟩
  | @token before gap word after kind tokens first stands more ih =>
    cases earlier with
    | nil =>
      cases hsplit
      exact ⟨[], gap, word ++ after, by simp, by simp [endOf], by simp [startOf], first⟩
    | cons t earlier =>
      obtain ⟨rfl, hrest⟩ := List.cons.inj hsplit
      obtain ⟨front, later', rest, rfl, hend, hstart, hgap⟩ := ih hrest
      refine ⟨gap ++ word ++ front, later', rest, by simp only [List.append_assoc], ?_, ?_, hgap⟩
      · have hfirst : endOf before.length (⟨kind, String.ofList word, (before ++ gap).length⟩ :: earlier) =
            endOf (before ++ gap ++ word).length earlier := by
          unfold endOf
          rw [List.getLast?_cons]
          cases earlier.getLast? with
          | none => simp [stop, Int.add_assoc]
          | some last => rfl
        rw [hfirst, ← hend]
        simp only [List.append_assoc]
      · simpa only [List.append_assoc] using hstart

end Covers

/-- a kind's words are keywords only if it is theirs -/
theorem Stands.keyword_iff {before word after : List Char} {kind : TokenKind} (h : Stands before word after kind)
    (hword : word ≠ []) : kind = .keyword ↔ String.ofList word ∈ keywords := by
  obtain ⟨-, hoperators, hparens, hpairs⟩ := special_excluded
  have hfirst : ∀ c ∈ word, isWordChar c = false ∨ isDigit c = true → String.ofList word ∉ keywords := by
    intro c hc hother hmem
    obtain ⟨hchar, hdigit⟩ := keyword_letters _ hmem c (by simpa using hc)
    rcases hother with hother | hother
    · rw [hchar] at hother
      cases hother
    · rw [hdigit] at hother
      cases hother
  cases kind with
  | keyword => exact ⟨fun _ => h.1, fun _ => rfl⟩
  | identifier => exact ⟨nofun, fun hmem => absurd hmem h.2.2.1⟩
  | number =>
    obtain ⟨c, hc⟩ := List.exists_mem_of_ne_nil word hword
    exact ⟨nofun, fun hmem => absurd hmem (hfirst c hc (Or.inr (h.1 c hc)))⟩
  | operator =>
    refine ⟨nofun, fun hmem => ?_⟩
    rcases h with ⟨pair, hpair, rfl⟩ | ⟨c, hc, rfl, -⟩
    · exact absurd hmem (hfirst pair.2 (by simp) (Or.inl (hpairs pair hpair)))
    · exact absurd hmem (hfirst c (by simp) (Or.inl (hoperators c hc)))
  | paren =>
    obtain ⟨c, hc, rfl⟩ := h
    exact ⟨nofun, fun hmem => absurd hmem (hfirst c (by simp) (Or.inl (hparens c hc)))⟩
  | symbol =>
    obtain ⟨c, rfl, -, hc, -⟩ := h
    exact ⟨nofun, fun hmem => absurd hmem (hfirst c (by simp) (Or.inl hc))⟩

@[simp] theorem between_append (front middle after : List Char) :
    between (front ++ middle ++ after) front.length (front ++ middle).length = middle := by
  simp only [between, Int.toNat_natCast, List.take_left, List.drop_left]

/-- where a token of a source text stands -/
theorem tokenize_at (source : String) {t : Token} (ht : t ∈ tokenize source) :
    ∃ before after, source.toList = before ++ t.lexeme.toList ++ after ∧ t.position = before.length ∧
      t.stop = (before ++ t.lexeme.toList).length ∧ Stands before t.lexeme.toList after t.kind := by
  have hcovers : Covers [] source.toList (tokenize source) := scan_covers [] source.toList fun _ => rfl
  obtain ⟨before, after, htext, hposition, hstands⟩ := hcovers.token_at ht
  rw [List.nil_append] at hposition hstands
  refine ⟨before, after, htext, hposition, ?_, hstands⟩
  rw [stop, hposition, ← String.length_toList, List.length_append, Int.natCast_add]

/-- **Nothing is lost in lexing.** -/
theorem tokenize_lossless (source : String) : Lossless source.toList (tokenize source) := by
  have hcovers : Covers [] source.toList (tokenize source) := scan_covers [] source.toList fun _ => rfl
  obtain ⟨hpairwise, hspans⟩ := scan_spans 0 0 source.toList
  refine ⟨fun t ht => ?_, hpairwise, fun t ht => ?_, fun earlier later hsplit => ?_, fun t ht => ?_, fun t ht => ?_⟩
  · obtain ⟨before, after, htext, hposition, hstop, -⟩ := tokenize_at source ht
    refine ⟨by omega, (hspans t ht).2, ?_⟩
    have hlength := congrArg List.length htext
    rw [List.length_append] at hlength
    omega
  · obtain ⟨before, after, htext, hposition, hstop, -⟩ := tokenize_at source ht
    rw [htext, hposition, hstop, between_append]
  · obtain ⟨front, gap, after, htext, hend, hstart, hgap⟩ := hcovers.gap_at hsplit
    simp only [List.nil_append, List.length_nil, Int.natCast_zero] at hend hstart
    rw [← hend, ← hstart, htext, between_append, Int.toNat_natCast, List.drop_left]
    exact hgap
  · obtain ⟨before, after, htext, hposition, hstop, hstands⟩ := tokenize_at source ht
    rw [htext, hposition, hstop, Int.toNat_natCast, Int.toNat_natCast, List.drop_left, List.append_assoc, List.take_left]
    exact hstands
  · obtain ⟨before, after, -, hposition, hstop, hstands⟩ := tokenize_at source ht
    have hword : t.lexeme.toList ≠ [] := by
      intro hnil
      have hlt := (hspans t ht).2
      rw [hposition, hstop, hnil, List.append_nil] at hlt
      exact lt_irrefl _ hlt
    rw [hstands.keyword_iff hword, String.ofList_toList]

end LetScript.Token
