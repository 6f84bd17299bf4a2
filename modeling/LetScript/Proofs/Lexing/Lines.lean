/-
Lexing line by line.

No token, keyword check or comment reaches across a line break (`lead_line`). So the tokens of two texts with a line break
between them are the tokens of the first, then those of the second with their positions moved: `scan_lines`.
-/
import LetScript.Proofs.Lexing

namespace LetScript.Token

/-! ## The front of a line -/

/-- a blank is no part of a word -/
theorem blank_excluded {b : Char} (hb : isBlank b = true) :
    isDigit b = false ∧ isWordChar b = false ∧ b ≠ '-' ∧ (∀ c, (c, b) ∉ operatorPairs) ∧
      ∀ keyword ∈ keywords, b ∉ keyword.toList := by
  simp only [isBlank, Bool.or_eq_true, decide_eq_true_eq] at hb
  rcases hb with ((rfl | rfl) | rfl) | rfl
  all_goals
    refine ⟨by decide, by decide, by decide, fun c hc => ?_, by decide⟩
    simp [operatorPairs] at hc

/-- a line break is a blank, and so no part of a word -/
theorem break_excluded {b : Char} (hb : isLineBreak b = true) :
    isBlank b = true ∧ isDigit b = false ∧ isWordChar b = false ∧ b ≠ '-' ∧ (∀ c, (c, b) ∉ operatorPairs) ∧
      ∀ keyword ∈ keywords, b ∉ keyword.toList := by
  have hblank : isBlank b = true := by
    simp only [isLineBreak, Bool.or_eq_true, decide_eq_true_eq] at hb
    rcases hb with rfl | rfl
    all_goals rfl
  exact ⟨hblank, blank_excluded hblank⟩

/-- a run of characters ends before a character that does not belong to it -/
theorem takeWhile_line {p : Char → Bool} {b : Char} (hb : p b = false) (line after : List Char) :
    (line ++ b :: after).takeWhile p = line.takeWhile p := by
  induction line with
  | nil => simp [hb]
  | cons c rest ih => simp only [List.cons_append, List.takeWhile_cons, ih]

/-- a word without a line break stands at the front of a text when it stands at the front of the first line -/
theorem prefix_line {word line after : List Char} {b : Char} (hb : b ∉ word) :
    word <+: line ++ b :: after ↔ word <+: line := by
  constructor
  · intro h
    induction word generalizing line with
    | nil => exact List.nil_prefix
    | cons c rest ih =>
      simp only [List.mem_cons, not_or] at hb
      cases line with
      | nil => exact absurd (List.cons_prefix_cons.1 h).1.symm hb.1
      | cons d line =>
        obtain ⟨rfl, hrest⟩ := List.cons_prefix_cons.1 h
        exact List.cons_prefix_cons.2 ⟨rfl, ih hb.2 hrest⟩
  · exact fun h => h.trans (List.prefix_append line _)

theorem startsWithKeyword_line {b : Char} (hb : isLineBreak b = true) {keyword : String} (hk : keyword ∈ keywords)
    (line after : List Char) : startsWithKeyword (line ++ b :: after) keyword = startsWithKeyword line keyword := by
  obtain ⟨-, -, hword, -, -, hkeywords⟩ := break_excluded hb
  by_cases hp : keyword.toList <+: line
  · obtain ⟨rest, rfl⟩ := hp
    have hdrop : ∀ tail, (keyword.toList ++ tail).drop keyword.length = tail := by
      intro tail
      rw [← String.length_toList, List.drop_left]
    have hstarts : ∀ tail, startsWithKeyword (keyword.toList ++ tail) keyword = !(tail.head?.any isWordChar) := by
      intro tail
      have hprefix : keyword.toList.isPrefixOf (keyword.toList ++ tail) = true :=
        List.isPrefixOf_iff_prefix.2 (List.prefix_append _ _)
      rw [startsWithKeyword, hprefix, hdrop, Bool.true_and]
    rw [List.append_assoc, hstarts, hstarts]
    cases rest with
    | nil => simp [hword]
    | cons c rest => rfl
  · have hnot : ∀ text, ¬ keyword.toList <+: text → startsWithKeyword text keyword = false := by
      intro text ht
      rw [startsWithKeyword, Bool.eq_false_iff.2 fun h => ht (List.isPrefixOf_iff_prefix.1 h), Bool.false_and]
    rw [hnot _ hp, hnot _ fun h => hp ((prefix_line (hkeywords keyword hk)).1 h)]

theorem startsComment_eq (c : Char) (rest : List Char) :
    startsComment (c :: rest) = decide (c = '-' ∧ rest.head? = some '-') := by
  unfold startsComment
  split
  · next heq =>
    simp only [List.cons.injEq] at heq
    obtain ⟨rfl, rfl⟩ := heq
    rfl
  · next hno =>
    refine (decide_eq_false fun ⟨hc, hr⟩ => ?_).symm
    obtain ⟨tail, rfl⟩ := List.head?_eq_some_iff.1 hr
    exact hno tail (by rw [hc])

theorem startsComment_line {b : Char} (hb : isLineBreak b = true) (c : Char) (rest after : List Char) :
    startsComment (c :: (rest ++ b :: after)) = startsComment (c :: rest) := by
  obtain ⟨-, -, -, hdash, -, -⟩ := break_excluded hb
  rw [startsComment_eq, startsComment_eq]
  cases rest with
  | nil => simp [hdash]
  | cons d rest => rfl

theorem startsWithPair_line {b : Char} (hb : isLineBreak b = true) (c : Char) (rest after : List Char) :
    startsWithPair (c :: (rest ++ b :: after)) = startsWithPair (c :: rest) := by
  obtain ⟨-, -, -, -, hpairs, -⟩ := break_excluded hb
  cases rest with
  | nil => simp [startsWithPair, hpairs c]
  | cons d rest => rfl

/-- **What stands at the front is settled by the line.** -/
theorem lead_line {b : Char} (hb : isLineBreak b = true) (c : Char) (rest after : List Char) :
    lead c (rest ++ b :: after) = lead c rest := by
  obtain ⟨-, hdigit, hword, -, -, -⟩ := break_excluded hb
  have hkeyword : keywords.find? (startsWithKeyword (c :: (rest ++ b :: after))) =
      keywords.find? (startsWithKeyword (c :: rest)) :=
    List.find?_congr fun keyword hk => startsWithKeyword_line hb hk (c :: rest) after
  have hrun : ∀ p : Char → Bool, p b = false →
      (c :: (rest ++ b :: after)).takeWhile p = (c :: rest).takeWhile p :=
    fun p hp => takeWhile_line hp (c :: rest) after
  have hcomment : (!isLineBreak b) = false := by rw [hb]; rfl
  simp only [lead, hkeyword, startsComment_line hb, startsWithPair_line hb, hrun _ hdigit, hrun _ hword,
    hrun (fun d => !isLineBreak d) hcomment]

/-- a gap is not longer than the text -/
theorem gap_length {c : Char} {rest : List Char} {length : ℕ} (h : lead c rest = .gap length) :
    length ≤ (c :: rest).length := by
  have hrule := lead_rule c rest
  rw [h] at hrule
  cases hrule with
  | blank => simp
  | comment => exact (List.takeWhile_prefix _).length_le

/-! ## Lines -/

theorem scan_gap {c : Char} {rest : List Char} {length : ℕ} (h : lead c rest = .gap length) (offset : ℕ) :
    scan 0 offset (c :: rest) = scan (length - 1) (offset + 1) rest := by
  simp only [scan, h]

theorem scan_token {c : Char} {rest : List Char} {kind : TokenKind} {length : ℕ} (h : lead c rest = .token kind length)
    (offset : ℕ) : scan 0 offset (c :: rest) =
      ⟨kind, String.ofList ((c :: rest).take length), offset⟩ :: scan (length - 1) (offset + 1) rest := by
  simp only [scan, h]

/-- a token further on -/
def shift (distance : Int) (token : Token) : Token := { token with position := token.position + distance }

/-- positions count from where the text starts -/
theorem scan_shift (skip distance offset : ℕ) (text : List Char) :
    scan skip (offset + distance) text = (scan skip offset text).map (shift distance) := by
  induction text generalizing skip offset with
  | nil => rfl
  | cons c rest ih =>
    have hnext : ∀ skip, scan skip (offset + distance + 1) rest = (scan skip (offset + 1) rest).map (shift distance) := by
      intro skip
      rw [← ih, Nat.add_right_comm]
    cases skip with
    | succ skip => exact hnext skip
    | zero =>
      cases hl : lead c rest with
      | gap length =>
        rw [scan_gap hl, scan_gap hl]
        exact hnext _
      | token kind length =>
        rw [scan_token hl, scan_token hl, List.map_cons, hnext]
        rfl

/-- **The tokens of a text are those of its lines.** -/
theorem scan_lines {b : Char} (hb : isLineBreak b = true) (skip offset : ℕ) (line after : List Char)
    (hskip : skip ≤ line.length) :
    scan skip offset (line ++ b :: after) = scan skip offset line ++ scan 0 (offset + line.length + 1) after := by
  induction line generalizing skip offset with
  | nil =>
    obtain rfl : skip = 0 := Nat.le_zero.1 hskip
    have hgap : lead b after = .gap 1 := by rw [lead, if_pos (break_excluded hb).1]
    exact scan_gap hgap offset
  | cons c rest ih =>
    have hnext : ∀ skip, skip ≤ rest.length → scan skip (offset + 1) (rest ++ b :: after) =
        scan skip (offset + 1) rest ++ scan 0 (offset + (c :: rest).length + 1) after := by
      intro skip hskip
      rw [ih skip (offset + 1) hskip, List.length_cons, Nat.add_right_comm offset 1, Nat.add_assoc offset]
    cases skip with
    | succ skip => exact hnext skip (Nat.le_of_succ_le_succ hskip)
    | zero =>
      rw [List.cons_append]
      have hline := lead_line hb c rest after
      cases hl : lead c rest with
      | gap length =>
        have hlength := gap_length hl
        rw [List.length_cons] at hlength
        rw [scan_gap (hline.trans hl), scan_gap hl]
        exact hnext _ (by omega)
      | token kind length =>
        obtain ⟨-, -, hlength⟩ := lead_token hl
        have htake : (c :: (rest ++ b :: after)).take length = (c :: rest).take length :=
          List.take_append_of_le_length hlength
        rw [List.length_cons] at hlength
        rw [scan_token (hline.trans hl), scan_token hl, htake, hnext _ (by omega)]
        rfl

/-- the tokens of a text after a line break -/
theorem tokenize_lines {c : Char} (hc : isLineBreak c = true) (a b : String) :
    tokenize (a ++ String.singleton c ++ b) = tokenize a ++ (tokenize b).map (shift (a.length + 1 : ℕ)) := by
  have hlist : (a ++ String.singleton c ++ b).toList = a.toList ++ c :: b.toList := by
    simp only [String.toList_append, String.toList_singleton, List.append_assoc, List.singleton_append]
  rw [tokenize, hlist, scan_lines hc 0 0 _ _ (Nat.zero_le _), Nat.add_assoc, scan_shift, String.length_toList]
  rfl

end LetScript.Token
