/-
The same words with other blanks between them.

- `tokenize_line_by_line`: line breaks part a text into lines that are lexed each on its own, whatever the other lines hold.
- `lead_of_stands`: a word that is what its kind prescribes where it stands is the token taken there, unless a comment starts
  with it. Together with `lead_stands` this says which token is taken without the order of the rules.
- So a token is taken again where its word stands before a blank or at the end (`scan_alike`, `scan_again`), and a text can be
  put together from its words anew or be widened before any of them: `tokenize_respaced`.
-/
import LetScript.Proofs.Lexing.Spans

namespace LetScript.Token

/-! ## Lines -/

/-- **A text is lexed line by line.** A line break parts the tokens, none of which reaches across it, and a line between two
breaks has its own tokens where it stands, with the tokens of the other lines left as they are. -/
theorem tokenize_line_by_line {c : Char} (hc : c = '\n' ∨ c = '\r') (a b : String) :
    tokenize (a ++ String.singleton c ++ b) = tokenize a ++ (tokenize b).map (shift (a.length + 1)) ∧
      (∀ t ∈ tokenize (a ++ String.singleton c ++ b), t.stop ≤ a.length ∨ a.length + 1 ≤ t.position) ∧
      ∀ (line : String) (d : Char), d = '\n' ∨ d = '\r' →
        tokenize (a ++ String.singleton c ++ line ++ String.singleton d ++ b) =
          tokenize a ++ (tokenize line).map (shift (a.length + 1)) ++
            (tokenize b).map (shift (a.length + line.length + 2)) := by
  have hbreak : ∀ d : Char, d = '\n' ∨ d = '\r' → isLineBreak d = true := by
    rintro d (rfl | rfl) <;> rfl
  have hlines := tokenize_lines (hbreak c hc) a b
  push_cast at hlines
  refine ⟨hlines, fun t ht => ?_, fun line d hd => ?_⟩
  · rw [hlines] at ht
    rcases List.mem_append.1 ht with ht | ht
    · obtain ⟨before, after, htext, -, hstop, -⟩ := tokenize_at a ht
      have hlength := congrArg List.length htext
      rw [List.length_append, String.length_toList] at hlength
      left
      omega
    · obtain ⟨u, hu, rfl⟩ := List.mem_map.1 ht
      have hposition := ((scan_spans 0 0 b.toList).2 u hu).1
      right
      simp only [shift]
      omega
  · rw [tokenize_lines (hbreak d hd), tokenize_lines (hbreak c hc)]
    simp only [String.length_append, String.length_singleton]
    push_cast
    congr 3
    omega

/-- a comment ends at a carriage return, and the line after it is lexed as it stands alone -/
theorem tokenize_line_by_line_comment :
    tokenize ("if--then" ++ String.singleton '\r' ++ "else1") =
      tokenize "if--then" ++ (tokenize "else1").map (shift ("if--then".length + 1)) :=
  (tokenize_line_by_line (Or.inr rfl) "if--then" "else1").1

/-! ## The token taken, by what stands there -/

/-- a run ends with a word of its characters that does not go on -/
theorem takeWhile_word {p : Char → Bool} {word after : List Char} (hword : ∀ c ∈ word, p c = true)
    (hafter : goesOn p after = false) : (word ++ after).takeWhile p = word := by
  rw [List.takeWhile_append_of_pos hword]
  cases after with
  | nil => simp
  | cons c rest =>
    have hc : p c = false := hafter
    simp [hc]

/-- **A keyword starts a text exactly when it is the run of word characters there.** -/
theorem startsWithKeyword_iff {text : List Char} {keyword : String} (hk : keyword ∈ keywords) :
    startsWithKeyword text keyword = true ↔ text.takeWhile isWordChar = keyword.toList := by
  refine ⟨fun h => ?_, startsWithKeyword_run text keyword⟩
  simp only [startsWithKeyword, Bool.and_eq_true, Bool.not_eq_true', List.isPrefixOf_iff_prefix] at h
  obtain ⟨⟨after, rfl⟩, hafter⟩ := h
  rw [← String.length_toList, List.drop_left] at hafter
  exact takeWhile_word (fun c hc => (keyword_letters keyword hk c hc).1) hafter

/-- no keyword starts a text whose run of word characters is none -/
theorem find_keyword_none {text : List Char} (h : String.ofList (text.takeWhile isWordChar) ∉ keywords) :
    keywords.find? (startsWithKeyword text) = none := by
  rw [List.find?_eq_none]
  intro keyword hk hstarts
  rw [startsWithKeyword_iff hk] at hstarts
  rw [hstarts, String.ofList_toList] at h
  exact h hk

theorem find_keyword_some {text : List Char} (h : String.ofList (text.takeWhile isWordChar) ∈ keywords) :
    keywords.find? (startsWithKeyword text) = some (String.ofList (text.takeWhile isWordChar)) := by
  cases hfind : keywords.find? (startsWithKeyword text) with
  | none =>
    have hnot := List.find?_eq_none.1 hfind _ h
    exact absurd ((startsWithKeyword_iff h).2 String.toList_ofList.symm) hnot
  | some keyword =>
    have hstarts := (startsWithKeyword_iff (List.mem_of_find?_eq_some hfind)).1 (List.find?_some hfind)
    rw [hstarts, String.ofList_toList]

/-- which marks are blank, and which are of more than one class -/
theorem marks_apart :
    (∀ c ∈ operatorChars, isBlank c = false ∧ c ∉ symbolChars) ∧
      (∀ c ∈ parenChars, isBlank c = false ∧ c ∉ symbolChars ∧ c ∉ operatorChars ∧ ∀ pair ∈ operatorPairs, pair.1 ≠ c) ∧
        ∀ pair ∈ operatorPairs, isBlank pair.1 = false ∧ isWordChar pair.1 = false ∧ pair.1 ∉ symbolChars := by
  refine ⟨?_, ?_, ?_⟩
  · simp [operatorChars, symbolChars, isBlank]
  · simp [parenChars, symbolChars, operatorChars, operatorPairs, isBlank]
  · simp [operatorPairs, symbolChars, isBlank, isWordChar, isDigit]

/-- a word character is neither blank nor of a class of its own -/
theorem word_excluded {c : Char} (h : isWordChar c = true) :
    isBlank c = false ∧ c ∉ symbolChars ∧ c ∉ operatorChars ∧ c ∉ parenChars ∧ ∀ d, (c, d) ∉ operatorPairs := by
  obtain ⟨hsymbols, hoperators, hparens, -⟩ := special_excluded
  refine ⟨?_, fun hc => ?_, fun hc => ?_, fun hc => ?_, fun d hc => ?_⟩
  · by_contra hblank
    rw [(blank_excluded (by simpa using hblank)).2.1] at h
    cases h
  · simp [(hsymbols c hc).2.1] at h
  · simp [hoperators c hc] at h
  · simp [hparens c hc] at h
  · simp [(marks_apart.2.2 _ hc).2.1] at h

theorem startsWithPair_eq (c : Char) (rest : List Char) :
    startsWithPair (c :: rest) = goesOn (fun d => operatorPairs.contains (c, d)) rest := by
  cases rest <;> rfl

/-- a comment that starts is taken -/
theorem lead_comment {c : Char} {rest : List Char} (h : startsComment (c :: rest) = true) :
    lead c rest = .gap ((c :: rest).takeWhile (!isLineBreak ·)).length := by
  have hc := h
  rw [startsComment_eq, decide_eq_true_eq] at hc
  obtain ⟨rfl, -⟩ := hc
  have hrun : ('-' :: rest).takeWhile isWordChar = [] := rfl
  have hkeyword : keywords.find? (startsWithKeyword ('-' :: rest)) = none :=
    find_keyword_none (by rw [hrun]; decide)
  have hblank : isBlank '-' = false := by decide
  have hdigit : isDigit '-' = false := by decide
  simp only [lead, hblank, hkeyword, hdigit, h, Bool.false_eq_true, if_false, if_true]

/-- what is taken at a character that starts no word and no number -/
theorem lead_mark {c : Char} {rest : List Char} (hblank : isBlank c = false) (hword : isWordChar c = false)
    (hcomment : startsComment (c :: rest) = false) : lead c rest =
      if c ∈ symbolChars then .token .symbol 1 else if startsWithPair (c :: rest) then .token .operator 2
      else if c ∈ operatorChars then .token .operator 1 else if c ∈ parenChars then .token .paren 1
      else .token .symbol 1 := by
  have hkeyword : keywords.find? (startsWithKeyword (c :: rest)) = none := by
    apply find_keyword_none
    simp [hword, keywords]
  have hdigit : isDigit c = false := by
    by_contra hdigit
    rw [isWordChar_of_isDigit (by simpa using hdigit)] at hword
    cases hword
  simp only [lead, hblank, hkeyword, hdigit, hcomment, hword, List.contains_iff_mem, Bool.false_eq_true, if_false]

/-- **What a kind prescribes is what is taken**: a word that stands as its kind prescribes is the token at the front, unless
a comment starts there. -/
theorem lead_of_stands {before tail after : List Char} {c : Char} {kind : TokenKind}
    (h : Stands before (c :: tail) after kind) (hcomment : startsComment (c :: (tail ++ after)) = false) :
    lead c (tail ++ after) = .token kind (c :: tail).length := by
  obtain ⟨-, hoperators, hparens, -⟩ := special_excluded
  cases kind with
  | keyword =>
    obtain ⟨hmem, hafter⟩ := h
    have hchars : ∀ d ∈ c :: tail, isWordChar d = true := fun d hd =>
      (keyword_letters _ hmem d (by simpa using hd)).1
    have hrun : (c :: (tail ++ after)).takeWhile isWordChar = c :: tail := takeWhile_word hchars hafter
    have hfind : keywords.find? (startsWithKeyword (c :: (tail ++ after))) = some (String.ofList (c :: tail)) := by
      rw [← hrun] at hmem ⊢
      exact find_keyword_some hmem
    have hblank := (word_excluded (hchars c List.mem_cons_self)).1
    simp only [lead, hblank, hfind, String.length_ofList, Bool.false_eq_true, if_false]
  | number =>
    obtain ⟨hdigits, hafter, -⟩ := h
    have hdigit : isDigit c = true := hdigits c List.mem_cons_self
    have hrun : (c :: (tail ++ after)).takeWhile isDigit = c :: tail := takeWhile_word hdigits hafter
    have hfind : keywords.find? (startsWithKeyword (c :: (tail ++ after))) = none := by
      refine find_keyword_none fun hmem => ?_
      have hletter := (keyword_letters _ hmem c (by simp [isWordChar_of_isDigit hdigit])).2
      rw [hdigit] at hletter
      cases hletter
    have hblank := (word_excluded (isWordChar_of_isDigit hdigit)).1
    simp only [lead, hblank, hfind, hdigit, hrun, Bool.false_eq_true, if_false, if_true]
  | identifier =>
    obtain ⟨hchars, hdigit, hmem, hafter⟩ := h
    have hdigit : isDigit c = false := hdigit
    have hrun : (c :: (tail ++ after)).takeWhile isWordChar = c :: tail := takeWhile_word hchars hafter
    have hfind : keywords.find? (startsWithKeyword (c :: (tail ++ after))) = none :=
      find_keyword_none (by rwa [hrun])
    have hword : isWordChar c = true := hchars c List.mem_cons_self
    obtain ⟨hblank, hsymbol, hoperator, hparen, hpair⟩ := word_excluded hword
    have hsingle : startsWithPair (c :: (tail ++ after)) = false := by
      cases htail : tail ++ after with
      | nil => rfl
      | cons d rest => simpa [startsWithPair] using hpair d
    simp only [lead, hblank, hfind, hdigit, hcomment, hsymbol, hsingle, hoperator, hparen, hword, hrun,
      List.contains_iff_mem, Bool.false_eq_true, if_false, if_true]
  | operator =>
    rcases h with ⟨pair, hpair, hword⟩ | ⟨d, hd, hword, hsingle⟩
    · obtain ⟨rfl, rfl⟩ := List.cons.inj hword
      obtain ⟨hblank, hchar, hsymbol⟩ := marks_apart.2.2 pair hpair
      have hstarts : startsWithPair (pair.1 :: ([pair.2] ++ after)) = true := by simpa [startsWithPair] using hpair
      rw [lead_mark hblank hchar hcomment, if_neg hsymbol, if_pos hstarts]
      rfl
    · obtain ⟨rfl, rfl⟩ := List.cons.inj hword
      obtain ⟨hblank, hsymbol⟩ := marks_apart.1 c hd
      rw [lead_mark hblank (hoperators c hd) hcomment, if_neg hsymbol, List.nil_append, hsingle, if_neg Bool.false_ne_true,
        if_pos hd]
      rfl
  | paren =>
    obtain ⟨d, hd, hword⟩ := h
    obtain ⟨rfl, rfl⟩ := List.cons.inj hword
    obtain ⟨hblank, hsymbol, hoperator, hpair⟩ := marks_apart.2.1 c hd
    have hsingle : startsWithPair (c :: ([] ++ after)) = false := by
      rw [startsWithPair_eq]
      cases after with
      | nil => rfl
      | cons d rest => simpa [goesOn] using fun hmem => hpair (c, d) hmem rfl
    rw [lead_mark hblank (hparens c hd) hcomment, if_neg hsymbol, hsingle, if_neg Bool.false_ne_true, if_neg hoperator,
      if_pos hd]
    rfl
  | symbol =>
    obtain ⟨d, hword, hblank, hchar, hoperator, hparen, hsingle⟩ := h
    obtain ⟨rfl, rfl⟩ := List.cons.inj hword
    rw [lead_mark hblank hchar hcomment, List.nil_append, hsingle, if_neg Bool.false_ne_true, if_neg hoperator,
      if_neg hparen, ite_self]
    rfl

/-! ## A word in another place -/

/-- what stands behind a word goes on as it did before, or with a blank, or not at all -/
def EndsAlike (after after' : List Char) : Prop := after'.head? = after.head? ∨ ∀ d ∈ after'.head?, isBlank d = true

theorem goesOn_alike {p : Char → Bool} (hp : ∀ d, isBlank d = true → p d = false) {after after' : List Char}
    (h : EndsAlike after after') (hafter : goesOn p after = false) : goesOn p after' = false := by
  unfold goesOn at hafter ⊢
  rcases h with h | h
  · rwa [h]
  · cases hd : after'.head? with
    | none => rfl
    | some d => exact hp d (h d hd)

theorem startsWithPair_alike {c : Char} {after after' : List Char} (h : EndsAlike after after')
    (hafter : startsWithPair (c :: after) = false) : startsWithPair (c :: after') = false := by
  rw [startsWithPair_eq] at hafter ⊢
  refine goesOn_alike (fun d hd => ?_) h hafter
  simpa using (blank_excluded hd).2.2.2.1 c

theorem startsComment_alike {c : Char} {tail after after' : List Char} (h : EndsAlike after after')
    (hafter : startsComment (c :: (tail ++ after)) = false) : startsComment (c :: (tail ++ after')) = false := by
  rw [startsComment_eq, decide_eq_false_iff_not] at hafter ⊢
  rintro ⟨rfl, hhead⟩
  cases tail with
  | cons d tail => exact hafter ⟨rfl, hhead⟩
  | nil =>
    rcases h with h | h
    · exact hafter ⟨rfl, h.symm.trans hhead⟩
    · exact (blank_excluded (h '-' hhead)).2.2.1 rfl

/-- a word that stands in one place stands wherever what is behind it is alike -/
theorem Stands.alike {word after after' : List Char} {kind : TokenKind} (hstands : Stands [] word after kind)
    (h : EndsAlike after after') : Stands [] word after' kind := by
  have hwords : ∀ d, isBlank d = true → isWordChar d = false := fun d hd => (blank_excluded hd).2.1
  cases kind with
  | keyword => exact ⟨hstands.1, goesOn_alike hwords h hstands.2⟩
  | number => exact ⟨hstands.1, goesOn_alike (fun d hd => (blank_excluded hd).1) h hstands.2.1, rfl⟩
  | identifier => exact ⟨hstands.1, hstands.2.1, hstands.2.2.1, goesOn_alike hwords h hstands.2.2.2⟩
  | operator =>
    rcases hstands with hpair | ⟨c, hc, hword, hsingle⟩
    · exact Or.inl hpair
    · exact Or.inr ⟨c, hc, hword, startsWithPair_alike h hsingle⟩
  | paren => exact hstands
  | symbol =>
    obtain ⟨c, hword, hblank, hchar, hoperator, hparen, hsingle⟩ := hstands
    exact ⟨c, hword, hblank, hchar, hoperator, hparen, startsWithPair_alike h hsingle⟩

/-- **A token is taken again wherever what is behind its word is alike.** -/
theorem scan_alike {c : Char} {rest : List Char} {kind : TokenKind} {length : ℕ} (hl : lead c rest = .token kind length)
    (offset : ℕ) {after : List Char} (h : EndsAlike ((c :: rest).drop length) after) :
    scan 0 offset ((c :: rest).take length ++ after) =
      ⟨kind, String.ofList ((c :: rest).take length), offset⟩ :: scan 0 (offset + length) after := by
  obtain ⟨-, hpos, hle⟩ := lead_token hl
  obtain ⟨length, rfl⟩ := Nat.exists_eq_add_one.2 hpos
  have hdetached : Detached [] (c :: rest) := fun _ => rfl
  have hstands := lead_stands hl hdetached
  have hcomment : startsComment (c :: rest) = false := by
    by_contra hstarts
    rw [lead_comment (by simpa using hstarts)] at hl
    cases hl
  rw [List.take_succ_cons] at hstands ⊢
  rw [List.drop_succ_cons] at hstands h
  rw [← List.take_append_drop length rest] at hcomment
  rw [List.length_cons] at hle
  have hlength : (rest.take length).length = length := List.length_take_of_le (by omega)
  have hagain := lead_of_stands (hstands.alike h) (startsComment_alike h hcomment)
  rw [List.length_cons, hlength] at hagain
  rw [List.cons_append, scan_token hagain, scan_drop]
  have htake : (c :: (rest.take length ++ after)).take (length + 1) = c :: rest.take length := by
    rw [List.take_succ_cons, List.take_left' hlength]
  rw [htake, Nat.add_sub_cancel, List.drop_left' hlength, Nat.add_assoc, Nat.add_comm 1]

/-- a token where its word stands before a blank or at the end -/
def again (offset : ℕ) (token : Token) : Token := { token with position := offset }

/-- **Every token of a text is taken again before a blank or the end.** -/
theorem scan_again {skip start : ℕ} {text : List Char} {t : Token} (ht : t ∈ scan skip start text) (offset : ℕ)
    {after : List Char} (h : ∀ d ∈ after.head?, isBlank d = true) :
    scan 0 offset (t.lexeme.toList ++ after) = t.again offset :: scan 0 (offset + t.lexeme.length) after := by
  induction text generalizing skip start with
  | nil => cases ht
  | cons c rest ih =>
    cases skip with
    | succ skip => exact ih ht
    | zero =>
      cases hl : lead c rest with
      | gap length =>
        rw [scan_gap hl] at ht
        exact ih ht
      | token kind length =>
        rw [scan_token hl] at ht
        rcases List.mem_cons.1 ht with rfl | ht
        · obtain ⟨-, -, hle⟩ := lead_token hl
          rw [String.toList_ofList, String.length_ofList, scan_alike hl offset (Or.inr h), List.length_take_of_le hle]
          rfl
        · exact ih ht

/-! ## Words with one blank between them -/

/-- the words of tokens with one space between them -/
def spaced (tokens : List Token) : String := " ".intercalate (tokens.map lexeme)

/-- where each of the words stands: behind the words before it and a space for each of them -/
def inPlace (offset : ℕ) (tokens : List Token) : List Token :=
  tokens.mapIdx fun k t => t.again (offset + ((tokens.take k).map (·.lexeme.length)).sum + k)

theorem inPlace_cons (offset : ℕ) (t : Token) (tokens : List Token) :
    inPlace offset (t :: tokens) = t.again offset :: inPlace (offset + t.lexeme.length + 1) tokens := by
  simp only [inPlace, List.mapIdx_cons, List.take_zero, List.map_nil, List.sum_nil, List.take_succ_cons, List.map_cons,
    List.sum_cons, Nat.add_zero, List.cons.injEq, true_and]
  congr 1
  funext k u
  congr 1
  omega

/-- **Words with one space between them are lexed one by one.** -/
theorem scan_spaced {tokens : List Token}
    (h : ∀ t ∈ tokens, ∃ skip start text, t ∈ scan skip start text) (offset : ℕ) :
    scan 0 offset (spaced tokens).toList = inPlace offset tokens := by
  induction tokens generalizing offset with
  | nil => rfl
  | cons t tokens ih =>
    obtain ⟨skip, start, text, ht⟩ := h t List.mem_cons_self
    have hrest := ih fun u hu => h u (List.mem_cons_of_mem t hu)
    rw [inPlace_cons]
    cases tokens with
    | nil =>
      have hword : (spaced [t]).toList = t.lexeme.toList ++ [] := by simp [spaced]
      rw [hword, scan_again ht offset (by simp)]
      rfl
    | cons u tokens =>
      have hwords : (spaced (t :: u :: tokens)).toList = t.lexeme.toList ++ ' ' :: (spaced (u :: tokens)).toList := by
        simp [spaced, String.toList_intercalate]
      have hblank : lead ' ' (spaced (u :: tokens)).toList = .gap 1 := rfl
      rw [hwords, scan_again ht offset (by simp [isBlank]), scan_gap hblank, hrest]

/-! ## More blanks before a word -/

/-- a text with another put in at a position -/
def insertAt (text : String) (position : Int) (extra : String) : String :=
  String.ofList (text.toList.take position.toNat ++ (extra.toList ++ text.toList.drop position.toNat))

/-- a token that is moved if it stands at a place or later -/
def shiftFrom (place : Int) (distance : ℕ) (token : Token) : Token :=
  if token.position < place then token else token.shift distance

theorem scan_blanks {blanks : List Char} (h : ∀ c ∈ blanks, isBlank c = true) (offset : ℕ) (text : List Char) :
    scan 0 offset (blanks ++ text) = scan 0 (offset + blanks.length) text := by
  induction blanks generalizing offset with
  | nil => rfl
  | cons c blanks ih =>
    have hgap : lead c (blanks ++ text) = .gap 1 := by rw [lead, if_pos (h c List.mem_cons_self)]
    rw [List.cons_append, scan_gap hgap, ih fun d hd => h d (List.mem_cons_of_mem c hd), List.length_cons, Nat.add_assoc,
      Nat.add_comm 1]

/-- a gap that ends before a token is a gap with more blanks before the token -/
theorem gap_widened {c : Char} {rest back : List Char} {length offset : ℕ} {t : Token}
    (hl : lead c (rest ++ back) = .gap length) (ht : t ∈ scan 0 (offset + length) ((c :: (rest ++ back)).drop length))
    (hposition : t.position = offset + (c :: rest).length) (more : List Char) :
    lead c (rest ++ (more ++ back)) = .gap length := by
  have hpos := (lead_gap hl).1
  have hrule := lead_rule c (rest ++ back)
  rw [hl] at hrule
  cases hrule with
  | blank blank => rw [lead, if_pos blank]
  | comment starts =>
    -- the comment ends at a line break, which stands before the token
    have hsplit := List.takeWhile_append_dropWhile (p := (!isLineBreak ·)) (l := c :: (rest ++ back))
    have hends := goesOn_dropWhile (!isLineBreak ·) (c :: (rest ++ back))
    rw [drop_takeWhile] at ht
    generalize (c :: (rest ++ back)).takeWhile (!isLineBreak ·) = comment at *
    cases hd : (c :: (rest ++ back)).dropWhile (!isLineBreak ·) with
    | nil =>
      rw [hd] at ht
      cases ht
    | cons b tail =>
      rw [hd] at ht hends hsplit
      have hbreak : isLineBreak b = true := by simpa [goesOn] using hends
      have hgap : lead b tail = .gap 1 := by rw [lead, if_pos (break_excluded hbreak).1]
      rw [scan_gap hgap] at ht
      have hbound := ((scan_spans _ _ _).2 t ht).1
      have hcomment : comment ++ [b] <+: c :: (rest ++ back) := ⟨tail, by simpa using hsplit⟩
      have hinside : comment ++ [b] <+: c :: rest := by
        refine List.prefix_of_prefix_length_le hcomment ⟨back, rfl⟩ ?_
        rw [hposition] at hbound
        rw [List.length_append, List.length_singleton]
        push_cast at hbound
        omega
      obtain ⟨between, hrest⟩ := hinside
      obtain ⟨d, comment, rfl⟩ := List.exists_cons_of_length_pos hpos
      simp only [List.cons_append, List.append_assoc, List.nil_append, List.cons.injEq] at hrest
      obtain ⟨rfl, rfl⟩ := hrest
      rw [← hl, List.append_assoc, List.append_assoc, List.cons_append, List.cons_append, lead_line hbreak, lead_line hbreak]

/-- what stands behind a word is alike with more blanks further on -/
theorem endsAlike_widened {blanks : List Char} (h : ∀ c ∈ blanks, isBlank c = true) (front back : List Char) :
    EndsAlike (front ++ back) (front ++ (blanks ++ back)) := by
  cases front with
  | cons c front => exact Or.inl rfl
  | nil =>
    cases blanks with
    | nil => exact Or.inl rfl
    | cons b blanks =>
      refine Or.inr fun d hd => h d ?_
      simp_all

/-- **More blanks before a token move it and the later ones**, and leave the earlier ones where they are. -/
theorem scan_widened {blanks : List Char} (h : ∀ c ∈ blanks, isBlank c = true) (offset : ℕ) (front back : List Char)
    {t : Token} (ht : t ∈ scan 0 offset (front ++ back)) (hposition : t.position = offset + front.length) :
    scan 0 offset (front ++ (blanks ++ back)) =
      (scan 0 offset (front ++ back)).map (shiftFrom (offset + front.length) blanks.length) := by
  induction hn : front.length using Nat.strong_induction_on generalizing front offset with
  | h n ih =>
    cases front with
    | nil =>
      rw [List.nil_append, List.nil_append, scan_blanks h, scan_shift]
      refine List.map_congr_left fun u hu => ?_
      have hbound := ((scan_spans 0 offset back).2 u hu).1
      rw [shiftFrom, if_neg (by simp at hn; omega)]
    | cons c rest =>
      -- what stands at the front ends before the token
      have hinside : ∀ length, t ∈ scan 0 (offset + length) ((c :: (rest ++ back)).drop length) → length ≤ n := by
        intro length hmem
        have hbound := ((scan_spans _ _ _).2 t hmem).1
        rw [hposition, hn] at hbound
        push_cast at hbound
        omega
      have hdrop : ∀ length more, length ≤ n → (c :: (rest ++ more)).drop length = (c :: rest).drop length ++ more := by
        intro length more hle
        exact List.drop_append_of_le_length (hn ▸ hle)
      -- and the text behind it is shorter
      have hnext : ∀ length, 0 < length → t ∈ scan 0 (offset + length) ((c :: (rest ++ back)).drop length) →
          scan 0 (offset + length) ((c :: rest).drop length ++ (blanks ++ back)) =
            (scan 0 (offset + length) ((c :: rest).drop length ++ back)).map (shiftFrom (offset + n) blanks.length) := by
        intro length hpos hmem
        have hle := hinside length hmem
        rw [hdrop length back hle] at hmem
        have hlength : ((c :: rest).drop length).length = n - length := by rw [List.length_drop, hn]
        have hplace : ((offset + length : ℕ) : Int) + (n - length : ℕ) = offset + n := by omega
        rw [ih (n - length) (by simp at hn; omega) (offset + length) _ hmem (by rw [hposition, hn, hlength, hplace]) hlength,
          hplace]
      cases hl : lead c (rest ++ back) with
      | gap length =>
        have hpos := (lead_gap hl).1
        rw [List.cons_append, scan_gap hl, scan_behind hpos _ c] at ht
        have hle := hinside length ht
        rw [List.cons_append, List.cons_append, scan_gap hl, scan_gap (gap_widened hl ht hposition blanks),
          scan_behind hpos _ c, scan_behind hpos _ c, hdrop _ _ hle, hdrop _ _ hle]
        exact hnext length hpos ht
      | token kind length =>
        obtain ⟨-, hpos, -⟩ := lead_token hl
        rw [List.cons_append, scan_token hl, scan_behind hpos _ c] at ht
        rcases List.mem_cons.1 ht with rfl | ht
        · simp only [List.length_cons] at hposition
          omega
        · have hle := hinside length ht
          have htake : (c :: (rest ++ back)).take length = (c :: rest).take length :=
            List.take_append_of_le_length (hn ▸ hle)
          have halike : EndsAlike ((c :: (rest ++ back)).drop length) ((c :: rest).drop length ++ (blanks ++ back)) := by
            rw [hdrop _ _ hle]
            exact endsAlike_widened h _ back
          have hagain := scan_alike hl offset halike
          rw [htake, ← List.append_assoc, List.take_append_drop] at hagain
          rw [hagain, hnext length hpos ht, List.cons_append, scan_token hl, scan_behind hpos _ c, hdrop _ _ hle, htake,
            List.map_cons]
          have hfirst : (offset : Int) < offset + n := by simp at hn; omega
          simp only [shiftFrom, hfirst, if_true]

/-- blanks put in before a token -/
theorem tokenize_insertAt {source blanks : String} (h : ∀ c ∈ blanks.toList, isBlank c = true) {t : Token}
    (ht : t ∈ tokenize source) :
    tokenize (insertAt source t.position blanks) = (tokenize source).map (shiftFrom t.position blanks.length) := by
  obtain ⟨before, after, htext, hposition, -⟩ := tokenize_at source ht
  have hscan : tokenize source = scan 0 0 (before ++ (t.lexeme.toList ++ after)) := by
    rw [tokenize, htext, List.append_assoc]
  have hwidened := scan_widened h 0 before (t.lexeme.toList ++ after) (hscan ▸ ht) (by simpa using hposition)
  rw [hscan, tokenize, insertAt, String.toList_ofList, htext, hposition, Int.toNat_natCast, List.append_assoc,
    List.take_left, List.drop_left, hwidened, String.length_toList, Int.natCast_zero, Int.zero_add]

/-- tokens stand in order, so those that stand at a token or later are that token and the later ones -/
theorem map_shiftFrom {source : String} {earlier later : List Token} {t : Token}
    (h : tokenize source = earlier ++ t :: later) (distance : ℕ) :
    (tokenize source).map (shiftFrom t.position distance) = earlier ++ (t :: later).map (shift distance) := by
  obtain ⟨hordered, hspans⟩ := scan_spans 0 0 source.toList
  rw [← tokenize, h] at hordered hspans
  obtain ⟨-, hlater, hearlier⟩ := List.pairwise_append.1 hordered
  have hbefore : ∀ u ∈ earlier, shiftFrom t.position distance u = u := by
    intro u hu
    have hstop := hearlier u hu t List.mem_cons_self
    have hword := (hspans u (List.mem_append_left _ hu)).2
    rw [shiftFrom, if_pos (by omega)]
  have hbehind : ∀ u ∈ t :: later, shiftFrom t.position distance u = u.shift distance := by
    intro u hu
    have hplace : t.position ≤ u.position := by
      rcases List.mem_cons.1 hu with rfl | hu
      · exact le_refl _
      · have hstop := (List.pairwise_cons.1 hlater).1 u hu
        have hword := (hspans t (by simp)).2
        omega
    rw [shiftFrom, if_neg (by omega)]
  rw [h, List.map_append, List.map_congr_left hbefore, List.map_congr_left hbehind, List.map_id']

/-! ## Other blanks -/

/-- **The blanks between the words are free.** The words of a text with one space between them are lexed to the same tokens,
the `k`-th behind the `k` words and spaces before it; and blanks put in before a token move it and the later ones and change
nothing else. -/
theorem tokenize_respaced (source : String) :
    tokenize (spaced (tokenize source)) =
        (tokenize source).mapIdx (fun k t =>
          { t with position := (((tokenize source).take k).map (·.lexeme.length)).sum + k }) ∧
      ∀ (earlier later : List Token) (t : Token) (blanks : String), tokenize source = earlier ++ t :: later →
        (∀ c ∈ blanks.toList, isBlank c = true) →
          tokenize (insertAt source t.position blanks) = earlier ++ (t :: later).map (shift blanks.length) := by
  refine ⟨?_, fun earlier later t blanks hsplit hblanks => ?_⟩
  · have hspaced : scan 0 0 (spaced (tokenize source)).toList = inPlace 0 (tokenize source) :=
      scan_spaced (fun t ht => ⟨0, 0, source.toList, ht⟩) 0
    simpa [tokenize, inPlace, again] using hspaced
  · have ht : t ∈ tokenize source := by simp [hsplit]
    rw [tokenize_insertAt hblanks ht, map_shiftFrom hsplit]

/-- words that were glued together behind a comment, with blanks put in before the keyword -/
theorem tokenize_respaced_glued :
    tokenize (insertAt "12ab-->\n1if(-x:" 9 "\t ") =
      [⟨.number, "12", 0⟩, ⟨.identifier, "ab", 2⟩, ⟨.number, "1", 8⟩] ++
        ([⟨.keyword, "if", 9⟩, ⟨.paren, "(", 11⟩, ⟨.operator, "-", 12⟩, ⟨.identifier, "x", 13⟩, ⟨.symbol, ":", 14⟩] :
          List Token).map (shift "\t ".length) :=
  (tokenize_respaced "12ab-->\n1if(-x:").2 [⟨.number, "12", 0⟩, ⟨.identifier, "ab", 2⟩, ⟨.number, "1", 8⟩]
    [⟨.paren, "(", 11⟩, ⟨.operator, "-", 12⟩, ⟨.identifier, "x", 13⟩, ⟨.symbol, ":", 14⟩] ⟨.keyword, "if", 9⟩ "\t "
    (by decide) (by simp [isBlank])

end LetScript.Token
