/-
Where a rendered diagnostic points.

A place of a text lies in one of its lines (`lineAround`), the one behind as many line feeds as stand before the place
(`lineNumber`). `locate` gives that number, and as the column how many characters of the line stand before the place, without
its carriage returns (`locate_eq`); the lines that are shown hold that line under that number (`shownLines_lineNumber`).

The rendering puts the caret behind as many blanks as there are columns before it and four more, the width of a line number of
three digits and its colon. So the caret stands under the character as long as line numbers have no more than three digits, and
from line 1000 on it stands too far to the left, by as many places as the number has digits beyond three:
`caret_under_character`.
-/
import LetScript.Diagnostic
import Mathlib.Tactic
import Mathlib.Data.List.DropRight

namespace LetScript

/-! ## Pieces -/

namespace Text

theorem split_cons (separator c : Char) (rest : List Char) : split separator (c :: rest) =
    if c = separator then [] :: split separator rest else (split separator rest).modifyHead (c :: ·) := by
  have hne : split separator rest ≠ [] := by
    cases rest with
    | nil => simp [split]
    | cons d rest =>
      rw [split]
      split
      · simp
      · split_ifs <;> simp
  obtain ⟨piece, others, hpieces⟩ := List.exists_cons_of_ne_nil hne
  rw [split, hpieces, List.modifyHead_cons]

theorem split_eq_splitOn (separator : Char) (text : List Char) : split separator text = text.splitOn separator := by
  induction text with
  | nil => rfl
  | cons c rest ih => simp [split_cons, ih, List.splitOn, List.splitOnP_cons_eq_if_modifyHead]

/-- pieces without the separator are what their text with separators between them is cut into -/
theorem split_intercalate {separator : Char} {pieces : List (List Char)} (hne : pieces ≠ [])
    (h : ∀ piece ∈ pieces, separator ∉ piece) : split separator ([separator].intercalate pieces) = pieces := by
  rw [split_eq_splitOn, List.splitOn_intercalate separator h hne]

/-- a text is cut at a separator -/
theorem split_append_cons (separator : Char) (before after : List Char) :
    split separator (before ++ separator :: after) = split separator before ++ split separator after := by
  simp only [split_eq_splitOn]
  exact List.splitOnP_append_cons before after (beq_self_eq_true separator)

theorem length_split (separator : Char) (text : List Char) : (split separator text).length = text.count separator + 1 := by
  induction text with
  | nil => rfl
  | cons c rest ih =>
    rw [split_cons, List.count_cons]
    by_cases hc : c = separator
    · simp [hc, ih]
    · simp [hc, ih]

/-- the first piece of a text goes up to the first separator -/
theorem split_head (separator : Char) (text : List Char) :
    (split separator text).head? = some (text.takeWhile (· ≠ separator)) := by
  induction text with
  | nil => rfl
  | cons c rest ih =>
    rw [split_cons]
    by_cases hc : c = separator
    · simp [hc]
    · rw [if_neg hc, List.head?_modifyHead, ih]
      simp [hc]

/-- no piece holds the separator -/
theorem not_mem_of_mem_split {separator : Char} {text piece : List Char} (h : piece ∈ split separator text) :
    separator ∉ piece := by
  induction text generalizing piece with
  | nil =>
    obtain rfl := List.mem_singleton.1 h
    exact List.not_mem_nil
  | cons c rest ih =>
    rw [split_cons] at h
    split_ifs at h with hc
    · rcases List.mem_cons.1 h with rfl | h
      · exact List.not_mem_nil
      · exact ih h
    · cases hpieces : split separator rest with
      | nil => simp [hpieces] at h
      | cons first others =>
        rw [hpieces] at h ih
        rcases List.mem_cons.1 h with rfl | h
        · simp [ih List.mem_cons_self, Ne.symm hc]
        · exact ih (List.mem_cons_of_mem _ h)

end Text

namespace Diagnostic

/-! ## Lines -/

/-- the line in which a place lies: from behind the line feed before it to the next one -/
def lineAround (text : List Char) (place : ℕ) : List Char :=
  (text.take place).rtakeWhile (· ≠ '\n') ++ (text.drop place).takeWhile (· ≠ '\n')

/-- the number of that line, counted from one -/
def lineNumber (text : List Char) (place : ℕ) : ℕ := (text.take place).count '\n' + 1

/-- what stands before a place is lines, each with its line feed, and the front of the line in which the place lies -/
theorem exists_lines_before (before : List Char) :
    before = before.rtakeWhile (· ≠ '\n') ∨ ∃ above, before = above ++ '\n' :: before.rtakeWhile (· ≠ '\n') := by
  induction before using List.reverseRecOn with
  | nil => exact Or.inl rfl
  | append_singleton before c ih =>
    rw [List.rtakeWhile_concat]
    by_cases hc : c = '\n'
    · subst hc
      exact Or.inr ⟨before, by simp⟩
    · simp only [ne_eq, hc, not_false_eq_true, decide_true, if_true]
      rcases ih with hall | ⟨above, habove⟩
      · exact Or.inl (congrArg (· ++ [c]) hall)
      · exact Or.inr ⟨above, by simpa using congrArg (· ++ [c]) habove⟩

theorem newline_not_mem_rtakeWhile (before : List Char) : '\n' ∉ before.rtakeWhile (· ≠ '\n') := by
  intro h
  have hne := List.mem_rtakeWhile_imp h
  simp at hne

/-- the piece behind as many line feeds as stand before a place is the line in which it lies -/
theorem split_lineAround (before after : List Char) :
    (Text.split '\n' (before ++ after))[before.count '\n']? =
      some (before.rtakeWhile (· ≠ '\n') ++ after.takeWhile (· ≠ '\n')) := by
  have hfront := newline_not_mem_rtakeWhile before
  have hfirst : (Text.split '\n' (before.rtakeWhile (· ≠ '\n') ++ after)).head? =
      some (before.rtakeWhile (· ≠ '\n') ++ after.takeWhile (· ≠ '\n')) := by
    rw [Text.split_head, List.takeWhile_append_of_pos]
    intro c hc
    simpa using fun heq : c = '\n' => hfront (heq ▸ hc)
  rcases exists_lines_before before with hall | ⟨above, habove⟩
  -- with no line feed before it the place lies in the first piece, else behind a piece for each of the line feeds
  · rw [← hall] at hfront hfirst
    rw [List.count_eq_zero.2 hfront, ← hall, ← hfirst, List.head?_eq_getElem?]
  · generalize before.rtakeWhile (· ≠ '\n') = front at *
    subst habove
    rw [List.append_assoc, List.cons_append, Text.split_append_cons]
    have hcount : (above ++ '\n' :: front).count '\n' = (Text.split '\n' above).length := by
      rw [Text.length_split, List.count_append, List.count_cons_self, List.count_eq_zero.2 hfront]
    rw [hcount, List.getElem?_append_right le_rfl, Nat.sub_self, ← List.head?_eq_getElem?, hfirst]

/-- taking characters back to one that is kept, and keeping characters, can be done in either order -/
theorem rtakeWhile_filter {p q : Char → Bool} (h : ∀ c, (!q c || p c) = p c) (text : List Char) :
    (text.filter q).rtakeWhile p = (text.rtakeWhile p).filter q := by
  simp only [List.rtakeWhile, ← List.filter_reverse, List.takeWhile_filter, h]

/-- **The lines that are shown hold the line of a place under its number**, without its carriage returns. -/
theorem shownLines_lineNumber (source : String) (place : ℕ) :
    (shownLines source)[lineNumber source.toList place - 1]? = some ((lineAround source.toList place).filter (· ≠ '\r')) := by
  have hkept : ∀ c : Char, (!decide (c ≠ '\r') || decide (c ≠ '\n')) = decide (c ≠ '\n') := by
    intro c
    by_cases hc : c = '\n'
    · simp [hc]
    · simp [hc]
  have hsource : source.toList.filter (· ≠ '\r') =
      (source.toList.take place).filter (· ≠ '\r') ++ (source.toList.drop place).filter (· ≠ '\r') := by
    rw [← List.filter_append, List.take_append_drop]
  have hcount : ((source.toList.take place).filter (· ≠ '\r')).count '\n' = (source.toList.take place).count '\n' :=
    List.count_filter (by decide)
  have hline := split_lineAround ((source.toList.take place).filter (· ≠ '\r')) ((source.toList.drop place).filter (· ≠ '\r'))
  simp only [hcount, rtakeWhile_filter hkept, List.takeWhile_filter, hkept] at hline
  rw [shownLines, hsource, lineNumber, Nat.add_sub_cancel, hline, lineAround, List.filter_append]

/-! ## Places -/

/-- **A place is located** by the number of its line and by what stands before it there, without carriage returns. -/
theorem locate_eq (source : String) (place : ℕ) :
    locate source place = (lineNumber source.toList place,
      (((source.toList.take place).rtakeWhile (· ≠ '\n')).filter (· ≠ '\r')).length + 1) := by
  have hscan : ∀ before : List Char, before.foldl moveOver (0, 0) =
      (before.count '\n', ((before.rtakeWhile (· ≠ '\n')).filter (· ≠ '\r')).length) := by
    intro before
    induction before using List.reverseRecOn with
    | nil => rfl
    | append_singleton before c ih =>
      rw [List.foldl_append, ih, List.rtakeWhile_concat]
      by_cases hfeed : c = '\n'
      · simp [moveOver, hfeed]
      · by_cases hreturn : c = '\r'
        · simp [moveOver, hreturn]
        · simp [moveOver, hfeed, hreturn]
  simp only [locate, before, hscan]
  rfl

/-! ## Rendering -/

theorem newline_not_mem_repr (n : ℕ) : '\n' ∉ (Nat.repr n).toList := by
  intro h
  rw [Nat.toList_repr] at h
  exact absurd (Nat.isDigit_of_mem_toDigits (by decide) (by decide) h) (by decide)

theorem newline_not_mem_numbered {lines : List (List Char)} (h : ∀ line ∈ lines, '\n' ∉ line) (number : ℕ) :
    '\n' ∉ numbered lines number := by
  cases number with
  | zero => exact List.not_mem_nil
  | succ index =>
    rw [numbered]
    cases hline : lines[index]? with
    | none => exact List.not_mem_nil
    | some line =>
      have hzeros : '\n' ∉ Binary64.padZeros 3 (Nat.repr (index + 1)).toList := by
        rw [Binary64.padZeros, List.mem_append, not_or]
        exact ⟨by simp, newline_not_mem_repr _⟩
      rw [List.mem_append, List.mem_cons, not_or, not_or]
      exact ⟨hzeros, by decide, h line (List.mem_of_getElem? hline)⟩

/-- the message with the place where the diagnostic stands -/
def header (message : String) (line column : ℕ) : List Char :=
  (message ++ ": (line: " ++ Nat.repr line ++ ", column: " ++ Nat.repr column ++ ")").toList

/-- the caret, behind the blanks that bring it under its column -/
def caretLine (column : ℕ) : List Char := List.replicate (4 + (column - 1)) ' ' ++ ['^']

theorem newline_not_mem_header {message : String} (h : '\n' ∉ message.toList) (line column : ℕ) :
    '\n' ∉ header message line column := by
  simp only [header, String.toList_append, List.mem_append, h, newline_not_mem_repr, or_false, false_or]
  decide

/-- **The lines of a rendering** of a message that is one line: the message, the rule, the line before, the line, the caret, and
the line after. -/
theorem split_render {diagnostic : Diagnostic} (hmessage : '\n' ∉ diagnostic.message.toList) {source : String} {line column : ℕ}
    (hplace : locate source diagnostic.position = (line, column)) (paint : String → String) :
    Text.split '\n' (diagnostic.render source false paint).toList =
      [header diagnostic.message line column, rule.toList, numbered (shownLines source) (line - 1),
        numbered (shownLines source) line, caretLine column, numbered (shownLines source) (line + 1)] := by
  have hnumbered := newline_not_mem_numbered fun line (hline : line ∈ shownLines source) => Text.not_mem_of_mem_split hline
  have hrule : '\n' ∉ rule.toList := by decide
  have hcaret : '\n' ∉ caretLine column := by simp [caretLine]
  have hrender : (diagnostic.render source false paint).toList = ['\n'].intercalate
      [header diagnostic.message line column, rule.toList, numbered (shownLines source) (line - 1),
        numbered (shownLines source) line, caretLine column, numbered (shownLines source) (line + 1)] := by
    have hblanks : (String.ofList (List.replicate (4 + (column - 1)) ' ') ++ "^").toList = caretLine column := by
      rw [String.toList_append, String.toList_ofList]
      rfl
    have hfeed : "\n".toList = ['\n'] := rfl
    simp only [render, hplace, painted, Bool.false_eq_true, if_false, String.toList_intercalate, List.map_cons, List.map_nil,
      String.toList_ofList, hblanks, hfeed, header]
  rw [hrender]
  refine Text.split_intercalate (List.cons_ne_nil _ _) ?_
  simp only [List.forall_mem_cons, newline_not_mem_header hmessage, hrule, hnumbered, hcaret, not_false_eq_true, true_and]
  exact nofun

theorem idxOf_caret (column : ℕ) : (caretLine column).idxOf '^' = 4 + (column - 1) := by
  have hblanks : '^' ∉ List.replicate (4 + (column - 1)) ' ' := by simp
  rw [caretLine, List.idxOf_append, if_neg hblanks, List.length_replicate]
  simp

/-- the text of a place in its line, behind the number of the line -/
theorem numbered_lineNumber (source : String) (place : ℕ) :
    numbered (shownLines source) (lineNumber source.toList place) =
      Binary64.padZeros 3 (Nat.repr (lineNumber source.toList place)).toList ++
        ':' :: (lineAround source.toList place).filter (· ≠ '\r') := by
  have hline := shownLines_lineNumber source place
  rw [lineNumber, Nat.add_sub_cancel] at hline
  rw [lineNumber, numbered, hline]

/-- the character of a place stands in its line behind what stands before the place there -/
theorem lineAround_character {text : List Char} {place : ℕ} {c : Char} (hc : text[place]? = some c) (hfeed : c ≠ '\n')
    (hreturn : c ≠ '\r') :
    ((lineAround text place).filter (· ≠ '\r'))[(((text.take place).rtakeWhile (· ≠ '\n')).filter (· ≠ '\r')).length]? =
      some c := by
  obtain ⟨hlt, hget⟩ := List.getElem?_eq_some_iff.1 hc
  rw [lineAround, List.filter_append, List.getElem?_append_right le_rfl, Nat.sub_self, List.drop_eq_getElem_cons hlt, hget,
    List.takeWhile_cons_of_pos (by simpa using hfeed), List.filter_cons_of_pos (by simpa using hreturn)]
  rfl

/-- a line number takes three places and one more for each further digit, its colon one, and then comes the line -/
theorem getElem?_numbered (number : ℕ) (text : List Char) (column : ℕ) :
    (Binary64.padZeros 3 (Nat.repr number).toList ++ ':' :: text)[4 + column + ((Nat.repr number).length - 3)]? = text[column]? := by
  have hlength : (Binary64.padZeros 3 (Nat.repr number).toList).length = 3 + ((Nat.repr number).length - 3) := by
    rw [Binary64.padZeros, List.length_append, List.length_replicate, String.length_toList]
    omega
  have hbehind : 4 + column + ((Nat.repr number).length - 3) - (3 + ((Nat.repr number).length - 3)) = column + 1 := by omega
  rw [List.getElem?_append_right (by rw [hlength]; omega), hlength, hbehind, List.getElem?_cons_succ]

/-- **The caret stands under the character of its place**, in lines whose numbers have at most three digits; from line 1000 on it
stands as many places before it as the number has digits beyond three. The line above the caret is the number of the line in
which the place lies, a colon, and that line without carriage returns. How colour would be painted does not matter. -/
theorem caret_under_character (diagnostic : Diagnostic) (source : String) {place : ℕ} {c : Char}
    (hposition : diagnostic.position = place) (hmessage : '\n' ∉ diagnostic.message.toList)
    (hc : source.toList[place]? = some c) (hfeed : c ≠ '\n') (hreturn : c ≠ '\r') (paint : String → String) :
    ∃ header rule above shown caret below,
      Text.split '\n' (diagnostic.render source false paint).toList = [header, rule, above, shown, caret, below] ∧
      shown = Binary64.padZeros 3 (Nat.repr (lineNumber source.toList place)).toList ++
        ':' :: (lineAround source.toList place).filter (· ≠ '\r') ∧
      shown[caret.idxOf '^' + ((Nat.repr (lineNumber source.toList place)).length - 3)]? = some c ∧
      (lineNumber source.toList place < 1000 → shown[caret.idxOf '^']? = some c) := by
  have hplace := locate_eq source place
  rw [← hposition] at hplace
  have hcharacter := lineAround_character hc hfeed hreturn
  rw [← getElem?_numbered (lineNumber source.toList place), ← numbered_lineNumber] at hcharacter
  refine ⟨_, _, _, _, _, _, split_render hmessage hplace paint, numbered_lineNumber source place, ?_, fun hfew => ?_⟩
  · rwa [idxOf_caret, Nat.add_sub_cancel]
  · have hdigits : (Nat.repr (lineNumber source.toList place)).length ≤ 3 := Nat.repr_length _ 3 (by decide) hfew
    rw [Nat.sub_eq_zero_of_le hdigits, Nat.add_zero] at hcharacter
    rwa [idxOf_caret, Nat.add_sub_cancel]

/-- a line that ends in a carriage return, and a place in the next one -/
theorem caret_under_character_plus :
    ("let a := 1;\r\nlet b := + 2".toList[22]? = some '+' ∧
      lineNumber "let a := 1;\r\nlet b := + 2".toList 22 = 2) ∧
      ∃ shown caret, shown = "002:let b := + 2".toList ∧ shown[caret.idxOf '^']? = some '+' ∧
        (Text.split '\n' ((⟨.badGrammar, "+", 22⟩ : Diagnostic).render "let a := 1;\r\nlet b := + 2" false).toList)[3]? = some shown ∧
        (Text.split '\n' ((⟨.badGrammar, "+", 22⟩ : Diagnostic).render "let a := 1;\r\nlet b := + 2" false).toList)[4]? =
          some caret := by
  have hc : "let a := 1;\r\nlet b := + 2".toList[22]? = some '+' := by decide
  obtain ⟨header, rule, above, shown, caret, below, hlines, hshown, -, hunder⟩ :=
    caret_under_character ⟨.badGrammar, "+", 22⟩ "let a := 1;\r\nlet b := + 2" rfl (by decide) hc (by decide) (by decide) emphasised
  refine ⟨⟨hc, by decide⟩, shown, caret, hshown.trans (by decide), hunder (by decide), ?_, ?_⟩
  · rw [hlines]; rfl
  · rw [hlines]; rfl

/-- one character in line 1000 -/
def thousandthLine : String := String.ofList (List.replicate 999 '\n' ++ ['x'])

/-- **In line 1000 the caret does not stand under the character**: it stands under the colon behind the number. -/
theorem caret_beside_character :
    thousandthLine.toList[999]? = some 'x' ∧
      ∃ shown caret, (Text.split '\n' ((⟨.general, "m", 999⟩ : Diagnostic).render thousandthLine false).toList)[3]? = some shown ∧
        (Text.split '\n' ((⟨.general, "m", 999⟩ : Diagnostic).render thousandthLine false).toList)[4]? = some caret ∧
        shown = "1000:x".toList ∧ caret = "    ^".toList ∧ shown[caret.idxOf '^']? = some ':' := by
  have htext : thousandthLine.toList = List.replicate 999 '\n' ++ ['x'] := String.toList_ofList
  have hlength : (List.replicate 999 '\n').length = 999 := List.length_replicate
  have hbefore : thousandthLine.toList.take 999 = List.replicate 999 '\n' := by
    rw [htext, List.take_left' hlength]
  have hafter : thousandthLine.toList.drop 999 = ['x'] := by
    rw [htext, List.drop_left' hlength]
  have hfront : (List.replicate 999 '\n').rtakeWhile (· ≠ '\n') = [] := by
    rw [List.replicate_succ', List.rtakeWhile_concat]
    rfl
  have hnumber : lineNumber thousandthLine.toList 999 = 1000 := by
    rw [lineNumber, hbefore, List.count_replicate_self]
  have hline : lineAround thousandthLine.toList 999 = ['x'] := by
    rw [lineAround, hbefore, hfront, hafter]
    rfl
  have hplace : locate thousandthLine 999 = (1000, 1) := by
    have hlocate := locate_eq thousandthLine 999
    rw [hnumber, hbefore, hfront] at hlocate
    exact hlocate
  have hshown := numbered_lineNumber thousandthLine 999
  rw [hnumber, hline] at hshown
  have hmessage : '\n' ∉ (Diagnostic.mk .general "m" 999).message.toList := by decide
  have hlines := split_render hmessage hplace emphasised
  refine ⟨by rw [htext, List.getElem?_append_right hlength.le, hlength]; rfl, _, _, ?_, ?_, hshown, rfl, ?_⟩
  · rw [hlines]; rfl
  · rw [hlines]; rfl
  · rw [hshown]; rfl

end Diagnostic

end LetScript
