/-
Lines and columns as coordinates of places.

`locate` walks over a text, leaves carriage returns out and starts a new column at every line feed; the lines that are shown
are cut out of the text without its carriage returns. The two agree (`locate_coordinates`): the line of every place is one of
those shown, its column is one of that line or the one behind it, and the character of the place stands there.

Walking on over a character other than a carriage return moves the place forward in the order of lines and then columns
(`moveOver_lt`), and walking over any text never moves it back (`le_foldl_moveOver`). So places of such characters have
different coordinates, in the order of the text: `locate_lt`.
-/
import LetScript.Proofs.Diagnostic
import Mathlib.Data.Prod.Lex

namespace LetScript.Diagnostic

/-! ## Moving forward -/

theorem moveOver_lt (place : ℕ × ℕ) {c : Char} (hreturn : c ≠ '\r') : toLex place < toLex (moveOver place c) := by
  rw [Prod.Lex.toLex_lt_toLex]
  unfold moveOver
  by_cases hfeed : c = '\n'
  · rw [if_pos hfeed]
    exact Or.inl (Nat.lt_succ_self _)
  · rw [if_neg hfeed, if_neg hreturn]
    exact Or.inr ⟨rfl, Nat.lt_succ_self _⟩

theorem le_moveOver (place : ℕ × ℕ) (c : Char) : toLex place ≤ toLex (moveOver place c) := by
  by_cases hreturn : c = '\r'
  · rw [hreturn]
    exact le_rfl
  · exact (moveOver_lt place hreturn).le

theorem le_foldl_moveOver (text : List Char) (place : ℕ × ℕ) : toLex place ≤ toLex (text.foldl moveOver place) := by
  induction text generalizing place with
  | nil => exact le_rfl
  | cons c rest ih => exact (le_moveOver place c).trans (ih (moveOver place c))

/-- counting lines and columns from one does not change their order -/
theorem toLex_succ_lt {place other : ℕ × ℕ} (h : toLex place < toLex other) :
    toLex (place.1 + 1, place.2 + 1) < toLex (other.1 + 1, other.2 + 1) := by
  rw [Prod.Lex.toLex_lt_toLex] at h ⊢
  exact h.imp Nat.succ_lt_succ fun h => ⟨congrArg Nat.succ h.1, Nat.succ_lt_succ h.2⟩

/-- what stands before a later place is what stands before an earlier one, the character there, and more -/
theorem take_later {text : List Char} {place later : ℕ} {c : Char} (h : place < later) (hc : text[place]? = some c) :
    ∃ between, text.take later = text.take place ++ c :: between := by
  obtain ⟨hlt, hget⟩ := List.getElem?_eq_some_iff.1 hc
  refine ⟨(text.drop (place + 1)).take (later - (place + 1)), ?_⟩
  calc text.take later = text.take (place + (later - place)) := by rw [Nat.add_sub_cancel' h.le]
    _ = text.take place ++ (text.drop place).take (later - place) := List.take_add
    _ = text.take place ++ c :: (text.drop (place + 1)).take (later - (place + 1)) := by
      rw [List.drop_eq_getElem_cons hlt, hget, ← Nat.sub_add_cancel (Nat.sub_pos_of_lt h), List.take_succ_cons, Nat.sub_sub]

/-- **Coordinates are in the order of the text**: behind a character other than a carriage return they are greater. -/
theorem locate_lt {source : String} {place later : ℕ} {c : Char} (h : place < later)
    (hc : source.toList[place]? = some c) (hreturn : c ≠ '\r') :
    toLex (locate source place) < toLex (locate source later) := by
  obtain ⟨between, hbetween⟩ := take_later h hc
  have hscan : ∀ n : ℕ, before source.toList n = source.toList.take n := fun _ => rfl
  simp only [locate, hscan, hbetween, List.foldl_append, List.foldl_cons]
  exact toLex_succ_lt ((moveOver_lt _ hreturn).trans_le (le_foldl_moveOver between _))

/-! ## Coordinates and lines -/

/-- behind the last character all places are that of the end -/
theorem locate_of_length_le {source : String} {place : ℕ} (h : source.length ≤ place) :
    locate source place = locate source source.length := by
  have hall : ∀ n : ℕ, source.length ≤ n → before source.toList n = source.toList := by
    intro n hn
    exact List.take_of_length_le (String.length_toList.trans_le hn)
  simp only [locate, hall place h, hall source.length le_rfl]

/-- **The line and the column of a place are coordinates of it in the lines that are shown.** The line is one of these, and the
column is one of it or the one behind its end. The character of the place stands there, unless it is a line feed, which stands
behind its line, or a carriage return, which is not shown. Beyond the text the coordinates are those of its end. A place that
does not hold a carriage return has smaller coordinates than all later ones. -/
theorem locate_coordinates (source : String) (place : ℕ) :
    ∃ number column shown, locate source place = (number, column) ∧ (shownLines source)[number - 1]? = some shown ∧
      (1 ≤ number ∧ number ≤ (shownLines source).length) ∧ (1 ≤ column ∧ column ≤ shown.length + 1) ∧
      (∀ c, source.toList[place]? = some c → c ≠ '\n' → c ≠ '\r' → shown[column - 1]? = some c) ∧
      (source.toList[place]? = some '\n' → column = shown.length + 1) ∧
      (source.length ≤ place → locate source place = locate source source.length) ∧
      ∀ c (later : ℕ), source.toList[place]? = some c → c ≠ '\r' → place < later →
        toLex (locate source place) < toLex (locate source later) := by
  have hline := shownLines_lineNumber source place
  have hbelow := (List.getElem?_eq_some_iff.1 hline).1
  have hnumber : 1 ≤ lineNumber source.toList place := Nat.succ_pos _
  refine ⟨_, _, _, locate_eq source place, hline, ⟨hnumber, by omega⟩, ⟨Nat.succ_pos _, ?_⟩, ?_, ?_, locate_of_length_le, ?_⟩
  · rw [lineAround, List.filter_append, List.length_append]
    omega
  · exact fun c hc hfeed hreturn => lineAround_character hc hfeed hreturn
  · intro hfeed
    obtain ⟨hlt, hget⟩ := List.getElem?_eq_some_iff.1 hfeed
    -- the line ends before the place
    have hend : (source.toList.drop place).takeWhile (· ≠ '\n') = [] := by
      rw [List.drop_eq_getElem_cons hlt, hget]
      rfl
    rw [lineAround, hend, List.append_nil]
  · exact fun c later hc hreturn hlater => locate_lt hlater hc hreturn

/-- the line feed of a line that ends in a carriage return, and a place in the next line -/
theorem locate_coordinates_feed :
    (shownLines "ab\r\nc")[0]? = some "ab".toList ∧ locate "ab\r\nc" 3 = (1, "ab".toList.length + 1) ∧
      toLex (locate "ab\r\nc" 3) < toLex (locate "ab\r\nc" 4) := by
  have hfeed : "ab\r\nc".toList[3]? = some '\n' := by decide
  have hline : (shownLines "ab\r\nc")[0]? = some "ab".toList := by decide
  obtain ⟨number, column, shown, hplace, hshown, -, -, -, hbehind, -, hlater⟩ := locate_coordinates "ab\r\nc" 3
  have hnumber : number = 1 := (congrArg Prod.fst hplace).symm
  subst hnumber
  rw [Nat.sub_self, hline] at hshown
  cases hshown
  refine ⟨hline, ?_, hlater '\n' 4 hfeed (by decide) (by decide)⟩
  rw [← hbehind hfeed]
  exact hplace

end LetScript.Diagnostic
