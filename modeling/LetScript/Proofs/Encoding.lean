/-
Texts that a trace file takes.

A text has an encoding when none of its characters stands in for half of a surrogate pair, so in particular when all are ASCII
(`isEncodable_of_ascii`): numbers of both sorts have one, and identifiers. What is put together from texts that have an
encoding has one (`isEncodable_append`, `isEncodable_intercalate`), and so has such a text between quotes
(`isEncodable_quoted`), so what is traced of a call has one when the name has (`isEncodable_called`, `isEncodable_returned`).
-/
import LetScript.Proofs.Lexing
import LetScript.Evaluation

namespace LetScript.Text

/-! ## Putting texts together -/

theorem isEncodable_iff (text : String) : isEncodable text = true ↔ ∀ c ∈ text.toList, half? c = none := by
  simp only [isEncodable, List.all_eq_true, Option.isNone_iff_eq_none]

/-- a text is encodable when both parts are -/
@[simp] theorem isEncodable_append (s t : String) : isEncodable (s ++ t) = (isEncodable s && isEncodable t) := by
  simp only [isEncodable, String.toList_append, List.all_append]

/-- texts with one between them are encodable when all are -/
theorem isEncodable_intercalate {separator : String} {texts : List String} (hs : isEncodable separator = true)
    (ht : ∀ text ∈ texts, isEncodable text = true) : isEncodable (separator.intercalate texts) = true := by
  induction texts with
  | nil => rfl
  | cons first rest ih =>
    rw [List.forall_mem_cons] at ht
    cases rest with
    | nil => simpa using ht.1
    | cons second rest =>
      rw [String.intercalate_cons_cons, isEncodable_append, isEncodable_append, ht.1, hs, ih ht.2]
      rfl

/-! ## ASCII texts -/

/-- a character of ASCII -/
def IsAscii (c : Char) : Prop := c.toNat < 128

instance (c : Char) : Decidable (IsAscii c) := inferInstanceAs (Decidable (c.toNat < 128))

theorem half?_of_ascii {c : Char} (h : IsAscii c) : half? c = none := by
  unfold IsAscii at h
  have hlow : ¬ standInOffset + 0xd800 ≤ c.toNat := by
    unfold standInOffset
    omega
  unfold half?
  rw [if_neg]
  rw [Bool.and_eq_true, decide_eq_true_eq]
  exact fun hhalf => hlow hhalf.1

theorem isEncodable_of_ascii {text : String} (h : ∀ c ∈ text.toList, IsAscii c) : isEncodable text = true :=
  (isEncodable_iff text).2 fun c hc => half?_of_ascii (h c hc)

theorem ascii_of_isDigit {c : Char} (h : c.isDigit = true) : IsAscii c := by
  simp only [Char.isDigit, Bool.and_eq_true, decide_eq_true_eq] at h
  have hhigh : c.toNat ≤ 57 := h.2
  unfold IsAscii
  omega

theorem ascii_of_isWordChar {c : Char} (h : Token.isWordChar c = true) : IsAscii c := by
  have hbelow : ∀ d : Char, d.toNat < 128 → c ≤ d → IsAscii c := by
    intro d hd hc
    exact lt_of_le_of_lt (show c.toNat ≤ d.toNat from hc) hd
  simp only [Token.isWordChar, Token.isDigit, Bool.or_eq_true, decide_eq_true_eq] at h
  rcases h with ((⟨-, hc⟩ | ⟨-, hc⟩) | ⟨-, hc⟩) | rfl
  · exact hbelow 'z' (by decide) hc
  · exact hbelow 'Z' (by decide) hc
  · exact hbelow '9' (by decide) hc
  · decide

theorem isEncodable_identifier {name : String} (h : Token.Word .identifier name.toList) : isEncodable name = true :=
  isEncodable_of_ascii fun c hc => ascii_of_isWordChar (h.2.1 c hc)

/-! ## Numbers -/

theorem repr_ascii (n : ℕ) : ∀ c ∈ (Nat.repr n).toList, IsAscii c := by
  intro c hc
  rw [Nat.toList_repr] at hc
  exact ascii_of_isDigit (Nat.isDigit_of_mem_toDigits (by decide) (by decide) hc)

theorem isEncodable_repr (n : ℕ) : isEncodable (Nat.repr n) = true := isEncodable_of_ascii (repr_ascii n)

theorem isEncodable_numeral (n : Int) : isEncodable (Numeral.text n) = true := by
  unfold Numeral.text
  split_ifs
  · rw [isEncodable_append, isEncodable_repr]
    decide
  · exact isEncodable_repr _

theorem padZeros_ascii {digits : List Char} (h : ∀ c ∈ digits, IsAscii c) (width : ℕ) :
    ∀ c ∈ Binary64.padZeros width digits, IsAscii c := by
  intro c hc
  rcases List.mem_append.1 hc with hc | hc
  · rw [List.eq_of_mem_replicate hc]
    decide
  · exact h c hc

theorem positional_ascii {digits : List Char} (h : ∀ c ∈ digits, IsAscii c) (exponent : Int) :
    ∀ c ∈ Binary64.positional digits exponent, IsAscii c := by
  have hpoint : IsAscii '.' := by decide
  have hzero : IsAscii '0' := by decide
  intro c hc
  unfold Binary64.positional at hc
  split at hc
  · simp only [List.mem_append, List.mem_cons, List.not_mem_nil, or_false] at hc
    rcases hc with (hc | hc) | rfl | rfl
    · exact h c hc
    · rwa [List.eq_of_mem_replicate hc]
    · exact hpoint
    · exact hzero
  · dsimp only at hc
    split_ifs at hc
    · simp only [List.mem_append, List.mem_cons] at hc
      rcases hc with hc | rfl | hc
      · exact h c (List.mem_of_mem_take hc)
      · exact hpoint
      · exact h c (List.mem_of_mem_drop hc)
    · simp only [List.mem_cons] at hc
      rcases hc with rfl | rfl | hc
      · exact hzero
      · exact hpoint
      · exact padZeros_ascii h _ c hc

theorem scientific_ascii {digits : List Char} (h : ∀ c ∈ digits, IsAscii c) (exponent : Int) :
    ∀ c ∈ Binary64.scientific digits exponent, IsAscii c := by
  intro c hc
  rcases List.mem_append.1 hc with hc | hc
  · split at hc
    · simp only [List.mem_cons] at hc
      rcases hc with rfl | rfl | rfl | hc
      · exact h _ List.mem_cons_self
      · decide
      · exact h _ (List.mem_cons_of_mem _ List.mem_cons_self)
      · exact h _ (List.mem_cons_of_mem _ (List.mem_cons_of_mem _ hc))
    · exact h c hc
  · simp only [List.mem_cons] at hc
    rcases hc with rfl | rfl | hc
    · decide
    · split_ifs <;> decide
    · exact padZeros_ascii (repr_ascii _) _ c hc

theorem magnitude_ascii (units : ℕ) : ∀ c ∈ Binary64.magnitudeText units, IsAscii c := by
  have hzero : IsAscii '0' := by decide
  have hpoint : IsAscii '.' := by decide
  unfold Binary64.magnitudeText
  split_ifs
  · exact List.forall_mem_cons.2 ⟨hzero, List.forall_mem_cons.2 ⟨hpoint, List.forall_mem_singleton.2 hzero⟩⟩
  · rcases Binary64.shortest units with ⟨digits, exponent⟩
    dsimp only
    split_ifs
    · exact positional_ascii (repr_ascii digits) _
    · exact scientific_ascii (repr_ascii digits) _

theorem isEncodable_binary (x : Binary64) : isEncodable x.text = true := by
  cases x with
  | nan => decide
  | infinite negative => cases negative <;> decide
  | finite negative units =>
    refine isEncodable_of_ascii fun c hc => ?_
    rw [Binary64.text, String.toList_ofList] at hc
    split_ifs at hc
    · rcases List.mem_cons.1 hc with rfl | hc
      · decide
      · exact magnitude_ascii units c hc
    · exact magnitude_ascii units c hc

theorem isEncodable_float (x : Binary64) : isEncodable (Value.floatText x) = true := by
  unfold Value.floatText
  split
  · split_ifs
    · exact isEncodable_numeral _
    · exact isEncodable_binary x
  · exact isEncodable_binary x

/-! ## Quoted texts -/

theorem toDigits_ascii (n : ℕ) : ∀ c ∈ Nat.toDigits 16 n, IsAscii c := by
  have hdigit : ∀ d < 16, IsAscii (Nat.digitChar d) := by decide
  induction n using Nat.strongRecOn with
  | ind n ih =>
    by_cases hlt : n < 16
    · rw [Nat.toDigits_of_lt_base hlt]
      exact List.forall_mem_singleton.2 (hdigit n hlt)
    · rw [Nat.toDigits_of_base_le (by decide) (not_lt.1 hlt)]
      intro c hc
      rcases List.mem_append.1 hc with hc | hc
      · exact ih (n / 16) (Nat.div_lt_self (by omega) (by decide)) c hc
      · rw [List.mem_singleton.1 hc]
        exact hdigit _ (Nat.mod_lt n (by decide))

theorem hexDigits_ascii (width n : ℕ) : ∀ c ∈ hexDigits width n, IsAscii c := by
  intro c hc
  rcases List.mem_append.1 hc with hc | hc
  · rw [List.eq_of_mem_replicate hc]
    decide
  · exact toDigits_ascii n c hc

theorem codeEscape_ascii (code : ℕ) : ∀ c ∈ codeEscape code, IsAscii c := by
  have hescape : ∀ letter : Char, IsAscii letter → ∀ width, ∀ c ∈ '\\' :: letter :: hexDigits width code, IsAscii c :=
    fun letter hletter width =>
      List.forall_mem_cons.2 ⟨by decide, List.forall_mem_cons.2 ⟨hletter, hexDigits_ascii width code⟩⟩
  unfold codeEscape
  split_ifs
  · exact hescape 'x' (by decide) 2
  · exact hescape 'u' (by decide) 4
  · exact hescape 'U' (by decide) 8

/-- a quoted character is the character itself, behind a backslash or not, or all ASCII -/
theorem quotedChar_encodable (quote : Char) {c : Char} (h : half? c = none) : ∀ d ∈ quotedChar quote c, half? d = none := by
  have hescaped : ∀ letter, half? letter = none → ∀ d ∈ ['\\', letter], half? d = none := fun letter hletter =>
    List.forall_mem_cons.2 ⟨by decide, List.forall_mem_singleton.2 hletter⟩
  unfold quotedChar
  split_ifs
  · exact hescaped c h
  · exact hescaped 'n' (by decide)
  · exact hescaped 'r' (by decide)
  · exact hescaped 't' (by decide)
  · exact List.forall_mem_singleton.2 h
  · exact fun d hd => half?_of_ascii (codeEscape_ascii _ d hd)

/-- a quoted text has an encoding when the text has one -/
theorem isEncodable_quoted {text : String} (h : isEncodable text = true) : isEncodable (quoted text) = true := by
  rw [isEncodable_iff] at h ⊢
  have hquote : half? (quoteFor text.toList) = none := by
    unfold quoteFor
    split_ifs <;> decide
  intro c hc
  simp only [quoted, String.toList_ofList] at hc
  rcases List.mem_append.1 hc with hc | hc
  · rcases List.mem_cons.1 hc with rfl | hc
    · exact hquote
    · obtain ⟨d, hd, hc⟩ := List.mem_flatMap.1 hc
      exact quotedChar_encodable _ (h d hd) c hc
  · rw [List.mem_singleton.1 hc]
    exact hquote

/-! ## Lines about calls -/

/-- what is said of a call has an encoding when the name has one -/
theorem isEncodable_called (name : String) (given depth : ℕ) :
    isEncodable (Evaluation.Event.called name given depth).line = isEncodable name := by
  have hwords : isEncodable "call " = true ∧ isEncodable "/" = true ∧ isEncodable " (depth " = true ∧
      isEncodable ")" = true := by decide
  obtain ⟨hcall, hslash, hdepth, hclose⟩ := hwords
  have hline : (Evaluation.Event.called name given depth).line =
      "call " ++ name ++ "/" ++ Nat.repr given ++ " (depth " ++ Nat.repr depth ++ ")" := rfl
  rw [hline, isEncodable_append, isEncodable_append, isEncodable_append, isEncodable_append,
    isEncodable_append, isEncodable_append, hcall, hslash, hdepth, hclose, isEncodable_repr, isEncodable_repr]
  simp only [Bool.true_and, Bool.and_true]

theorem isEncodable_returned (name : String) (depth : ℕ) :
    isEncodable (Evaluation.Event.returned name depth).line = isEncodable name := by
  have hwords : isEncodable "return from " = true ∧ isEncodable " (depth " = true ∧ isEncodable ")" = true := by decide
  obtain ⟨hreturn, hdepth, hclose⟩ := hwords
  have hline : (Evaluation.Event.returned name depth).line =
      "return from " ++ name ++ " (depth " ++ Nat.repr depth ++ ")" := rfl
  rw [hline, isEncodable_append, isEncodable_append, isEncodable_append, isEncodable_append, hreturn, hdepth, hclose,
    isEncodable_repr]
  simp only [Bool.true_and, Bool.and_true]

end LetScript.Text
