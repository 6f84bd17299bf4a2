/-
Documents survive being written and read.

A document that holds no decimals, no integers of more digits than are read, and no two fields of one name in an object is
determined by its text (`Exact`). Texts, numbers, items and fields are each read back from what is written for them, whatever
comes after, as long as it does not go on with a number (`ReadsBack`); so is a document as a whole: `read_indented`. What is
written holds no carriage return, so it also survives in a file.
-/
import LetScript.Json.Reader
import LetScript.Json.Writer
import Mathlib.Tactic

namespace LetScript.Json

/-! ## Texts -/

/-- the four digits of a control character are read as its number -/
theorem hexFour_control : ∀ n < 0x20,
    (match Text.hexDigits 4 n with
      | [a, b, c, d] => hexFour? a b c d == some n
      | _ => false) = true := by decide

theorem hexDigits_control {n : ℕ} (h : n < 0x20) :
    ∃ a b c d, Text.hexDigits 4 n = [a, b, c, d] ∧ hexFour? a b c d = some n := by
  have hfour := hexFour_control n h
  split at hfour
  · exact ⟨_, _, _, _, ‹_›, by simpa using hfour⟩
  · cases hfour

/-- a written character is read back -/
theorem textBody_escapedChar (c : Char) (done rest : List Char) :
    textBody none done (escapedChar c ++ rest) = textBody none (c :: done) rest := by
  unfold escapedChar
  split_ifs with hquote hslash hfeed hreturn htab hback hform hcontrol
  · simp [textBody, escapeOf?, settle, hquote]
  · simp [textBody, escapeOf?, settle, hslash]
  · simp [textBody, escapeOf?, settle, hfeed]
  · simp [textBody, escapeOf?, settle, hreturn]
  · simp [textBody, escapeOf?, settle, htab]
  · have hc : c = Char.ofNat 0x08 := by rw [← hback, Char.ofNat_toNat]
    simp [textBody, escapeOf?, settle, hc]
  · have hc : c = Char.ofNat 0x0c := by rw [← hform, Char.ofNat_toNat]
    simp [textBody, escapeOf?, settle, hc]
  · obtain ⟨a, b, c', d, hdigits, hvalue⟩ := hexDigits_control hcontrol
    have hunit : addUnit c.toNat none done = (none, c :: done) := by
      have hhigh : ¬ 0xd800 ≤ c.toNat := by omega
      have hlow : ¬ 0xdc00 ≤ c.toNat := by omega
      simp [addUnit, settle, hhigh, hlow]
    simp [hdigits, textBody, hvalue, hunit]
  · rw [List.singleton_append, textBody]
    · simp [hcontrol, hslash, settle]
    all_goals simp_all

/-- **A written text is read back.** -/
theorem textBody_written (chars done rest : List Char) :
    textBody none done (chars.flatMap escapedChar ++ '"' :: rest) = .ok (String.ofList (done.reverse ++ chars), rest) := by
  induction chars generalizing done with
  | nil => simp [textBody, settle]
  | cons c chars ih =>
    rw [List.flatMap_cons, List.append_assoc, textBody_escapedChar, ih]
    simp

/-! ## Numbers -/

/-- what may come after a value: nothing, a comma, or a line break -/
def Ends (rest : List Char) : Prop := ∀ c ∈ rest.head?, c = ',' ∨ c = '\n'

theorem leadingDigits_append {digits rest : List Char} (hdigits : ∀ c ∈ digits, Binary64.isDigit c = true) (hrest : Ends rest) :
    leadingDigits (digits ++ rest) = digits := by
  rw [leadingDigits, List.takeWhile_append_of_pos hdigits]
  cases rest with
  | nil => simp
  | cons c rest =>
    rcases hrest c rfl with rfl | rfl
    · simp [Binary64.isDigit]
    · simp [Binary64.isDigit]

/-- no fraction and no exponent follow -/
theorem parts_of_ends {rest : List Char} (h : Ends rest) : fractionPart rest = [] ∧ exponentPart rest = [] := by
  cases rest with
  | nil => exact ⟨rfl, rfl⟩
  | cons c rest =>
    rcases h c rfl with rfl | rfl
    · exact ⟨rfl, rfl⟩
    · exact ⟨rfl, rfl⟩

theorem isDigit_toDigits {n : ℕ} {c : Char} (h : c ∈ Nat.toDigits 10 n) : Binary64.isDigit c = true := by
  have hdigit := Nat.isDigit_of_mem_toDigits (by decide) (by decide) h
  simpa [Binary64.isDigit, Char.isDigit, Char.le_def] using hdigit

/-- digits of a number that is not zero do not start with one -/
theorem toDigits_head {n : ℕ} (h : 0 < n) : ∃ c rest, Nat.toDigits 10 n = c :: rest ∧ c ≠ '0' := by
  induction n using Nat.strongRecOn with
  | _ n ih =>
    rw [Nat.toDigits_eq_if (by decide)]
    split_ifs with hsmall
    · refine ⟨_, [], rfl, ?_⟩
      interval_cases n
      all_goals decide
    · obtain ⟨c, rest, hdigits, hc⟩ := ih (n / 10) (by omega) (by omega)
      exact ⟨c, rest ++ [(n % 10).digitChar], by rw [hdigits, List.cons_append], hc⟩

theorem digitsValue_toDigits (n : ℕ) : Binary64.digitsValue (Nat.toDigits 10 n) = n := by
  have hvalue : ∀ (digits : List Char) (start : ℕ), (∀ c ∈ digits, Binary64.isDigit c = true) →
      (digits.filterMap Binary64.digitOf?).foldl (fun acc d => 10 * acc + d) start = Nat.ofDigitChars 10 digits start := by
    intro digits
    induction digits with
    | nil => exact fun _ _ => rfl
    | cons c digits ih =>
      intro start hdigits
      obtain ⟨hc, hdigits⟩ := List.forall_mem_cons.1 hdigits
      have hdigit : Binary64.digitOf? c = some (c.toNat - 0x30) := if_pos (by simpa [Binary64.isDigit] using hc)
      rw [List.filterMap_cons_some hdigit, List.foldl_cons, ih _ hdigits, Nat.ofDigitChars_cons]
      rfl
  rw [Binary64.digitsValue, Numeral.ofDigits, hvalue _ _ fun _ => isDigit_toDigits]
  exact Nat.ofDigitChars_ten_toDigits

theorem wholePart_toDigits (n : ℕ) {rest : List Char} (h : Ends rest) :
    wholePart (Nat.toDigits 10 n ++ rest) = Nat.toDigits 10 n := by
  rcases Nat.eq_zero_or_pos n with rfl | hpos
  · rfl
  · have hlead := leadingDigits_append (fun _ => isDigit_toDigits (n := n)) h
    obtain ⟨c, digits, hdigits, hc⟩ := toDigits_head hpos
    rw [hdigits] at hlead ⊢
    unfold wholePart
    split
    · simp_all
    · exact hlead

/-- **A written number is read back**, after its sign. -/
theorem readNumber_toDigits (negative : Bool) {n : ℕ} (hn : n < 10 ^ Numeral.digitLimit) {rest : List Char} (h : Ends rest) :
    readNumber negative (Nat.toDigits 10 n ++ rest) = .ok (.int (if negative then -(n : Int) else n), rest) := by
  have hlength : (Nat.toDigits 10 n).length ≤ Numeral.digitLimit :=
    (Nat.length_toDigits_le_iff (by decide) (by decide)).2 hn
  have hne : Nat.toDigits 10 n ≠ [] := Nat.toDigits_ne_nil
  obtain ⟨hfraction, hexponent⟩ := parts_of_ends h
  simp [readNumber, wholePart_toDigits n h, hfraction, hexponent, hne, hlength, digitsValue_toDigits]

/-! ## Documents -/

/-- a document that its text determines: no decimals, no integer of more digits than are read, and no two fields of one name -/
inductive Exact : Json → Prop where
  | null : Exact .null
  | bool (b : Bool) : Exact (.bool b)
  | int {n : Int} (short : n.natAbs < 10 ^ Numeral.digitLimit) : Exact (.int n)
  | text (s : String) : Exact (.text s)
  | list {items : List Json} (all : ∀ item ∈ items, Exact item) : Exact (.list items)
  | object {fields : List (String × Json)} (distinct : (fields.map Prod.fst).Nodup) (all : ∀ field ∈ fields, Exact field.2) :
      Exact (.object fields)

theorem skipSpaces_newLine (depth : ℕ) (rest : List Char) : skipSpaces (newLine depth ++ rest) = skipSpaces rest := by
  have hspaces : ∀ c ∈ newLine depth, isSpace c = true := by
    simp only [newLine, List.forall_mem_cons]
    refine ⟨rfl, fun c hc => ?_⟩
    rw [List.eq_of_mem_replicate hc]
    rfl
  rw [skipSpaces, List.dropWhile_append_of_pos hspaces]
  rfl

theorem skipSpaces_cons {c : Char} (h : isSpace c = false) (rest : List Char) : skipSpaces (c :: rest) = c :: rest := by
  simp [skipSpaces, h]

theorem ends_newLine (depth : ℕ) (rest : List Char) : Ends (newLine depth ++ rest) := by
  simp [Ends, newLine]

theorem ends_comma (rest : List Char) : Ends (',' :: rest) := by
  simp [Ends]

/-- the characters with which a value starts that is no number -/
def leaders : List Char := ['"', '[', ']', '\x7b', 'n', 't', 'f', 'N', 'I', '-', ' ', '\t', '\n', '\r']

theorem digit_not_leader {c : Char} (h : Binary64.isDigit c = true) : ∀ d ∈ leaders, c ≠ d := by
  have hleaders : ∀ d ∈ leaders, Binary64.isDigit d = false := by simp [leaders, Binary64.isDigit]
  rintro d hd rfl
  rw [hleaders c hd] at h
  cases h

/-- the digits of a number, one of them first -/
theorem toDigits_cons (n : ℕ) : ∃ c rest, Nat.toDigits 10 n = c :: rest ∧ ∀ d ∈ leaders, c ≠ d := by
  cases hdigits : Nat.toDigits 10 n with
  | nil => exact absurd hdigits Nat.toDigits_ne_nil
  | cons c rest => exact ⟨c, rest, rfl, digit_not_leader (isDigit_toDigits (n := n) (by rw [hdigits]; exact List.mem_cons_self))⟩

theorem text_negative {n : Int} (h : n < 0) : (Numeral.text n).toList = '-' :: Nat.toDigits 10 n.natAbs := by
  simp [Numeral.text, h, Nat.repr_eq_ofList_toDigits]

theorem text_natural {n : Int} (h : ¬ n < 0) : (Numeral.text n).toList = Nat.toDigits 10 n.natAbs := by
  simp [Numeral.text, h, Nat.repr_eq_ofList_toDigits]

/-- a written document starts with a character that is no space and closes nothing -/
theorem indentedChars_starts {document : Json} (h : Exact document) (depth : ℕ) :
    ∃ c rest, indentedChars depth document = c :: rest ∧ isSpace c = false ∧ c ≠ ']' := by
  cases h with
  | null => exact ⟨_, _, rfl, rfl, by decide⟩
  | bool b =>
    cases b with
    | false => exact ⟨_, _, rfl, rfl, by decide⟩
    | true => exact ⟨_, _, rfl, rfl, by decide⟩
  | text s => exact ⟨_, _, rfl, rfl, by decide⟩
  | @list items all =>
    cases items with
    | nil => exact ⟨_, _, rfl, rfl, by decide⟩
    | cons item items => exact ⟨_, _, rfl, rfl, by decide⟩
  | @object fields distinct all =>
    cases fields with
    | nil => exact ⟨_, _, rfl, rfl, by decide⟩
    | cons field fields => exact ⟨_, _, rfl, rfl, by decide⟩
  | @int n short =>
    rw [indentedChars]
    by_cases hn : n < 0
    · exact ⟨_, _, text_negative hn, rfl, by decide⟩
    · obtain ⟨c, rest, hdigits, hc⟩ := toDigits_cons n.natAbs
      refine ⟨c, rest, (text_natural hn).trans hdigits, ?_, hc _ (by decide)⟩
      simp only [leaders, List.forall_mem_cons] at hc
      simp [isSpace, hc]

/-- a document is read back from its text, whatever comes after it -/
def ReadsBack (depth : ℕ) (document : Json) : Prop :=
  ∀ fuel rest, (indentedChars depth document).length ≤ fuel → Ends rest →
    readValue fuel (indentedChars depth document ++ rest) = .ok (document, rest)

theorem readValue_digit {c : Char} (hc : ∀ d ∈ leaders, c ≠ d) (fuel : ℕ) (rest : List Char) :
    readValue (fuel + 1) (c :: rest) = readNumber false (c :: rest) := by
  simp only [leaders, List.forall_mem_cons] at hc
  simp [readValue, hc]

theorem readValue_minus {c : Char} (hc : ∀ d ∈ leaders, c ≠ d) (fuel : ℕ) (rest : List Char) :
    readValue (fuel + 1) ('-' :: c :: rest) = readNumber true (c :: rest) := by
  have hinfinity : c ≠ 'I' := hc _ (by decide)
  simp only [readValue, Char.reduceEq, if_false, if_true]
  split
  · simp_all
  · rfl

theorem readsBack_int (depth : ℕ) {n : Int} (short : n.natAbs < 10 ^ Numeral.digitLimit) : ReadsBack depth (.int n) := by
  intro fuel rest hfuel hrest
  rw [indentedChars] at hfuel ⊢
  obtain ⟨c, digits, hdigits, hc⟩ := toDigits_cons n.natAbs
  have hread := fun negative => readNumber_toDigits negative short hrest
  by_cases hn : n < 0
  · rw [text_negative hn, hdigits] at hfuel ⊢
    obtain ⟨fuel, rfl⟩ := Nat.exists_eq_succ_of_ne_zero (Nat.ne_zero_of_lt hfuel)
    have hvalue : -(n.natAbs : Int) = n := by omega
    rw [hdigits] at hread
    simp only [List.cons_append] at hread ⊢
    rw [readValue_minus hc, hread, if_pos rfl, hvalue]
  · rw [text_natural hn, hdigits] at hfuel ⊢
    obtain ⟨fuel, rfl⟩ := Nat.exists_eq_succ_of_ne_zero (Nat.ne_zero_of_lt hfuel)
    have hvalue : (n.natAbs : Int) = n := by omega
    rw [hdigits] at hread
    simp only [List.cons_append] at hread ⊢
    rw [readValue_digit hc, hread, if_neg (by decide), hvalue]

theorem readsBack_text (depth : ℕ) (s : String) : ReadsBack depth (.text s) := by
  intro fuel rest hfuel _
  rw [indentedChars, writtenText, List.cons_append] at hfuel ⊢
  obtain ⟨fuel, rfl⟩ := Nat.exists_eq_succ_of_ne_zero (Nat.ne_zero_of_lt hfuel)
  simp [readValue, textBody_written, Except.map]

/-! ## Items and fields -/

theorem indentedItems_cons (depth : ℕ) (item next : Json) (others : List Json) :
    indentedItems depth (item :: next :: others) =
      newLine depth ++ indentedChars depth item ++ ',' :: indentedItems depth (next :: others) := by
  rw [indentedItems]
  simp

theorem indentedFields_cons (depth : ℕ) (name : String) (value : Json) (next : String × Json) (others : List (String × Json)) :
    indentedFields depth ((name, value) :: next :: others) =
      newLine depth ++ writtenText name ++ ':' :: ' ' :: indentedChars depth value ++
        ',' :: indentedFields depth (next :: others) := by
  rw [indentedFields]
  simp

/-- one item on a line of its own, and then what comes after it -/
theorem readItems_item {depth : ℕ} {item : Json} (hexact : Exact item) (hreads : ReadsBack depth item) (done : List Json)
    {fuel : ℕ} (hfuel : (indentedChars depth item).length ≤ fuel) {tail : List Char} (htail : Ends tail) :
    readItems (fuel + 1) done (skipSpaces (newLine depth ++ (indentedChars depth item ++ tail))) =
      match skipSpaces tail with
      | ',' :: rest => readItems fuel (item :: done) (skipSpaces rest)
      | ']' :: rest => .ok ((item :: done).reverse, rest)
      | _ => .error .malformed := by
  obtain ⟨c, chars, hchars, hspace, -⟩ := indentedChars_starts hexact depth
  have hskip : skipSpaces (newLine depth ++ (indentedChars depth item ++ tail)) = indentedChars depth item ++ tail := by
    rw [skipSpaces_newLine, hchars, List.cons_append, skipSpaces_cons hspace]
  rewrite [hskip, readItems, hreads fuel tail hfuel htail]
  rfl

/-- **Written items are read back**, behind those read before. -/
theorem readItems_written {depth : ℕ} {items : List Json} (hitems : ∀ item ∈ items, Exact item ∧ ReadsBack depth item)
    (hne : items ≠ []) (done : List Json) (fuel : ℕ) (hfuel : (indentedItems depth items).length ≤ fuel) (outer : ℕ)
    (rest : List Char) :
    readItems fuel done (skipSpaces (indentedItems depth items ++ (newLine outer ++ ']' :: rest))) =
      .ok (done.reverse ++ items, rest) := by
  induction items generalizing done fuel with
  | nil => exact absurd rfl hne
  | cons item more ih =>
    obtain ⟨⟨hexact, hreads⟩, hmore⟩ := List.forall_mem_cons.1 hitems
    cases more with
    | nil =>
      rw [indentedItems, newLine] at hfuel
      simp only [List.length_append, List.length_cons] at hfuel
      obtain ⟨fuel, rfl⟩ := Nat.exists_eq_succ_of_ne_zero (show fuel ≠ 0 by omega)
      have hitem := readItems_item hexact hreads done (show _ ≤ fuel by omega) (ends_newLine outer (']' :: rest))
      rw [skipSpaces_newLine outer, skipSpaces_cons rfl] at hitem
      simpa [indentedItems] using hitem
    | cons next others =>
      rw [indentedItems_cons, newLine] at hfuel
      simp only [List.length_append, List.length_cons] at hfuel
      obtain ⟨fuel, rfl⟩ := Nat.exists_eq_succ_of_ne_zero (show fuel ≠ 0 by omega)
      have hitem := readItems_item hexact hreads done (show _ ≤ fuel by omega)
        (ends_comma (indentedItems depth (next :: others) ++ (newLine outer ++ ']' :: rest)))
      have hothers := ih hmore (by simp) (item :: done) fuel (by omega)
      rw [skipSpaces_cons rfl] at hitem
      simpa [indentedItems_cons, hothers] using hitem

theorem setField_fresh {name : String} {value : Json} {done : List (String × Json)} (h : name ∉ done.map Prod.fst) :
    setField name value done = done ++ [(name, value)] := by
  induction done with
  | nil => rfl
  | cons field done ih =>
    simp only [List.map_cons, List.mem_cons, not_or] at h
    rw [setField, if_neg (Ne.symm h.1), ih h.2, List.cons_append]

/-- one field on a line of its own, with a new name, and then what comes after it -/
theorem readFields_field {depth : ℕ} {name : String} {value : Json} (hexact : Exact value) (hreads : ReadsBack depth value)
    {done : List (String × Json)} (hfresh : name ∉ done.map Prod.fst) {fuel : ℕ}
    (hfuel : (indentedChars depth value).length ≤ fuel) {tail : List Char} (htail : Ends tail) :
    readFields (fuel + 1) done
        (skipSpaces (newLine depth ++ (writtenText name ++ (':' :: ' ' :: (indentedChars depth value ++ tail))))) =
      match skipSpaces tail with
      | ',' :: rest => readFields fuel (done ++ [(name, value)]) (skipSpaces rest)
      | '\x7d' :: rest => .ok (done ++ [(name, value)], rest)
      | _ => .error .malformed := by
  obtain ⟨c, chars, hchars, hspace, -⟩ := indentedChars_starts hexact depth
  have hskip : skipSpaces (' ' :: (indentedChars depth value ++ tail)) = indentedChars depth value ++ tail := by
    rw [hchars, List.cons_append]
    simp [skipSpaces, hspace, show isSpace ' ' = true from rfl]
  have hname : ∀ after, textBody none [] (name.toList.flatMap escapedChar ++ ('"' :: after)) = .ok (name, after) := by
    intro after
    simp [textBody_written]
  rw [skipSpaces_newLine, writtenText]
  simp only [List.cons_append, List.append_assoc, List.nil_append]
  rw [skipSpaces_cons rfl, readFields]
  simp only [hname]
  rw [skipSpaces_cons rfl]
  simp only [hskip, hreads fuel tail hfuel htail]
  rewrite [setField_fresh hfresh]
  rfl

/-- **Written fields are read back**, behind those read before, which have other names. -/
theorem readFields_written {depth : ℕ} {fields : List (String × Json)}
    (hfields : ∀ field ∈ fields, Exact field.2 ∧ ReadsBack depth field.2) (hne : fields ≠ []) (done : List (String × Json))
    (hdistinct : ((done ++ fields).map Prod.fst).Nodup) (fuel : ℕ) (hfuel : (indentedFields depth fields).length ≤ fuel)
    (outer : ℕ) (rest : List Char) :
    readFields fuel done (skipSpaces (indentedFields depth fields ++ (newLine outer ++ '\x7d' :: rest))) =
      .ok (done ++ fields, rest) := by
  induction fields generalizing done fuel with
  | nil => exact absurd rfl hne
  | cons field more ih =>
    obtain ⟨name, value⟩ := field
    obtain ⟨⟨hexact, hreads⟩, hmore⟩ := List.forall_mem_cons.1 hfields
    dsimp only at hexact hreads
    have hfresh : name ∉ done.map Prod.fst := by
      intro hname
      rw [List.map_append, List.map_cons] at hdistinct
      exact (List.nodup_append.1 hdistinct).2.2 name hname name List.mem_cons_self rfl
    cases more with
    | nil =>
      rw [indentedFields, newLine] at hfuel
      simp only [List.length_append, List.length_cons] at hfuel
      obtain ⟨fuel, rfl⟩ := Nat.exists_eq_succ_of_ne_zero (show fuel ≠ 0 by omega)
      have hfield := readFields_field hexact hreads hfresh (show _ ≤ fuel by omega) (ends_newLine outer ('\x7d' :: rest))
      rw [skipSpaces_newLine outer, skipSpaces_cons rfl] at hfield
      simpa [indentedFields] using hfield
    | cons next others =>
      rw [indentedFields_cons, newLine] at hfuel
      simp only [List.length_append, List.length_cons] at hfuel
      obtain ⟨fuel, rfl⟩ := Nat.exists_eq_succ_of_ne_zero (show fuel ≠ 0 by omega)
      have hfield := readFields_field hexact hreads hfresh (show _ ≤ fuel by omega)
        (ends_comma (indentedFields depth (next :: others) ++ (newLine outer ++ '\x7d' :: rest)))
      have hothers := ih hmore (by simp) (done ++ [(name, value)]) (by simpa using hdistinct) fuel (by omega)
      rw [skipSpaces_cons rfl] at hfield
      simpa [indentedFields_cons, hothers] using hfield

/-! ## Documents as a whole -/

/-- a list goes on with its first item, which does not close it -/
theorem skipSpaces_items {depth : ℕ} {item : Json} (h : Exact item) (more : List Json) (tail : List Char) :
    ∃ c chars, skipSpaces (indentedItems depth (item :: more) ++ tail) = c :: chars ∧ c ≠ ']' := by
  obtain ⟨c, chars, hchars, hspace, hclose⟩ := indentedChars_starts h depth
  cases more with
  | nil =>
    refine ⟨c, chars ++ tail, ?_, hclose⟩
    rw [indentedItems, List.append_assoc, skipSpaces_newLine, hchars, List.cons_append, skipSpaces_cons hspace]
  | cons next others =>
    refine ⟨c, chars ++ (',' :: indentedItems depth (next :: others) ++ tail), ?_, hclose⟩
    rw [indentedItems_cons, List.append_assoc, List.append_assoc, skipSpaces_newLine, hchars, List.cons_append,
      skipSpaces_cons hspace]

/-- an object goes on with its first name -/
theorem skipSpaces_fields (depth : ℕ) (field : String × Json) (more : List (String × Json)) (tail : List Char) :
    ∃ chars, skipSpaces (indentedFields depth (field :: more) ++ tail) = '"' :: chars := by
  obtain ⟨name, value⟩ := field
  cases more with
  | nil =>
    rw [indentedFields, List.append_assoc, List.append_assoc, skipSpaces_newLine]
    exact ⟨_, skipSpaces_cons rfl _⟩
  | cons next others =>
    rw [indentedFields_cons, List.append_assoc, List.append_assoc, List.append_assoc, skipSpaces_newLine]
    exact ⟨_, skipSpaces_cons rfl _⟩

theorem readsBack_list {depth : ℕ} {items : List Json} (hitems : ∀ item ∈ items, Exact item ∧ ReadsBack (depth + 1) item) :
    ReadsBack depth (.list items) := by
  intro fuel rest hfuel _
  cases items with
  | nil =>
    obtain ⟨fuel, rfl⟩ := Nat.exists_eq_succ_of_ne_zero (Nat.ne_zero_of_lt hfuel)
    rfl
  | cons item more =>
    rw [indentedChars] at hfuel ⊢
    simp only [List.cons_append, List.length_cons, List.length_append] at hfuel
    obtain ⟨fuel, rfl⟩ := Nat.exists_eq_succ_of_ne_zero (show fuel ≠ 0 by omega)
    have hread := readItems_written hitems (by simp) [] fuel (by omega) depth rest
    obtain ⟨c, chars, hstart, hclose⟩ := skipSpaces_items (hitems item List.mem_cons_self).1 more (newLine depth ++ ']' :: rest)
    rw [hstart] at hread
    simp only [List.cons_append, List.append_assoc, List.nil_append, readValue, Char.reduceEq, if_false, if_true, hstart]
    split
    · simp_all
    · rw [hread]
      rfl

theorem readsBack_object {depth : ℕ} {fields : List (String × Json)} (hdistinct : (fields.map Prod.fst).Nodup)
    (hfields : ∀ field ∈ fields, Exact field.2 ∧ ReadsBack (depth + 1) field.2) : ReadsBack depth (.object fields) := by
  intro fuel rest hfuel _
  cases fields with
  | nil =>
    obtain ⟨fuel, rfl⟩ := Nat.exists_eq_succ_of_ne_zero (Nat.ne_zero_of_lt hfuel)
    rfl
  | cons field more =>
    rw [indentedChars] at hfuel ⊢
    simp only [List.cons_append, List.length_cons, List.length_append] at hfuel
    obtain ⟨fuel, rfl⟩ := Nat.exists_eq_succ_of_ne_zero (show fuel ≠ 0 by omega)
    have hread := readFields_written hfields (by simp) [] hdistinct fuel (by omega) depth rest
    obtain ⟨chars, hstart⟩ := skipSpaces_fields (depth + 1) field more (newLine depth ++ '\x7d' :: rest)
    rw [hstart] at hread
    simp only [List.cons_append, List.append_assoc, List.nil_append, readValue, Char.reduceEq, if_false, if_true, hstart]
    split
    · simp_all
    · rw [hread]
      rfl

/-- **A written document is read back**, whatever comes after its text. -/
theorem readsBack {document : Json} (h : Exact document) (depth : ℕ) : ReadsBack depth document := by
  induction h generalizing depth with
  | null =>
    intro fuel rest hfuel _
    obtain ⟨fuel, rfl⟩ := Nat.exists_eq_succ_of_ne_zero (Nat.ne_zero_of_lt hfuel)
    rfl
  | bool b =>
    intro fuel rest hfuel _
    obtain ⟨fuel, rfl⟩ := Nat.exists_eq_succ_of_ne_zero (show fuel ≠ 0 by cases b <;> exact Nat.ne_zero_of_lt hfuel)
    cases b with
    | false => rfl
    | true => rfl
  | int short => exact readsBack_int depth short
  | text s => exact readsBack_text depth s
  | list all ih => exact readsBack_list fun item hitem => ⟨all item hitem, ih item hitem (depth + 1)⟩
  | object distinct all ih =>
    exact readsBack_object distinct fun field hfield => ⟨all field hfield, ih field hfield (depth + 1)⟩

/-- **Reading undoes writing.** -/
theorem read_indented {document : Json} (h : Exact document) : read document.indented = .ok document := by
  obtain ⟨c, chars, hchars, hspace, -⟩ := indentedChars_starts h 0
  have hskip : skipSpaces document.indented.toList = indentedChars 0 document := by
    rw [indented, String.toList_ofList, hchars, skipSpaces_cons hspace]
  have hread := readsBack h 0 (2 * (indentedChars 0 document).length + 2) [] (by omega) (by simp [Ends])
  rw [List.append_nil] at hread
  simp only [read, hskip, hread]
  rfl

/-! ## Line breaks -/

theorem return_not_in_control : ∀ n < 0x20, '\r' ∉ Text.hexDigits 4 n := by decide

theorem return_not_escaped (c : Char) : '\r' ∉ escapedChar c := by
  unfold escapedChar
  split_ifs with hquote hslash hfeed hreturn htab hback hform hcontrol
  iterate 7 decide
  · simp [return_not_in_control _ hcontrol]
  · simpa using Ne.symm hreturn

theorem return_not_in_text (s : String) : '\r' ∉ writtenText s := by
  simp [writtenText, return_not_escaped]

theorem return_not_in_newLine (depth : ℕ) : '\r' ∉ newLine depth := by
  simp [newLine, List.mem_replicate]

theorem return_not_in_digits (n : ℕ) : '\r' ∉ Nat.toDigits 10 n := fun h => by
  have hdigit := isDigit_toDigits h
  cases hdigit

theorem return_not_in_items {depth : ℕ} {items : List Json} (h : ∀ item ∈ items, '\r' ∉ indentedChars depth item) :
    '\r' ∉ indentedItems depth items := by
  induction items with
  | nil => simp [indentedItems]
  | cons item more ih =>
    obtain ⟨hitem, hmore⟩ := List.forall_mem_cons.1 h
    cases more with
    | nil => simp [indentedItems, return_not_in_newLine, hitem]
    | cons next others => simp [indentedItems_cons, return_not_in_newLine, hitem, ih hmore]

theorem return_not_in_fields {depth : ℕ} {fields : List (String × Json)}
    (h : ∀ field ∈ fields, '\r' ∉ indentedChars depth field.2) : '\r' ∉ indentedFields depth fields := by
  induction fields with
  | nil => simp [indentedFields]
  | cons field more ih =>
    obtain ⟨name, value⟩ := field
    obtain ⟨hvalue, hmore⟩ := List.forall_mem_cons.1 h
    cases more with
    | nil => simp_all [indentedFields, return_not_in_newLine, return_not_in_text]
    | cons next others => simp_all [indentedFields_cons, return_not_in_newLine, return_not_in_text]

/-- **A written document holds no carriage return.** -/
theorem return_not_in_indented {document : Json} (h : Exact document) (depth : ℕ) : '\r' ∉ indentedChars depth document := by
  induction h generalizing depth with
  | null => rw [indentedChars]; decide
  | bool b => cases b <;> (rw [indentedChars]; decide)
  | @int n short =>
    rw [indentedChars]
    by_cases hn : n < 0
    · rw [text_negative hn]
      simp [return_not_in_digits]
    · rw [text_natural hn]
      exact return_not_in_digits _
  | text s => rw [indentedChars]; exact return_not_in_text s
  | @list items all ih =>
    cases items with
    | nil => rw [indentedChars]; decide
    | cons item more =>
      have hitems := return_not_in_items fun item hitem => ih item hitem (depth + 1)
      simp [indentedChars, return_not_in_newLine, hitems]
  | @object fields distinct all ih =>
    cases fields with
    | nil => rw [indentedChars]; decide
    | cons field more =>
      have hfields := return_not_in_fields fun field hfield => ih field hfield (depth + 1)
      simp [indentedChars, return_not_in_newLine, hfields]

end LetScript.Json
