/-
Texts of values, and the lines of a trace.

A document has an encoding when all its texts have one, the names of fields included (`Json.Encodable`), and a value when all
that would be shown of it has one (`Value.Encodable`). Such a value is shown as a text with an encoding, or holds a number that
is too long to be written: its text is `Writable` (`Value.Encodable.shown_writable`). So are the lines of a trace that are put
together from such values and from names that have an encoding.
-/
import LetScript.Proofs.Encoding

namespace LetScript

/-- a name of a program: a text that has an encoding -/
def IsName (name : Json) : Prop := ∃ text, name = .text text ∧ Text.isEncodable text = true

/-- a line that is taken by every trace, unless it would hold a number that is too long -/
def Writable : Except Abort String → Prop
  | .ok text => Text.isEncodable text = true
  | .error abort => abort = .numeralTooLong

theorem Writable.map {line : Except Abort String} (h : Writable line) {f : String → String}
    (hf : ∀ text, Text.isEncodable text = true → Text.isEncodable (f text) = true) : Writable (line.map f) := by
  cases line with
  | ok text => exact hf text h
  | error abort => exact h

/-- texts that are all taken by every trace, unless one of them would hold a number that is too long -/
def AllWritable : Except Abort (List String) → Prop
  | .ok texts => ∀ text ∈ texts, Text.isEncodable text = true
  | .error abort => abort = .numeralTooLong

theorem AllWritable.cons {first : String} (hfirst : Text.isEncodable first = true) {texts : Except Abort (List String)}
    (h : AllWritable texts) : AllWritable (texts.map (first :: ·)) := by
  cases texts with
  | ok texts => exact List.forall_mem_cons.2 ⟨hfirst, h⟩
  | error abort => exact h

theorem AllWritable.intercalate {separator : String} (hseparator : Text.isEncodable separator = true)
    {texts : Except Abort (List String)} (h : AllWritable texts) : Writable (texts.map separator.intercalate) := by
  cases texts with
  | ok texts => exact Text.isEncodable_intercalate hseparator h
  | error abort => exact h

/-! ## Documents -/

/-- all texts of a document have an encoding -/
inductive Json.Encodable : Json → Prop where
  | null : Json.Encodable .null
  | bool (b : Bool) : Json.Encodable (.bool b)
  | int (n : Int) : Json.Encodable (.int n)
  | float (x : Binary64) : Json.Encodable (.float x)
  | text {s : String} (encodable : Text.isEncodable s = true) : Json.Encodable (.text s)
  | list {items : List Json} (all : ∀ item ∈ items, item.Encodable) : Json.Encodable (.list items)
  | object {fields : List (String × Json)} (names : ∀ field ∈ fields, Text.isEncodable field.1 = true)
      (all : ∀ field ∈ fields, field.2.Encodable) : Json.Encodable (.object fields)

namespace Json.Encodable

theorem items {items : List Json} (h : (Json.list items).Encodable) : ∀ item ∈ items, item.Encodable := by
  cases h with
  | list all => exact all

theorem names {fields : List (String × Json)} (h : (Json.object fields).Encodable) :
    ∀ field ∈ fields, Text.isEncodable field.1 = true := by
  cases h with
  | object names _ => exact names

theorem fields {fields : List (String × Json)} (h : (Json.object fields).Encodable) :
    ∀ field ∈ fields, field.2.Encodable := by
  cases h with
  | object _ all => exact all

theorem ofText {s : String} (h : (Json.text s).Encodable) : Text.isEncodable s = true := by
  cases h with
  | text encodable => exact encodable

mutual

/-- a document is shown in a text with an encoding when its texts have one -/
theorem inspect : (document : Json) → document.Encodable → Text.isEncodable document.inspect = true
  | .null, _ => by decide
  | .bool b, _ => by cases b <;> decide
  | .int n, _ => by
    rw [Json.inspect]
    exact Text.isEncodable_numeral n
  | .float x, _ => by
    rw [Json.inspect]
    exact Text.isEncodable_binary x
  | .text s, h => by
    rw [Json.inspect]
    exact Text.isEncodable_quoted h.ofText
  | .list items, h => by
    rw [Json.inspect, Text.isEncodable_append, Text.isEncodable_append,
      Text.isEncodable_intercalate (by decide) (inspectItems items h.items)]
    decide
  | .object fields, h => by
    rw [Json.inspect, Text.isEncodable_append, Text.isEncodable_append,
      Text.isEncodable_intercalate (by decide) (inspectFields fields h.names h.fields)]
    decide

theorem inspectItems : (items : List Json) → (∀ item ∈ items, item.Encodable) →
    ∀ text ∈ Json.inspectItems items, Text.isEncodable text = true
  | [], _ => by
    rw [Json.inspectItems]
    exact nofun
  | item :: rest, h => by
    rw [List.forall_mem_cons] at h
    rw [Json.inspectItems]
    exact List.forall_mem_cons.2 ⟨inspect item h.1, inspectItems rest h.2⟩

theorem inspectFields : (fields : List (String × Json)) → (∀ field ∈ fields, Text.isEncodable field.1 = true) →
    (∀ field ∈ fields, field.2.Encodable) → ∀ text ∈ Json.inspectFields fields, Text.isEncodable text = true
  | [], _, _ => by
    rw [Json.inspectFields]
    exact nofun
  | (name, value) :: rest, hnames, h => by
    rw [List.forall_mem_cons] at hnames h
    rw [Json.inspectFields]
    refine List.forall_mem_cons.2 ⟨?_, inspectFields rest hnames.2 h.2⟩
    rw [Text.isEncodable_append, Text.isEncodable_append, Text.isEncodable_quoted hnames.1, inspect value h.1]
    decide

end

end Json.Encodable

/-! ## Values -/

/-- all that would be shown of a value has an encoding -/
inductive Value.Encodable : Value → Prop where
  | null : Value.Encodable .null
  | bool (b : Bool) : Value.Encodable (.bool b)
  | int (n : Int) : Value.Encodable (.int n)
  | float (x : Binary64) : Value.Encodable (.float x)
  | text {s : String} (encodable : Text.isEncodable s = true) : Value.Encodable (.text s)
  | list {items : List Value} (all : ∀ item ∈ items, item.Encodable) : Value.Encodable (.list items)
  | record {fields : List (String × Json)} (held : (Json.object fields).Encodable) : Value.Encodable (.record fields)
  | function {params : List Json} (body : Node) (named : ∀ param ∈ params, IsName param) :
      Value.Encodable (.function params body)
  | builtin {name : String} (encodable : Text.isEncodable name = true) : Value.Encodable (.builtin name)

theorem Value.Encodable.items {items : List Value} (h : (Value.list items).Encodable) : ∀ item ∈ items, item.Encodable := by
  cases h with
  | list all => exact all

theorem Value.Encodable.params {params : List Json} {body : Node} (h : (Value.function params body).Encodable) :
    ∀ param ∈ params, IsName param := by
  cases h with
  | function _ named => exact named

theorem Value.Encodable.ofText {s : String} (h : (Value.text s).Encodable) : Text.isEncodable s = true := by
  cases h with
  | text encodable => exact encodable

mutual

/-- the value of a document has an encoding when the document has -/
theorem Json.Encodable.toValue : (document : Json) → document.Encodable → (Value.ofJson document).Encodable
  | .null, _ => .null
  | .bool b, _ => .bool b
  | .int n, _ => .int n
  | .float x, _ => .float x
  | .text _, h => .text h.ofText
  | .list items, h => .list (Json.Encodable.toValues items h.items)
  | .object _, h => .record h

theorem Json.Encodable.toValues : (items : List Json) → (∀ item ∈ items, item.Encodable) →
    ∀ value ∈ Value.ofJsonItems items, value.Encodable
  | [], _ => nofun
  | item :: rest, h =>
    have h' := List.forall_mem_cons.1 h
    List.forall_mem_cons.2 ⟨Json.Encodable.toValue item h'.1, Json.Encodable.toValues rest h'.2⟩

end

theorem toValue_encodable (number : Number) : number.toValue.Encodable := by
  cases number with
  | int n => exact .int n
  | float x => exact .float x

/-! ## What is shown -/

theorem parameterNames_encodable {params : List Json} (h : ∀ param ∈ params, IsName param) :
    ∃ names, Value.parameterNames params = .ok names ∧ ∀ name ∈ names, Text.isEncodable name = true := by
  induction params with
  | nil => exact ⟨[], rfl, fun _ hn => by cases hn⟩
  | cons param rest ih =>
    rw [List.forall_mem_cons] at h
    obtain ⟨name, rfl, hname⟩ := h.1
    obtain ⟨names, hnames, hall⟩ := ih h.2
    refine ⟨name :: names, ?_, List.forall_mem_cons.2 ⟨hname, hall⟩⟩
    rw [Value.parameterNames, hnames]

theorem parameterList_writable {params : List Json} (h : ∀ param ∈ params, IsName param) :
    Writable (Value.parameterList params) := by
  obtain ⟨names, hnames, hall⟩ := parameterNames_encodable h
  rw [Value.parameterList, hnames]
  exact Text.isEncodable_intercalate (by decide) hall

theorem functionText_writable {params : List Json} (h : ∀ param ∈ params, IsName param) :
    Writable ((Value.parameterList params).map fun names => "<fn " ++ names ++ ">") :=
  (parameterList_writable h).map fun names hnames => by
    rw [Text.isEncodable_append, Text.isEncodable_append, hnames]
    decide

theorem write_eq (n : Int) : Numeral.write n = some (Numeral.text n) ∨ Numeral.write n = none := by
  unfold Numeral.write
  by_cases h : n.natAbs < Nat.pow 10 Numeral.digitLimit
  · exact Or.inl (if_pos h)
  · exact Or.inr (if_neg h)

theorem integerText_writable (n : Int) : Writable (Value.integerText n) := by
  unfold Value.integerText
  cases write_eq n with
  | inl hw =>
    rw [hw]
    exact Text.isEncodable_numeral n
  | inr hw =>
    rw [hw]
    rfl

namespace Value

theorem shown_list (items : List Value) : (list items).shown = (itemTexts items).map ",".intercalate := by
  rw [shown]
  cases itemTexts items <;> rfl

theorem shown_function (first : Json) (rest : List Json) (body : Node) :
    (function (first :: rest) body).shown = (parameterList (first :: rest)).map fun names => "<fn " ++ names ++ ">" := by
  rw [shown]
  cases parameterList (first :: rest) <;> rfl

theorem itemTexts_null (rest : List Value) : itemTexts (null :: rest) = (itemTexts rest).map ("" :: ·) := by
  rw [itemTexts]
  cases itemTexts rest <;> rfl

theorem itemTexts_cons {item : Value} (h : item ≠ null) (rest : List Value) :
    itemTexts (item :: rest) = item.shown.bind fun first => (itemTexts rest).map (first :: ·) := by
  rw [itemTexts]
  · cases item.shown with
    | error abort => rfl
    | ok first => cases itemTexts rest <;> rfl
  · exact h

end Value

mutual

/-- the text of a value is writable when all that would be shown has an encoding -/
theorem Value.Encodable.shown_writable : (value : Value) → value.Encodable → Writable value.shown
  | .null, _ => show Text.isEncodable "null" = true by decide
  | .bool b, _ => by
    have hwords : Text.isEncodable "true" = true ∧ Text.isEncodable "false" = true := by decide
    cases b with
    | true => exact hwords.1
    | false => exact hwords.2
  | .int n, _ => by
    rw [Value.shown]
    exact integerText_writable n
  | .float x, _ => by
    rw [Value.shown]
    exact Text.isEncodable_float x
  | .text s, h => h.ofText
  | .list items, h => by
    have htexts := Value.Encodable.itemTexts_writable items h.items
    rw [Value.shown_list]
    exact htexts.intercalate (show Text.isEncodable "," = true by decide)
  | .record fields, h => by
    rw [Value.shown]
    split_ifs
    · cases h with
      | record held => exact Json.Encodable.inspect _ held
    · rfl
  | .function [] _, _ => by
    have hword : Text.isEncodable "<fn>" = true := by decide
    exact hword
  | .function (first :: rest) body, h => by
    rw [Value.shown_function]
    exact functionText_writable h.params
  | .builtin name, h => by
    rw [Value.shown]
    change Text.isEncodable ("<builtin " ++ name ++ ">") = true
    cases h with
    | builtin encodable =>
      rw [Text.isEncodable_append, Text.isEncodable_append, encodable]
      decide

/-- the texts of such items are encodable, unless there is a number that is too long -/
theorem Value.Encodable.itemTexts_writable : (items : List Value) → (∀ item ∈ items, item.Encodable) →
    AllWritable (Value.itemTexts items)
  | [], _ => fun _ h => by cases h
  | item :: rest, h => by
    rw [List.forall_mem_cons] at h
    have hitem := Value.Encodable.shown_writable item h.1
    have hrest := Value.Encodable.itemTexts_writable rest h.2
    -- a null item leaves its place empty
    by_cases hnull : item = .null
    · rw [hnull, Value.itemTexts_null]
      exact hrest.cons (show Text.isEncodable "" = true by decide)
    · rw [Value.itemTexts_cons hnull]
      cases hs : item.shown with
      | error abort =>
        rw [hs] at hitem
        exact hitem
      | ok first =>
        rw [hs] at hitem
        exact hrest.cons hitem

end

/-! ## Lines of a trace -/

namespace Evaluation

/-- a binding can be traced -/
theorem bindingLine_writable {name : Json} (h : IsName name) {before after : String} {line : Except Abort String}
    (hline : Writable line) (hbefore : Text.isEncodable before = true) (hafter : Text.isEncodable after = true) :
    Writable (line.map fun shown => "assign " ++ name.spelled ++ before ++ shown ++ after) := by
  obtain ⟨text, rfl, htext⟩ := h
  have hassign : Text.isEncodable "assign " = true := by decide
  refine hline.map fun shown hshown => ?_
  simp only [Json.spelled, Text.isEncodable_append, htext, hshown, hassign, hbefore, hafter, Bool.and_self]

/-- the binding of a name to a value can be traced -/
theorem valueLine_writable {name : Json} (h : IsName name) {value : Value} (hvalue : value.Encodable) :
    Writable (value.shown.map fun shown => "assign " ++ name.spelled ++ " := " ++ shown) := by
  have hline := bindingLine_writable h (Value.Encodable.shown_writable value hvalue)
    (show Text.isEncodable " := " = true by decide) (show Text.isEncodable "" = true by decide)
  simp only [String.append_empty] at hline
  exact hline

/-- the binding of a name to a function can be traced -/
theorem functionLine_writable {name : Json} (h : IsName name) {params : List Json} (hparams : ∀ param ∈ params, IsName param) :
    Writable ((Value.parameterList params).map fun names => "assign " ++ name.spelled ++ " := <fn " ++ names ++ ">") :=
  bindingLine_writable h (parameterList_writable hparams) (show Text.isEncodable " := <fn " = true by decide)
    (show Text.isEncodable ">" = true by decide)

/-- the call of a name can be traced, and its end -/
theorem callLines_writable {name : Json} (h : IsName name) (given depth : ℕ) :
    Writable (.ok (Event.called name.spelled given depth).line) ∧
      Writable (.ok (Event.returned name.spelled depth).line) := by
  obtain ⟨text, rfl, htext⟩ := h
  exact ⟨(Text.isEncodable_called text given depth).trans htext, (Text.isEncodable_returned text depth).trans htext⟩

theorem roundsLine_writable (times : ℕ) : Writable ((Value.integerText times).map ("loop x" ++ ·)) :=
  (integerText_writable times).map fun text htext => by
    rw [Text.isEncodable_append, htext]
    decide

theorem decisionLine_writable {value : Value} (h : value.Encodable) : Writable (value.shown.map fun shown =>
    "if condition " ++ shown ++ " -> " ++ (if value.isTruthy then "True" else "False")) :=
  (Value.Encodable.shown_writable value h).map fun text htext => by
    have hwords : Text.isEncodable "if condition " = true ∧ Text.isEncodable " -> " = true ∧
        ∀ b, Text.isEncodable (if b = true then "True" else "False") = true := by decide
    simp only [Text.isEncodable_append, htext, hwords, Bool.and_self]

end Evaluation

end LetScript
