/-
Diagnostics point at the text they are about.

A complaint stands at the start of a token or at the end of the last one (`parseSource_complaint`). A fault of a run stands
where the node that it comes from was read: a name or an operator that it mentions is the word at its position, a division by
zero stands at the stroke, and a loop count that is none stands at a token of the count (`Points`).

Positions travel far: they go into the tree, with the tree into scopes and functions, and a fault takes them from a node that
may be evaluated in another scope long after it was read. But every node a run meets is a part of the tree or a literal
(`Read`), and parts of the tree stand where they were read, so faults do (`read_sites`). The result is `diagnostics_point`.
-/
import LetScript.Proofs.Parsing.Complaints
import LetScript.Proofs.Parsing.Places
import LetScript.Proofs.Lexing.Spans
import LetScript.Proofs.Evaluation.Throughout
import LetScript.Proofs.Session.Safety

namespace LetScript

open Evaluation Parsing LetScript.Language

/-! ## Words of a source text -/

/-- a word stands in a source text at a position, and is a token there -/
structure StandsAt (source : String) (position : Int) (word : String) : Prop where
  token : ∃ t ∈ Token.tokenize source, t.position = position ∧ t.lexeme = word
  text : Token.between source.toList position (position + word.length) = word.toList

theorem standsAt_token {source : String} {t : Token} (ht : t ∈ Token.tokenize source) : StandsAt source t.position t.lexeme := by
  refine ⟨⟨t, ht, rfl, rfl⟩, ?_⟩
  obtain ⟨before, after, htext, hposition, hstop, -⟩ := Token.tokenize_at source ht
  rw [← Token.stop, htext, hposition, hstop, Token.between_append]

/-- a token stands inside the text, and so does its end -/
theorem token_inside {source : String} {t : Token} (ht : t ∈ Token.tokenize source) :
    0 ≤ t.position ∧ t.position ≤ t.stop ∧ t.stop ≤ source.length := by
  obtain ⟨before, after, htext, hposition, hstop, -⟩ := Token.tokenize_at source ht
  have hlength := congrArg List.length htext
  rw [List.length_append, String.length_toList] at hlength
  rw [List.length_append] at hstop
  refine ⟨by omega, ?_, ?_⟩
  · rw [hposition, hstop]
    omega
  · rw [hstop]
    rw [List.length_append] at hlength
    omega

/-! ## Complaints -/

/-- **A complaint stands at the start of a token or at the end of the last one.** -/
theorem parseSource_complaint {source : String} {complaint : Complaint}
    (h : parseSource source = .error (.complaint complaint)) :
    (∃ t ∈ Token.tokenize source, t.position = complaint.position) ∨
      ∃ last, (Token.tokenize source).getLast? = some last ∧ last.stop = complaint.position := by
  obtain ⟨u, r, hsplit, hposition⟩ := complaint_ahead (tokenize_ordered source) h
  rw [hposition]
  cases r with
  | cons t ts => exact Or.inl ⟨t, by simp [hsplit], rfl⟩
  | nil =>
    have hlast := List.getLast?_eq_some_getLast (ne_nil_of_error h)
    refine Or.inr ⟨_, hlast, ?_⟩
    simp only [Cursor.ahead, Cursor.stopOf, hlast]

/-! ## Faults -/

/-- a fault stands at the text it is about -/
def Points (source : String) : Fault → Prop
  | .unbound name position => ∃ word, name = .text word ∧ StandsAt source position word
  | .arity name _ _ position => ∃ word, name = .text word ∧ StandsAt source position word
  | .notCallable name _ position => ∃ word, name = .text word ∧ StandsAt source position word
  | .operands operator _ _ position => StandsAt source position operator
  | .overflow operator position => StandsAt source position operator
  | .divisionByZero position => StandsAt source position "/"
  | .loopCount _ _ position =>
    ∃ tree keyword count body, parseSource source = .ok tree ∧ Part (.statements keyword (.text "loop") [count, body]) tree ∧
      LoopAt (Token.tokenize source) keyword count body ∧ count.position = position
  | .unknownOperator _ _ => False
  | .unexpectedNode _ => False

/-- where a fault points, there is a token -/
theorem Points.token {source : String} {fault : Fault} (h : Points source fault) :
    ∃ t ∈ Token.tokenize source, t.position = fault.position := by
  have hword : ∀ {position word}, StandsAt source position word → ∃ t ∈ Token.tokenize source, t.position = position := by
    intro position word hstands
    obtain ⟨t, ht, hposition, -⟩ := hstands.token
    exact ⟨t, ht, hposition⟩
  cases fault with
  | unbound name position =>
    obtain ⟨word, -, hstands⟩ := h
    exact hword hstands
  | arity name expected given position =>
    obtain ⟨word, -, hstands⟩ := h
    exact hword hstands
  | notCallable name found position =>
    obtain ⟨word, -, hstands⟩ := h
    exact hword hstands
  | operands operator left right position => exact hword h
  | overflow operator position => exact hword h
  | divisionByZero position => exact hword h
  | loopCount found shown position =>
    obtain ⟨tree, keyword, count, body, -, -, ⟨before, word, u, v, after, htokens, -, -, -, -, t, ht, hposition⟩, rfl⟩ := h
    exact ⟨t, by simp [htokens, ht], hposition⟩
  | unknownOperator operator position => exact h.elim
  | unexpectedNode position => exact h.elim

/-- a stop that is a fault points at its text -/
def PointsIfFault (source : String) : Stop → Prop
  | .fault fault => Points source fault
  | _ => True

/-- a literal, or a part of a tree that stands where it was read -/
def Read (tokens : List Token) (tree node : Node) : Prop :=
  (∃ position value, node = .literal position value) ∨ Placed tokens node ∧ Part node tree

theorem Read.placed {tokens : List Token} {tree node : Node} (h : Read tokens tree node)
    (hnode : ∀ position value, node ≠ .literal position value) : Placed tokens node ∧ Part node tree :=
  h.resolve_left fun ⟨position, value, heq⟩ => hnode position value heq

theorem isLoop_iff {mode : Json} : isLoop mode = true ↔ mode = .text loopMode := by
  cases mode <;> simp [isLoop, loopMode]

theorem standsAt_word {source : String} {position : Int} {word : Json} (h : WordAt (Token.tokenize source) position word) :
    ∃ text, word = .text text ∧ StandsAt source position text := by
  obtain ⟨t, ht, rfl, rfl⟩ := h
  exact ⟨t.lexeme, rfl, standsAt_token ht⟩

/-- **Nodes that stand where they were read have faults that point there.** -/
theorem read_sites {source : String} {tree : Node} (htree : parseSource source = .ok tree) :
    Sites (Read (Token.tokenize source) tree) (PointsIfFault source) where
  literal position value := Or.inl ⟨position, value, rfl⟩
  abort _ := trivial
  exhausted := trivial
  count {position mode count body} h hloop value := by
    obtain ⟨hplaced, hpart⟩ := h.placed (by simp)
    obtain rfl := isLoop_iff.1 hloop
    obtain ⟨_, _, ⟨⟩, hat⟩ := hplaced rfl
    unfold countStop
    split
    · exact ⟨tree, position, count, body, htree, hpart, hat, rfl⟩
    · exact trivial
  operate {position operator left right} h a b cause hcause := by
    obtain ⟨⟨hword, spelling, hmem, rfl⟩, -⟩ := h.placed (by simp)
    obtain ⟨_, ⟨⟩, hstands⟩ := standsAt_word hword
    have hoperated := Operator.operate_operated position (.text spelling) a b
    rw [hcause] at hoperated
    cases hoperated with
    | operands spelled left right => exact Json.text.inj spelled ▸ hstands
    | overflow spelled => exact Json.text.inj spelled ▸ hstands
    | division spelled =>
      obtain rfl : spelling = "/" := Json.text.inj spelled
      exact hstands
    | unknown unspelled =>
      have hknown := operator_known spelling hmem
      rw [unspelled spelling rfl] at hknown
      cases hknown
    | unusable => exact trivial
  reference h := standsAt_word (h.placed (by simp)).1
  callee h := ⟨standsAt_word (h.placed (by simp)).1, fun _ => standsAt_word (h.placed (by simp)).1⟩
  arity h _ := standsAt_word (h.placed (by simp)).1
  print {position name args} h hname := by
    obtain ⟨word, rfl, hstands⟩ := standsAt_word (h.placed (by simp)).1
    cases hname
    exact ⟨"print", rfl, hstands⟩
  blank h := (h.placed (by simp)).1.elim

/-- the tree of a source text is read from it throughout -/
theorem parseSource_read {source : String} {tree : Node} (h : parseSource source = .ok tree) :
    tree.Throughout (Read (Token.tokenize source) tree) := by
  have hplaced := parseSource_placed h
  refine .of_parts (fun part hpart => Or.inr ⟨hplaced part hpart, hpart⟩) fun position value hpart => ?_
  obtain ⟨n, rfl⟩ := hplaced _ hpart
  exact .intro nofun nofun

/-! ## Runs -/

namespace Session

/-- a fault of a source text points at its text -/
theorem runSource_fault (settings : Session) {source : String} {fault : Fault}
    (h : ({ settings with scope := .empty }.runSource source).1 = .error (.stop (.fault fault))) : Points source fault := by
  cases hparse : parseSource source with
  | error error =>
    obtain ⟨failure, hrun, hstop⟩ := runSource_of_error { settings with scope := .empty } hparse
    rw [hrun] at h
    cases h
    exact absurd rfl (hstop _)
  | ok tree =>
    have hstays := evaluate_stays (read_sites hparse) { settings with scope := .empty }.tracing settings.budget
      (parseSource_read hparse) ⟨.empty, []⟩ (holds_empty _)
    rcases hrun : evaluate { settings with scope := .empty }.tracing settings.budget tree ⟨.empty, []⟩ with ⟨outcome, last⟩
    rw [runSource_of_ok _ hparse, execute_tree _ hrun] at h
    rw [hrun] at hstays
    cases outcome with
    | ok value => cases h
    | error stop =>
      cases h
      exact hstays.1

/-- a complaint about a source text is the parser's -/
theorem runSource_complaint {session : Session} {source : String} {complaint : Complaint}
    (h : (session.runSource source).1 = .error (.complaint complaint)) : parseSource source = .error (.complaint complaint) := by
  cases hparse : parseSource source with
  | error error =>
    simp only [runSource, hparse] at h
    cases error with
    | complaint found =>
      cases h
      rfl
    | unreadable token => cases h
  | ok tree =>
    rcases hrun : evaluate session.tracing session.budget tree ⟨session.scope, []⟩ with ⟨outcome, last⟩
    rw [runSource_of_ok _ hparse, execute_tree _ hrun] at h
    cases outcome with
    | ok value => cases h
    | error stop => cases h

/-- **Diagnostics point at the text they are about.** Let a source text be run with nothing bound. A complaint stands at the
start of a token or at the end of the last one, a fault stands at the text it is about, and both stand inside the source
text. -/
theorem diagnostics_point (settings : Session) (source : String) :
    (∀ complaint, ({ settings with scope := .empty }.runSource source).1 = .error (.complaint complaint) →
      0 ≤ complaint.position ∧ complaint.position ≤ (source.length : Int) ∧
        ((∃ t ∈ Token.tokenize source, t.position = complaint.position) ∨
          ∃ last, (Token.tokenize source).getLast? = some last ∧ last.stop = complaint.position)) ∧
    ∀ fault, ({ settings with scope := .empty }.runSource source).1 = .error (.stop (.fault fault)) →
      0 ≤ fault.position ∧ fault.position ≤ (source.length : Int) ∧ Points source fault := by
  refine ⟨fun complaint h => ?_, fun fault h => ?_⟩
  · have hplace := parseSource_complaint (runSource_complaint h)
    rcases id hplace with ⟨t, ht, hposition⟩ | ⟨last, hlast, hstop⟩
    · obtain ⟨hlow, hword, hhigh⟩ := token_inside ht
      exact ⟨by omega, by omega, hplace⟩
    · obtain ⟨hlow, hword, hhigh⟩ := token_inside (List.mem_of_getLast? hlast)
      exact ⟨by omega, by omega, hplace⟩
  · have hpoints := runSource_fault settings h
    obtain ⟨t, ht, hposition⟩ := hpoints.token
    obtain ⟨hlow, hword, hhigh⟩ := token_inside ht
    exact ⟨by omega, by omega, hpoints⟩

/-- the divisor of a function is bound after it, and to zero -/
def lateDivisor : String := "let f := \\ n -> n / z;\nlet z := 0; f 1"

/-- where an outcome that is a division by zero stands -/
def divisionAt? : Except Failure Value → Option Int
  | .error (.stop (.fault (.divisionByZero position))) => some position
  | _ => none

theorem eq_of_divisionAt? {outcome : Except Failure Value} {position : Int} (h : divisionAt? outcome = some position) :
    outcome = .error (.stop (.fault (.divisionByZero position))) := by
  unfold divisionAt? at h
  split at h
  · cases h
    rfl
  · cases h

/-- the fault stands in the body of the function -/
theorem diagnostics_point_division :
    ((start 0 plainChannels).runSource lateDivisor).1 = .error (.stop (.fault (.divisionByZero 18))) ∧
      StandsAt lateDivisor 18 "/" := by
  have hdivision : divisionAt? ((start 0 plainChannels).runSource lateDivisor).1 = some 18 := by decide +kernel
  have hrun := eq_of_divisionAt? hdivision
  exact ⟨hrun, ((diagnostics_point (start 0 plainChannels) lateDivisor).2 _ hrun).2.2⟩

end Session

end LetScript
