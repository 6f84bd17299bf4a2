/-
Documents run without internal errors.

A tree that is read from a document can be stranger than any that the parser makes: bindings and loops stand for operands,
operators are unknown, null, lists, objects and decimals are literals. Let the texts of the document have encodings, let names,
operators and parameters be texts, and let loops have a count and a body (`Node.Runs`). Then evaluation stays among such nodes
and among values whose texts have encodings (`stored_inductive`), and the only abort it comes to is at a number that is too long
to be shown. So every run of such trees on a session in which only such trees were run ends in a value, a fault, that abort, or
with its budget used up: `documents_accounted`.
-/
import LetScript.Proofs.Interchange
import LetScript.Proofs.Evaluation.Containment
import LetScript.Proofs.Session.Scopes

namespace LetScript

open Evaluation Interchange

/-! ## Nodes of documents -/

/-- the names, the operator and the parameters of a node are texts, and a loop has a count and a body -/
def Node.Textual : Node → Prop
  | .statements _ mode nodes => isLoop mode = true → nodes.length = 2
  | .operation _ operator _ _ => ∃ text, operator = .text text
  | .reference _ name => ∃ text, name = .text text
  | .assign _ name _ => ∃ text, name = .text text
  | .lambda _ params _ => ∀ param ∈ params, ∃ text, param = .text text
  | .call _ name _ => ∃ text, name = .text text
  | _ => True

/-- a tree that is read from a document with encodings for its texts, and all of whose nodes are textual -/
def Node.Runs (node : Node) : Prop :=
  (∃ document : Json, document.Encodable ∧ read document = .ok node) ∧ ∀ part, Part part node → part.Textual

/-- a textual node whose payload has an encoding -/
def Node.Sound (node : Node) : Prop := node.Textual ∧ node.payload.Encodable

theorem parametersOf_encodable {payload : Json} (h : payload.Encodable) {params : List Json}
    (hparams : parametersOf payload = .ok params) : ∀ param ∈ params, param.Encodable := by
  cases h with
  | list all =>
    cases hparams
    exact all
  | text encodable =>
    cases hparams
    intro param hparam
    obtain ⟨c, hc, rfl⟩ := List.mem_map.1 hparam
    refine .text ((Text.isEncodable_iff _).2 ?_)
    rw [String.toList_singleton]
    exact List.forall_mem_singleton.2 ((Text.isEncodable_iff _).1 encodable c hc)
  | object names all =>
    cases hparams
    intro param hparam
    obtain ⟨field, hfield, rfl⟩ := List.mem_map.1 hparam
    exact .text (names field hfield)
  | _ => cases hparams

/-- a node gets its payload from the document -/
theorem assemble_encodable {kind : NodeKind} {position : Int} {payload : Json} {nodes : List Node} {node : Node}
    (h : payload.Encodable) (hnode : assemble kind position payload nodes = .ok node) : node.payload.Encodable := by
  have hpayload := Json.Encodable.toValue payload h
  unfold assemble at hnode
  split at hnode
  case h_1 =>
    cases hnode
    by_cases hpresent : payload.isPresent = true
    · rw [if_pos hpresent]
      exact hpayload
    · rw [if_neg hpresent]
      exact Value.Encodable.text (show Text.isEncodable "" = true by decide)
  case h_6 =>
    obtain ⟨params, hparams, rfl⟩ := (map_eq_ok_iff _ _ _).1 hnode
    exact .list (Json.Encodable.toValues params (parametersOf_encodable h hparams))
  case h_8 =>
    cases hnode
    exact .null
  case h_9 => cases hnode
  all_goals
    cases hnode
    exact hpayload

/-- **The payloads of a tree have encodings when the texts of its document have.** -/
theorem read_encodable {document : Json} (h : document.Encodable) {node : Node} (hread : read document = .ok node) :
    ∀ part, Part part node → part.payload.Encodable :=
  read_parts ⟨.null, Json.Encodable.items, Json.Encodable.fields, assemble_encodable⟩ document h hread

theorem isName_of_text {name : Json} (htext : ∃ text, name = .text text) (h : (Value.ofJson name).Encodable) :
    IsName name := by
  obtain ⟨text, rfl⟩ := htext
  exact ⟨text, rfl, Value.Encodable.ofText h⟩

theorem isName_of_texts {params : List Json} (htexts : ∀ param ∈ params, ∃ text, param = .text text)
    (h : ∀ value ∈ Value.ofJsonItems params, value.Encodable) : ∀ param ∈ params, IsName param := by
  induction params with
  | nil => exact nofun
  | cons param rest ih =>
    rw [List.forall_mem_cons] at htexts
    rw [Value.ofJsonItems, List.forall_mem_cons] at h
    exact List.forall_mem_cons.2 ⟨isName_of_text htexts.1 h.1, ih htexts.2 h.2⟩

/-- a stop that such a tree may come to: any fault, and of the aborts only that at a number that is too long -/
def Stop.Accounted : Stop → Prop
  | .abort cause => cause = .numeralTooLong
  | _ => True

namespace Evaluation

open Run

/-! ## The invariant -/

/-- what the trees, values, stops and trace lines of documents have in common -/
def stored : Invariant :=
  ⟨Node.Throughout Node.Sound, fun value => value.Encodable ∧ value.Throughout Node.Sound, Stop.Accounted, Writable⟩

theorem stored_traceable : stored.Traceable := ⟨id, rfl⟩

theorem stored_binds {name : Json} (h : IsName name) : stored.Binds name := by
  obtain ⟨text, rfl, -⟩ := h
  exact nofun

theorem stored_fetches {name : Json} (h : IsName name) (position : Int) : stored.Fetches name position :=
  ⟨stored_binds h, trivial⟩

/-- an operation whose operator is a text ends in a number, a truth value or a fault -/
theorem stored_operate (position : Int) (spelling : String) (a b : Value) :
    stored.Outcome (Operator.operate position (.text spelling) a b) := by
  cases houtcome : Operator.operate position (.text spelling) a b with
  | ok value =>
    refine ⟨?_, Value.Throughout.operate houtcome⟩
    have hoperated := Operator.operate_operated position (.text spelling) a b
    rw [houtcome] at hoperated
    cases hoperated with
    | number result => exact toValue_encodable result
    | answer truth => exact .bool truth
  | error stop =>
    simp only [Operator.operate] at houtcome
    cases hknown : Operator.ofLabel? spelling with
    | none =>
      rw [hknown] at houtcome
      cases houtcome
      trivial
    | some operator =>
      rw [hknown] at houtcome
      dsimp only at houtcome
      cases hvalues : operator.onValues position a b with
      | ok value =>
        rw [hvalues] at houtcome
        cases houtcome
      | error fault =>
        rw [hvalues] at houtcome
        cases houtcome
        trivial

theorem countStop_accounted {value : Value} (h : value.Encodable) (position : Int) : (countStop value position).Accounted := by
  have hshown := Value.Encodable.shown_writable value h
  unfold countStop
  cases hs : value.shown with
  | ok shown => trivial
  | error abort =>
    rw [hs] at hshown
    exact hshown

/-- a node of a document has what it needs -/
theorem stored_needs {node : Node} (h : stored.node node) : stored.Needs node := by
  obtain ⟨htextual, hpayload⟩ := Node.Throughout.here h
  have hchildren := Node.Throughout.children h
  cases node with
  | statements position mode nodes =>
    refine ⟨hchildren, fun hloop hpair => ?_, fun count body _ _ value hvalue => countStop_accounted hvalue.1 _⟩
    obtain ⟨count, body, rfl⟩ := List.length_eq_two.1 (htextual hloop)
    exact absurd rfl (hpair count body)
  | operation position operator left right =>
    obtain ⟨spelling, rfl⟩ := htextual
    exact ⟨hchildren left (by simp [Node.children]), hchildren right (by simp [Node.children]),
      fun a b _ _ => stored_operate position spelling a b⟩
  | literal position value => exact ⟨hpayload, Node.Throughout.held h⟩
  | reference position name => exact stored_fetches (isName_of_text htextual hpayload) position
  | assign position name expression =>
    have hname := isName_of_text htextual hpayload
    have hexpression := hchildren expression (by simp [Node.children])
    refine ⟨hexpression, stored_binds hname, fun value hvalue => valueLine_writable hname hvalue.1, ?_⟩
    rintro place params body rfl
    obtain ⟨htexts, hparams⟩ := Node.Throughout.here hexpression
    exact functionLine_writable hname (isName_of_texts htexts hparams.items)
  | lambda position params body =>
    exact ⟨.function body (isName_of_texts htextual hpayload.items),
      .function params (hchildren body (by simp [Node.children]))⟩
  | call position name args =>
    have hname := isName_of_text htextual hpayload
    refine ⟨hchildren, ?_⟩
    split
    · next hkey => exact stored_binds hname hkey
    · split_ifs
      · exact trivial
      · exact ⟨stored_fetches hname position, fun _ => trivial, fun _ => trivial,
          fun depth => (callLines_writable hname args.length depth).1,
          fun depth => (callLines_writable hname args.length depth).2⟩
  | conditional position condition consequent alternative =>
    exact ⟨hchildren condition (by simp [Node.children]), hchildren consequent (by simp [Node.children]),
      hchildren alternative (by simp [Node.children])⟩
  | blank position => exact trivial

/-- **Evaluation stays among the trees and values of documents.** -/
theorem stored_inductive : stored.Inductive where
  needs := stored_needs
  list h := ⟨.list fun value hvalue => (h value hvalue).1, .list fun value hvalue => (h value hvalue).2⟩
  marker := ⟨.text (by decide), .text "fn"⟩
  shown {value text} hvalue htext := by
    have hshown := Value.Encodable.shown_writable value hvalue.1
    rw [htext] at hshown
    exact ⟨.text hshown, .text text⟩
  unshown {value abort} hvalue habort := by
    have hshown := Value.Encodable.shown_writable value hvalue.1
    rw [habort] at hshown
    exact hshown
  body h := h.2.body
  params h param hparam := stored_binds (h.1.params param hparam)
  actual _ hvalue := .intro ⟨trivial, hvalue.1⟩ nofun (by rintro _ _ ⟨⟩; exact hvalue.2)
  rounds times := roundsLine_writable times
  decided {value} hvalue := decisionLine_writable hvalue.1
  exhausted := trivial

mutual

/-- the value of a document holds no nodes -/
theorem throughout_ofJson (P : Node → Prop) : (document : Json) → (Value.ofJson document).Throughout P
  | .list items => .list (throughout_ofJsonItems P items)
  | .null => .intro nofun nofun
  | .bool _ => .intro nofun nofun
  | .int _ => .intro nofun nofun
  | .float _ => .intro nofun nofun
  | .text _ => .intro nofun nofun
  | .object _ => .intro nofun nofun

theorem throughout_ofJsonItems (P : Node → Prop) : (items : List Json) →
    ∀ value ∈ Value.ofJsonItems items, value.Throughout P
  | [] => nofun
  | item :: rest => List.forall_mem_cons.2 ⟨throughout_ofJson P item, throughout_ofJsonItems P rest⟩

end

theorem stored_of_runs {node : Node} (h : node.Runs) : stored.node node := by
  obtain ⟨⟨document, hdocument, hread⟩, htextual⟩ := h
  refine Node.Throughout.of_parts (fun part hpart => ⟨htextual part hpart, read_encodable hdocument hread part hpart⟩)
    fun position value hpart => ?_
  obtain ⟨literal, rfl⟩ := read_stored document hread _ hpart
  exact throughout_ofJson _ literal

end Evaluation

/-! ## Sessions -/

namespace Session

/-- how a run may end: in a value, in a fault, at a number that is too long to be shown, or with its budget used up -/
inductive Accounted : Except Failure Value → Prop where
  | value (value : Value) : Accounted (.ok value)
  | fault (fault : Fault) : Accounted (.error (.stop (.fault fault)))
  | numeralTooLong : Accounted (.error (.stop (.abort .numeralTooLong)))
  | exhausted : Accounted (.error (.stop .exhausted))

/-- one tree on a session in which all that is bound came from such trees -/
theorem execute_accounted {session : Session} (h : Holds stored.node session.scope) {node : Node} (hnode : node.Runs) :
    Accounted (session.execute (.tree node)).1 ∧ Holds stored.node (session.execute (.tree node)).2.2.scope := by
  obtain ⟨hmeets, hholds, -⟩ := evaluate_confined stored_traceable stored_inductive session.tracing session.budget
    (stored_of_runs hnode) ⟨session.scope, []⟩ h
  rcases hrun : evaluate session.tracing session.budget node ⟨session.scope, []⟩ with ⟨outcome, last⟩
  rw [hrun] at hmeets hholds
  rw [execute_tree session hrun]
  refine ⟨?_, hholds⟩
  cases outcome with
  | ok value => exact .value value
  | error stop =>
    cases stop with
    | fault fault => exact .fault fault
    | abort abort =>
      obtain rfl : abort = .numeralTooLong := hmeets
      exact .numeralTooLong
    | exhausted => exact .exhausted

theorem executeAll_accounted {session : Session} (h : Holds stored.node session.scope) {nodes : List Node}
    (hnodes : ∀ node ∈ nodes, node.Runs) : ∀ result ∈ session.executeAll (nodes.map .tree), Accounted result.1 := by
  induction nodes generalizing session with
  | nil =>
    intro result hresult
    cases hresult
  | cons node rest ih =>
    rw [List.forall_mem_cons] at hnodes
    obtain ⟨hfirst, hnext⟩ := execute_accounted h hnodes.1
    simp only [List.map_cons, executeAll, List.forall_mem_cons]
    exact ⟨hfirst, ih hnext hnodes.2⟩

/-- **Trees of documents run without internal errors**: whatever such trees are run one after the other, whatever is traced and
however deep evaluation may nest, each run ends as it may. -/
theorem documents_accounted (settings : Session) (nodes : List Node) (h : ∀ node ∈ nodes, node.Runs) :
    ∀ result ∈ executeAll { settings with scope := .empty } (nodes.map .tree), Accounted result.1 :=
  executeAll_accounted (holds_empty _) h

/-- a document for the sum of an object and null -/
def strangeSum : Json :=
  .object [("kind", .text "OP"), ("value", .text "+"), ("nodes", .list [
    .object [("kind", .text "VALUE"), ("value", .object [("a", .null)])], .object [("kind", .text "VALUE")]])]

/-- the tree of that document -/
def strangeSumTree : Node := .operation 0 (.text "+") (.literal 0 (.record [("a", .null)])) (.literal 0 .null)

/-- the sum, run twice with everything traced -/
theorem documents_accounted_twice :
    (∀ node ∈ [strangeSumTree, strangeSumTree], node.Runs) ∧
      ∀ result ∈ executeAll { start 3 plainChannels with scope := .empty } ([strangeSumTree, strangeSumTree].map .tree),
        Accounted result.1 := by
  have hobject : (Json.object [("kind", .text "VALUE"), ("value", .object [("a", .null)])]).Encodable := by
    refine .object (by decide) ?_
    simp only [List.forall_mem_cons]
    exact ⟨.text (by decide), .object (by decide) (List.forall_mem_singleton.2 .null), nofun⟩
  have hnull : (Json.object [("kind", .text "VALUE")]).Encodable :=
    .object (by decide) (List.forall_mem_singleton.2 (.text (by decide)))
  have hsum : strangeSum.Encodable := by
    refine .object (by decide) ?_
    simp only [List.forall_mem_cons]
    exact ⟨.text (by decide), .text (by decide), .list (by simp [hobject, hnull]), nofun⟩
  have hruns : strangeSumTree.Runs := by
    refine ⟨⟨strangeSum, hsum, rfl⟩, forall_part_iff.2 ⟨⟨"+", rfl⟩, fun child hchild part hpart => ?_⟩⟩
    simp only [strangeSumTree, Node.children, List.mem_cons, List.not_mem_nil, or_false] at hchild
    rcases hchild with rfl | rfl
    all_goals
      cases hpart with
      | self => trivial
      | inner hinner _ => cases hinner
  have hall : ∀ node ∈ [strangeSumTree, strangeSumTree], node.Runs := by simp [hruns]
  exact ⟨hall, documents_accounted (start 3 plainChannels) _ hall⟩

end Session

end LetScript
