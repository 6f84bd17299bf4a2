/-
Trees survive being written and read.

Reading brings a document into a normal form (`Normal`): a missing position is zero, an empty mode is the empty text, a
conditional has no payload. Writing is the same for all kinds of nodes in terms of their parts (`write_eq_ok_iff`), and it
fails only at literals that are no scalars. So whatever was read and can be written is read back as the same tree, and so is
every tree that the parser makes: `written_tree_reads_back`.
-/
import LetScript.Tree.Interchange
import LetScript.Proofs.Tree
import LetScript.Proofs.Parsing.Construction

namespace LetScript.Interchange

/-! ## Writing by parts -/

/-- the part of a node that is no node, as far as it can be written -/
def payload? : Node → Option Json
  | .statements _ mode _ => some mode
  | .operation _ operator _ _ => some operator
  | .literal _ value => scalar? value
  | .reference _ name => some name
  | .assign _ name _ => some name
  | .lambda _ params _ => some (.list params)
  | .call _ name _ => some name
  | .conditional .. => some .null
  | .blank _ => none

theorem map_eq_ok_iff {ε α β : Type} (outcome : Except ε α) (f : α → β) (b : β) :
    outcome.map f = .ok b ↔ ∃ a, outcome = .ok a ∧ b = f a := by
  cases outcome with
  | error e => simp [Except.map]
  | ok a => simp [Except.map, eq_comm]

theorem bind_eq_ok_iff {ε α β : Type} (outcome : Except ε α) (go : α → Except ε β) (b : β) :
    outcome >>= go = .ok b ↔ ∃ a, outcome = .ok a ∧ go a = .ok b := by
  cases outcome with
  | error e => simp [bind, Except.bind]
  | ok a => simp [bind, Except.bind]

@[simp] theorem writeAll_nil : writeAll [] = .ok [] := by rw [writeAll]

theorem writeAll_cons_eq_ok_iff (node : Node) (rest : List Node) (written : List Json) :
    writeAll (node :: rest) = .ok written ↔
      ∃ first others, write node = .ok first ∧ writeAll rest = .ok others ∧ written = first :: others := by
  rw [writeAll]
  cases write node with
  | error refusal => simp
  | ok first => simp [map_eq_ok_iff]

/-- **A node is written when its payload and its children can be**, as an object that names its kind, its position and these. -/
theorem write_eq_ok_iff (node : Node) (written : Json) :
    write node = .ok written ↔ ∃ kind payload nodes, node.kind? = some kind ∧ payload? node = some payload ∧
      writeAll node.children = .ok nodes ∧ written = nodeObject kind node.position payload nodes := by
  cases node with
  | statements position mode nodes => simp [write, map_eq_ok_iff, Node.kind?, payload?, Node.children, Node.position]
  | operation position operator left right =>
    simp only [write, Node.kind?, payload?, Node.children, writeAll_cons_eq_ok_iff, Node.position]
    cases write left with
    | error refusal => simp
    | ok l => simp [map_eq_ok_iff]
  | literal position value =>
    simp only [write, Node.kind?, payload?, Node.children, Node.position]
    cases scalar? value with
    | none => simp
    | some payload => simp [eq_comm]
  | reference position name => simp [write, Node.kind?, payload?, Node.children, Node.position, eq_comm]
  | assign position name expression =>
    simp [write, Node.kind?, payload?, Node.children, Node.position, writeAll_cons_eq_ok_iff, map_eq_ok_iff]
  | lambda position params body =>
    simp [write, Node.kind?, payload?, Node.children, Node.position, writeAll_cons_eq_ok_iff, map_eq_ok_iff]
  | call position name args => simp [write, map_eq_ok_iff, Node.kind?, payload?, Node.children, Node.position]
  | conditional position condition consequent alternative =>
    simp only [write, Node.kind?, payload?, Node.children, writeAll_cons_eq_ok_iff, Node.position]
    cases write condition with
    | error refusal => simp
    | ok c =>
      cases write consequent with
      | error refusal => simp
      | ok t => simp [map_eq_ok_iff]
  | blank position => simp [write, Node.kind?]

/-- nodes are written when each of them is -/
theorem exists_writeAll_iff (nodes : List Node) :
    (∃ written, writeAll nodes = .ok written) ↔ ∀ node ∈ nodes, ∃ written, write node = .ok written := by
  induction nodes with
  | nil => simp
  | cons node rest ih =>
    rw [List.forall_mem_cons, ← ih]
    simp only [writeAll_cons_eq_ok_iff]
    constructor
    · rintro ⟨written, first, others, hfirst, hothers, -⟩
      exact ⟨⟨first, hfirst⟩, ⟨others, hothers⟩⟩
    · rintro ⟨⟨first, hfirst⟩, ⟨others, hothers⟩⟩
      exact ⟨first :: others, first, others, hfirst, hothers, rfl⟩

/-- **A tree is written when all its parts have payloads that can be.** -/
theorem exists_write_iff (node : Node) :
    (∃ written, write node = .ok written) ↔ ∀ part, Part part node → (payload? part).isSome = true := by
  induction node using Node.inductionOnChildren with
  | step node ih =>
    rw [forall_part_iff]
    have hchildren : (∀ child ∈ node.children, ∃ written, write child = .ok written) ↔
        ∀ child ∈ node.children, ∀ part, Part part child → (payload? part).isSome = true :=
      forall₂_congr ih
    rw [← hchildren, ← exists_writeAll_iff]
    constructor
    · rintro ⟨written, hwritten⟩
      obtain ⟨kind, payload, nodes, -, hpayload, hnodes, -⟩ := (write_eq_ok_iff node written).1 hwritten
      exact ⟨by rw [hpayload]; rfl, nodes, hnodes⟩
    · rintro ⟨hpayload, nodes, hnodes⟩
      obtain ⟨payload, hpayload⟩ := Option.isSome_iff_exists.1 hpayload
      obtain ⟨kind, hkind⟩ : ∃ kind, node.kind? = some kind := by
        cases node with
        | blank position => cases hpayload
        | _ => exact ⟨_, rfl⟩
      exact ⟨_, (write_eq_ok_iff node _).2 ⟨kind, payload, nodes, hkind, hpayload, hnodes, rfl⟩⟩

/-! ## What reading makes -/

/-- a node as it is after reading: the mode of statements stands for something or is the empty text, and a literal is that of a
document -/
def Normal : Node → Prop
  | .statements _ mode _ => mode.isPresent = true ∨ mode = .text ""
  | .literal _ value => ∃ document, value = Value.ofJson document
  | .blank _ => False
  | _ => True

/-- all parts of a tree are as they are after reading -/
def Stored (node : Node) : Prop := ∀ part, Part part node → Normal part

theorem assemble_children {kind : NodeKind} {position : Int} {payload : Json} {nodes : List Node} {node : Node}
    (h : assemble kind position payload nodes = .ok node) : node.children = nodes := by
  unfold assemble at h
  split at h
  case h_6 =>
    obtain ⟨params, -, rfl⟩ := (map_eq_ok_iff _ _ _).1 h
    rfl
  case h_9 => cases h
  all_goals
    cases h
    rfl

theorem assemble_normal {kind : NodeKind} {position : Int} {payload : Json} {nodes : List Node} {node : Node}
    (h : assemble kind position payload nodes = .ok node) : Normal node := by
  unfold assemble at h
  split at h
  case h_1 =>
    cases h
    by_cases hpresent : payload.isPresent = true
    · exact Or.inl (by rw [if_pos hpresent]; exact hpresent)
    · exact Or.inr (if_neg hpresent)
  case h_3 =>
    cases h
    exact ⟨payload, rfl⟩
  case h_6 =>
    obtain ⟨params, -, rfl⟩ := (map_eq_ok_iff _ _ _).1 h
    trivial
  case h_9 => cases h
  all_goals
    cases h
    trivial

theorem build_eq_ok_iff (fields : List (String × Json)) (children : Except Refusal (List Node)) (node : Node) :
    build fields children = .ok node ↔ ∃ kind nodes position,
      kindOf ((Json.field? "kind" fields).getD .null) = .ok kind ∧ children = .ok nodes ∧
      countFits kind nodes.length = .ok () ∧ positionOf ((Json.field? "position" fields).getD (.int 0)) = .ok position ∧
      assemble kind position ((Json.field? "value" fields).getD .null) nodes = .ok node := by
  simp only [build, bind_eq_ok_iff]
  constructor
  · rintro ⟨kind, hkind, nodes, hnodes, ⟨⟩, hcount, position, hposition, hnode⟩
    exact ⟨kind, nodes, position, hkind, hnodes, hcount, hposition, hnode⟩
  · rintro ⟨kind, nodes, position, hkind, hnodes, hcount, hposition, hnode⟩
    exact ⟨kind, hkind, nodes, hnodes, (), hcount, position, hposition, hnode⟩

theorem readAll_cons_eq_ok_iff (item : Json) (rest : List Json) (nodes : List Node) :
    readAll (item :: rest) = .ok nodes ↔
      ∃ first others, read item = .ok first ∧ readAll rest = .ok others ∧ nodes = first :: others := by
  rw [readAll]
  cases read item with
  | error refusal => simp
  | ok first =>
    cases readAll rest with
    | error refusal => simp
    | ok others => simp [eq_comm]

/-- only a list lists children -/
theorem childrenFrom_unlisted {value : Json} {nodes : List Node} (h : childrenFrom value = .ok nodes)
    (hvalue : ∀ items, value ≠ .list items) : nodes = [] := by
  cases value with
  | list items => exact absurd rfl (hvalue items)
  | null =>
    rw [childrenFrom] at h
    cases h
    rfl
  | _ =>
    rw [childrenFrom] at h
    split_ifs at h
    cases h
    rfl

theorem mem_of_field? {name : String} {fields : List (String × Json)} {value : Json}
    (h : Json.field? name fields = some value) : ∃ field ∈ fields, field.2 = value := by
  induction fields with
  | nil => cases h
  | cons field rest ih =>
    rw [Json.field?] at h
    split_ifs at h
    · exact ⟨field, List.mem_cons_self, Option.some.inj h⟩
    · obtain ⟨other, hother, hvalue⟩ := ih h
      exact ⟨other, List.mem_cons_of_mem _ hother, hvalue⟩

/-- what a document passes on to its items and fields, null has, and a payload gives to its node -/
structure Inherited (G : Json → Prop) (P : Node → Prop) : Prop where
  null : G .null
  items : ∀ {items}, G (.list items) → ∀ item ∈ items, G item
  fields : ∀ {fields}, G (.object fields) → ∀ field ∈ fields, G field.2
  node : ∀ {kind position payload nodes node}, G payload → assemble kind position payload nodes = .ok node → P node

variable {G : Json → Prop} {P : Node → Prop}

theorem Inherited.payload (hI : Inherited G P) {fields : List (String × Json)} (h : ∀ field ∈ fields, G field.2) (name : String) :
    G ((Json.field? name fields).getD .null) := by
  cases hfield : Json.field? name fields with
  | none => exact hI.null
  | some value =>
    obtain ⟨field, hmem, rfl⟩ := mem_of_field? hfield
    exact h field hmem

mutual

/-- **What payloads give to their nodes, all parts of a tree have that was read.** -/
theorem read_parts (hI : Inherited G P) : (document : Json) → G document → {node : Node} → read document = .ok node →
    ∀ part, Part part node → P part
  | .object fields, hdocument, node, h => by
    rw [read] at h
    obtain ⟨kind, nodes, position, -, hnodes, -, -, hnode⟩ := (build_eq_ok_iff _ _ _).1 h
    have hchildren := childrenIn_parts hI fields (hI.fields hdocument) hnodes
    rw [← assemble_children hnode] at hchildren
    exact forall_part_iff.2 ⟨hI.node (hI.payload (hI.fields hdocument) "value") hnode, hchildren⟩

theorem childrenIn_parts (hI : Inherited G P) : (fields : List (String × Json)) → (∀ field ∈ fields, G field.2) →
    {nodes : List Node} → childrenIn fields = .ok nodes → ∀ node ∈ nodes, ∀ part, Part part node → P part
  | [], _, nodes, h => by
    rw [childrenIn] at h
    cases h
    exact nofun
  | (name, value) :: rest, hfields, nodes, h => by
    rw [List.forall_mem_cons] at hfields
    rw [childrenIn] at h
    split_ifs at h
    · exact childrenFrom_parts hI value hfields.1 h
    · exact childrenIn_parts hI rest hfields.2 h

theorem childrenFrom_parts (hI : Inherited G P) : (value : Json) → G value → {nodes : List Node} →
    childrenFrom value = .ok nodes → ∀ node ∈ nodes, ∀ part, Part part node → P part
  | .list items, hvalue, nodes, h => by
    rw [childrenFrom] at h
    exact readAll_parts hI items (hI.items hvalue) h
  | .null, _, nodes, h => by simp [childrenFrom_unlisted h nofun]
  | .bool _, _, nodes, h => by simp [childrenFrom_unlisted h nofun]
  | .int _, _, nodes, h => by simp [childrenFrom_unlisted h nofun]
  | .float _, _, nodes, h => by simp [childrenFrom_unlisted h nofun]
  | .text _, _, nodes, h => by simp [childrenFrom_unlisted h nofun]
  | .object _, _, nodes, h => by simp [childrenFrom_unlisted h nofun]

theorem readAll_parts (hI : Inherited G P) : (items : List Json) → (∀ item ∈ items, G item) → {nodes : List Node} →
    readAll items = .ok nodes → ∀ node ∈ nodes, ∀ part, Part part node → P part
  | [], _, nodes, h => by
    rw [readAll] at h
    cases h
    exact nofun
  | item :: rest, hitems, nodes, h => by
    rw [List.forall_mem_cons] at hitems
    obtain ⟨first, others, hfirst, hothers, rfl⟩ := (readAll_cons_eq_ok_iff _ _ _).1 h
    exact List.forall_mem_cons.2 ⟨read_parts hI item hitems.1 hfirst, readAll_parts hI rest hitems.2 hothers⟩

end

/-- **What is read is in normal form.** -/
theorem read_stored (document : Json) {node : Node} (h : read document = .ok node) : Stored node :=
  read_parts (G := fun _ => True) ⟨trivial, fun _ _ _ => trivial, fun _ _ _ => trivial, fun _ => assemble_normal⟩ document
    trivial h

/-! ## Reading what was written -/

theorem kindOf_label (kind : NodeKind) : kindOf (.text kind.label) = .ok kind := by
  cases kind <;> rfl

/-- the object of a node is read by reading its children -/
theorem read_nodeObject {kind : NodeKind} {position : Int} {payload : Json} {nodes : List Json} {children : List Node}
    (hchildren : readAll nodes = .ok children) (hcount : countFits kind children.length = .ok ()) :
    read (nodeObject kind position payload nodes) = assemble kind position payload children := by
  have hfrom : childrenIn [("kind", .text kind.label), ("position", .int position), ("value", payload),
      ("nodes", .list nodes)] = .ok children := by
    simp only [childrenIn, childrenFrom, hchildren]
    rfl
  have hkind : kindOf ((Json.field? "kind" [("kind", .text kind.label), ("position", .int position), ("value", payload),
      ("nodes", .list nodes)]).getD .null) = .ok kind := kindOf_label kind
  rw [nodeObject, read, build, hfrom, hkind]
  simp only [bind, Except.bind, hcount]
  rfl

/-- the parts of a node in normal form make up the node -/
theorem assemble_parts {node : Node} (h : Normal node) {kind : NodeKind} (hkind : node.kind? = some kind) {payload : Json}
    (hpayload : payload? node = some payload) :
    countFits kind node.children.length = .ok () ∧ assemble kind node.position payload node.children = .ok node := by
  cases node with
  | statements position mode nodes =>
    cases hkind
    cases hpayload
    refine ⟨rfl, ?_⟩
    rcases h with hpresent | rfl
    · simp [assemble, Node.children, hpresent, Node.position]
    · rfl
  | literal position value =>
    cases hkind
    refine ⟨rfl, ?_⟩
    cases value <;> cases hpayload <;> rfl
  | blank position => exact h.elim
  | _ =>
    cases hkind
    cases hpayload
    exact ⟨rfl, rfl⟩

/-- **A tree in normal form that was written is read back.** -/
theorem read_write {node : Node} (h : Stored node) {written : Json} (hwritten : write node = .ok written) :
    read written = .ok node := by
  induction node using Node.inductionOnChildren generalizing written with
  | step node ih =>
    obtain ⟨hnormal, hstored⟩ := forall_part_iff.1 h
    obtain ⟨kind, payload, nodes, hkind, hpayload, hnodes, rfl⟩ := (write_eq_ok_iff node written).1 hwritten
    obtain ⟨hcount, hassemble⟩ := assemble_parts hnormal hkind hpayload
    have hall : ∀ children documents, (∀ child ∈ children, child ∈ node.children) → writeAll children = .ok documents →
        readAll documents = .ok children := by
      intro children
      induction children with
      | nil =>
        intro documents _ hwritten
        rw [writeAll_nil] at hwritten
        cases hwritten
        rw [readAll]
      | cons child rest ihrest =>
        intro documents hmem hwritten
        obtain ⟨first, others, hfirst, hothers, rfl⟩ := (writeAll_cons_eq_ok_iff _ _ _).1 hwritten
        obtain ⟨hchild, hrest⟩ := List.forall_mem_cons.1 hmem
        exact (readAll_cons_eq_ok_iff _ _ _).2
          ⟨child, rest, ih child hchild (hstored child hchild) hfirst, ihrest others hrest hothers, rfl⟩
    rw [read_nodeObject (hall _ _ (fun _ hchild => hchild) hnodes) hcount, hassemble]

/-! ## Round trips -/

/-- a list or an object, which no literal can be written with -/
def IsCompound : Value → Prop
  | .list _ => True
  | .record _ => True
  | _ => False

/-- of what was read, only compound literals have no payload to write -/
theorem payload?_eq_none_iff {node : Node} (h : Normal node) :
    payload? node = none ↔ ∃ position value, node = .literal position value ∧ IsCompound value := by
  cases node with
  | literal position value =>
    obtain ⟨document, rfl⟩ := h
    cases document <;> simp [payload?, Value.ofJson, scalar?, IsCompound]
  | blank position => exact h.elim
  | _ => simp [payload?]

/-- **What was read cannot be written exactly when it holds a compound literal.** -/
theorem write_fails_iff {node : Node} (h : Stored node) :
    (∃ refusal, write node = .error refusal) ↔ ∃ position value, Part (.literal position value) node ∧ IsCompound value := by
  have hfails : (∃ refusal, write node = .error refusal) ↔ ¬ ∃ written, write node = .ok written := by
    cases write node with
    | error refusal => simp
    | ok written => simp
  rw [hfails, exists_write_iff]
  constructor
  · intro hsome
    push Not at hsome
    obtain ⟨part, hpart, hnone⟩ := hsome
    obtain ⟨position, value, rfl, hcompound⟩ := (payload?_eq_none_iff (h part hpart)).1 (by simpa using hnone)
    exact ⟨position, value, hpart, hcompound⟩
  · rintro ⟨position, value, hpart, hcompound⟩ hall
    have hnone := (payload?_eq_none_iff (h _ hpart)).2 ⟨position, value, rfl, hcompound⟩
    have hsome := hall _ hpart
    rw [hnone] at hsome
    cases hsome

/-- what the parser makes is as after reading, and all of it can be written -/
theorem plain_written {node : Node} (h : Parsing.Plain node) : Normal node ∧ (payload? node).isSome = true := by
  cases node with
  | statements position mode nodes =>
    refine ⟨?_, rfl⟩
    rcases h with rfl | rfl
    · exact Or.inr rfl
    · exact Or.inl rfl
  | literal position value =>
    obtain ⟨digits, n, -, rfl⟩ := h
    exact ⟨⟨.int n, rfl⟩, rfl⟩
  | blank position => exact h.elim
  | _ => exact ⟨trivial, rfl⟩

/-- **Every parsed tree is written and read back.** -/
theorem read_parsed {tokens : List Token} {tree : Node} (h : Parsing.parse tokens = .ok tree) :
    ∃ written, write tree = .ok written ∧ read written = .ok tree := by
  have hparts : ∀ part, Part part tree → Normal part ∧ (payload? part).isSome = true := fun part hpart =>
    plain_written (Parsing.parse_built h part hpart).2
  obtain ⟨written, hwritten⟩ := (exists_write_iff tree).2 fun part hpart => (hparts part hpart).2
  exact ⟨written, hwritten, read_write (fun part hpart => (hparts part hpart).1) hwritten⟩

/-- **A written tree reads back.** Whatever document a tree was read from, it cannot be written exactly when one of its literals
is a list or an object; if it is written, what was written is read as the same tree, which is written in the same way again.
Trees from the parser are written and read back. -/
theorem written_tree_reads_back :
    (∀ document node, read document = .ok node →
      ((∃ refusal, write node = .error refusal) ↔ ∃ position value, Part (.literal position value) node ∧ IsCompound value) ∧
      ∀ written, write node = .ok written →
        ∃ again, read written = .ok again ∧ again = node ∧ write again = .ok written) ∧
    ∀ tokens tree, Parsing.parse tokens = .ok tree → ∃ written, write tree = .ok written ∧ read written = .ok tree := by
  refine ⟨fun document node hread => ?_, fun tokens tree hparse => read_parsed hparse⟩
  have hstored := read_stored document hread
  refine ⟨write_fails_iff hstored, fun written hwritten => ?_⟩
  exact ⟨node, read_write hstored hwritten, rfl, hwritten⟩

/-- a loose document: a mode that is empty, a position in words, parameters that are the letters of a text, a field that nobody
reads, and no position and no children where there need not be any -/
def looseDocument : Json :=
  .object [("kind", .text "STATEMENTS"), ("value", .int 0), ("position", .text " +7 "), ("nodes", .list [
    .object [("kind", .text "LAMBDA"), ("value", .text "xy"), ("position", .bool true), ("extra", .null), ("nodes", .list [
      .object [("kind", .text "VALUE"), ("value", .text "z"), ("nodes", .bool false)]])]])]

/-- the tree of the loose document -/
def looseTree : Node :=
  .statements 7 (.text "") [.lambda 1 [.text "x", .text "y"] (.literal 0 (.text "z"))]

theorem looseDocument_read : read looseDocument = .ok looseTree := by rfl

/-- the loose document is written in full, and read as the same tree again; a tree with a list for a literal is not written -/
theorem written_tree_reads_back_loose :
    (read looseDocument = .ok looseTree ∧
      ∃ written, write looseTree = .ok written ∧ written ≠ looseDocument ∧ read written = .ok looseTree) ∧
      (∃ node, read (.object [("kind", .text "VALUE"), ("value", .list [])]) = .ok node ∧
        ∃ refusal, write node = .error refusal) ∧
      ∃ written, write (.statements 0 (.text "") []) = .ok written ∧ read written = .ok (.statements 0 (.text "") []) := by
  obtain ⟨hread, hparse⟩ := written_tree_reads_back
  refine ⟨⟨looseDocument_read, ?_⟩, ⟨.literal 0 (.list []), rfl, ?_⟩, hparse [] _ rfl⟩
  · obtain ⟨written, hwritten, hloose⟩ : ∃ written, write looseTree = .ok written ∧ written ≠ looseDocument :=
      ⟨_, rfl, by simp [looseDocument, nodeObject]⟩
    obtain ⟨again, hagain, rfl, -⟩ := (hread _ _ looseDocument_read).2 written hwritten
    exact ⟨written, hwritten, hloose, hagain⟩
  · exact (hread (.object [("kind", .text "VALUE"), ("value", .list [])]) _ rfl).1.2 ⟨0, .list [], .self, trivial⟩

end LetScript.Interchange
