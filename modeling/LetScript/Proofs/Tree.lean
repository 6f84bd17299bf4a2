/-
The parts of a tree.

A part of a node is the node itself or a part of one of its children (`Part`). What holds of a node as soon as it holds of its
children holds of all nodes (`Node.inductionOnChildren`), so a property of all parts is proved and taken apart child by child.
-/
import LetScript.Tree
import Mathlib.Tactic

namespace LetScript

/-- a node, or a node somewhere below it -/
inductive Part : Node → Node → Prop where
  | self {node : Node} : Part node node
  | inner {part child node : Node} (mem : child ∈ node.children) (deeper : Part part child) : Part part node

namespace Node

theorem sizeOf_child {child node : Node} (h : child ∈ node.children) : sizeOf child < sizeOf node := by
  cases node with
  | statements position mode nodes =>
    have hlt : sizeOf child < sizeOf nodes := List.sizeOf_lt_of_mem h
    simp only [Node.statements.sizeOf_spec]
    omega
  | call position name args =>
    have hlt : sizeOf child < sizeOf args := List.sizeOf_lt_of_mem h
    simp only [Node.call.sizeOf_spec]
    omega
  | operation position operator left right =>
    simp only [children, List.mem_cons, List.not_mem_nil, or_false] at h
    simp only [Node.operation.sizeOf_spec]
    rcases h with rfl | rfl
    all_goals omega
  | assign position name expression =>
    obtain rfl := List.mem_singleton.1 h
    simp only [Node.assign.sizeOf_spec]
    omega
  | lambda position params body =>
    obtain rfl := List.mem_singleton.1 h
    simp only [Node.lambda.sizeOf_spec]
    omega
  | conditional position condition consequent alternative =>
    simp only [children, List.mem_cons, List.not_mem_nil, or_false] at h
    simp only [Node.conditional.sizeOf_spec]
    rcases h with rfl | rfl | rfl
    all_goals omega
  | literal position value => cases h
  | reference position name => cases h
  | blank position => cases h

/-- **What children pass on holds of all nodes.** -/
@[elab_as_elim]
theorem inductionOnChildren {motive : Node → Prop}
    (step : ∀ node, (∀ child ∈ node.children, motive child) → motive node) (node : Node) : motive node :=
  step node fun child hchild =>
    have := sizeOf_child hchild
    inductionOnChildren step child
termination_by sizeOf node

end Node

/-- all parts have a property when the node has it and all parts of its children do -/
theorem forall_part_iff {P : Node → Prop} {node : Node} :
    (∀ part, Part part node → P part) ↔ P node ∧ ∀ child ∈ node.children, ∀ part, Part part child → P part := by
  constructor
  · exact fun h => ⟨h node .self, fun child hchild part hpart => h part (.inner hchild hpart)⟩
  · rintro ⟨hself, hchildren⟩ part hpart
    cases hpart with
    | self => exact hself
    | inner hchild deeper => exact hchildren _ hchild part deeper

end LetScript
