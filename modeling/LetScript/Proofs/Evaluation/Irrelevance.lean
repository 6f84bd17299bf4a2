/-
What a run does not depend on.

A run reads a name where it evaluates a reference or calls a function. Let all names that are read in a tree be in a set, and
let two scopes agree on that set: each of its names is bound to the same node in both or in none, and all names that are read
in these nodes are in the set again (`Agree`). Then evaluation cannot tell the scopes apart: `evaluate_indifferent`. Other
bindings and the frames in which the bindings lie do not matter.

Nodes are bound unevaluated and functions are passed around, so the names that matter are those of everything that can turn up
during the run. That the set is closed is carried through the run by `Node.Throughout`.
-/
import LetScript.Proofs.Evaluation.Throughout

namespace LetScript

/-! ## Names that are read -/

/-- the name that a node reads itself: that of a variable, or of a function it calls -/
def Node.read? : Node → Option Json
  | .reference _ name => some name
  | .call _ name _ => some name
  | _ => none

/-- a name that can be looked up is in a set -/
def InSet (S : Set Key) (name : Json) : Prop := ∀ key, Key.ofJson? name = some key → key ∈ S

/-- a node reads no name outside a set -/
def ReadsIn (S : Set Key) (node : Node) : Prop := ∀ name, node.read? = some name → InSet S name

/-- no name outside a set is read in a tree, or in the body of a function that it holds -/
abbrev Node.ReadsWithin (S : Set Key) : Node → Prop := Node.Throughout (ReadsIn S)

namespace Evaluation

open Run

variable {α β : Type} {S : Set Key}

/-- a name that is found unbound is one of the set -/
def unboundIn (S : Set Key) : Stop → Prop
  | .fault (.unbound name _) => InSet S name
  | _ => True

theorem readsIn_sites (S : Set Key) : Sites (ReadsIn S) (unboundIn S) where
  literal _ _ := nofun
  abort _ := trivial
  exhausted := trivial
  count _ _ value := by
    unfold countStop
    split
    · exact trivial
    · exact trivial
  operate {position operator _ _} _ a b cause h := by
    have hoperated := Operator.operate_operated position operator a b
    rw [h] at hoperated
    cases hoperated <;> exact trivial
  reference h := h _ rfl
  callee h := ⟨h _ rfl, fun _ => trivial⟩
  arity _ _ := trivial
  print _ _ := trivial
  blank _ := trivial

/-! ## Scopes that agree -/

/-- two scopes bind the names of a set to the same nodes, in which no other names are read -/
structure Agree (S : Set Key) (scope scope' : Scope) : Prop where
  same : ∀ key ∈ S, scope'.fetch? key = scope.fetch? key
  within : ∀ key ∈ S, ∀ node, scope.fetch? key = some node → node.ReadsWithin S

namespace Agree

variable {scope scope' : Scope}

theorem push (h : Agree S scope scope') : Agree S scope.push scope'.push := by
  constructor
  · intro key hkey
    rw [fetch?_push, fetch?_push, h.same key hkey]
  · intro key hkey node hfound
    rw [fetch?_push] at hfound
    exact h.within key hkey node hfound

theorem assign (h : Agree S scope scope') (name : Name) {node : Node} (hnode : node.ReadsWithin S) :
    Agree S (scope.assign name node) (scope'.assign name node) := by
  constructor
  · intro key hkey
    rw [fetch?_assign, fetch?_assign, h.same key hkey]
  · intro key hkey found hfound
    rw [fetch?_assign] at hfound
    split_ifs at hfound
    · cases hfound
      exact hnode
    · exact h.within key hkey found hfound

end Agree

/-- two machines have scopes that agree, and the same journal -/
structure Alike (S : Set Key) (m m' : Machine) : Prop where
  scope : Agree S m.scope m'.scope
  journal : m'.journal = m.journal

/-! ## Runs that cannot tell them apart -/

/-- two runs on machines that are alike end alike -/
def Indifferent (S : Set Key) (A : α → Prop) (run run' : Run α) : Prop :=
  ∀ m m', Alike S m m' → ∃ outcome last last', run m = (outcome, last) ∧ run' m' = (outcome, last') ∧
    (∀ a, outcome = .ok a → A a) ∧ Alike S last last' ∧ Kept m last ∧ Kept m' last'

namespace Indifferent

variable {A : α → Prop} {B : β → Prop} {run run' : Run α}

/-- a run that ends at once, without touching the machine -/
theorem ofStill {outcome : Except Stop α} (h : ∀ m, run m = (outcome, m)) (ha : ∀ a, outcome = .ok a → A a) :
    Indifferent S A run run :=
  fun m m' hm => ⟨outcome, m, m', h m, h m', ha, hm, .refl m, .refl m'⟩

theorem bind {go go' : α → Run β} (h : Indifferent S A run run') (hgo : ∀ a, A a → Indifferent S B (go a) (go' a)) :
    Indifferent S B (run >>= go) (run' >>= go') := by
  intro m m' hm
  obtain ⟨outcome, next, next', hr, hr', ha, hnext, hkept, hkept'⟩ := h m m' hm
  cases outcome with
  | ok a =>
    obtain ⟨outcome, last, last', hl, hl', hb, hlast, hmore, hmore'⟩ := hgo a (ha a rfl) next next' hnext
    exact ⟨outcome, last, last', (run_bind_ok hr).trans hl, (run_bind_ok hr').trans hl', hb, hlast, hkept.trans hmore,
      hkept'.trans hmore'⟩
  | error stop => exact ⟨.error stop, next, next', run_bind_error hr, run_bind_error hr', nofun, hnext, hkept, hkept'⟩

theorem print (line : String) : Indifferent S anything (emit (.printed line)) (emit (.printed line)) := by
  intro m m' hm
  refine ⟨.ok (), _, _, rfl, rfl, fun _ _ => trivial, ⟨hm.scope, ?_⟩, ?_, ?_⟩
  · dsimp only
    rw [hm.journal]
  · exact ⟨rfl, .refl _, List.suffix_cons _ _⟩
  · exact ⟨rfl, .refl _, List.suffix_cons _ _⟩

theorem fetch {name : Json} {position : Int} (h : InSet S name) :
    Indifferent S (Node.ReadsWithin S) (Run.fetch name position) (Run.fetch name position) := by
  intro m m' hm
  have hsame : m'.scope.fetch name position = m.scope.fetch name position := by
    unfold Scope.fetch
    cases hkey : Key.ofJson? name with
    | none => rfl
    | some key =>
      dsimp only
      rw [hm.scope.same key (h key hkey)]
  refine ⟨m.scope.fetch name position, m, m', rfl, ?_, fun node hnode => ?_, hm, .refl m, .refl m'⟩
  · rw [Run.fetch, hsame]
  · unfold Scope.fetch at hnode
    cases hkey : Key.ofJson? name with
    | none =>
      rw [hkey] at hnode
      cases hnode
    | some key =>
      rw [hkey] at hnode
      dsimp only at hnode
      cases hfound : m.scope.fetch? key with
      | none =>
        rw [hfound] at hnode
        cases hnode
      | some found =>
        rw [hfound] at hnode
        cases hnode
        exact hm.scope.within key (h key hkey) _ hfound

theorem assign (name : Json) {node : Node} (h : node.ReadsWithin S) :
    Indifferent S anything (Run.assign name node) (Run.assign name node) := by
  intro m m' hm
  unfold Run.assign
  cases Name.ofJson? name with
  | none => exact ⟨_, m, m', rfl, rfl, nofun, hm, .refl m, .refl m'⟩
  | some bound =>
    refine ⟨.ok (), _, _, rfl, rfl, fun _ _ => trivial, ⟨hm.scope.assign bound h, hm.journal⟩, ?_, ?_⟩
    · exact ⟨rfl, .set _ _ _, List.suffix_rfl⟩
    · exact ⟨rfl, .set _ _ _, List.suffix_rfl⟩

/-- in a scope of its own, and afterwards in the scopes around it -/
theorem inScope (h : Indifferent S A run run') : Indifferent S A (Evaluation.inScope run) (Evaluation.inScope run') := by
  intro m m' hm
  obtain ⟨outcome, last, last', hr, hr', ha, hlast, hkept, hkept'⟩ :=
    h { m with scope := m.scope.push } { m' with scope := m'.scope.push } ⟨hm.scope.push, hm.journal⟩
  refine ⟨outcome, _, _, inScope_of_kept hr hkept, inScope_of_kept hr' hkept', ha, ⟨hm.scope, hlast.journal⟩, ?_, ?_⟩
  · exact ⟨rfl, .refl _, hkept.journal⟩
  · exact ⟨rfl, .refl _, hkept'.journal⟩

end Indifferent

/-- being indifferent is closed under the ways in which runs without tracing are put together -/
theorem indifferent_composes {t : Tracing} (ht : t.level = 0) (S : Set Key) (room : ℕ) :
    Composes t t room room (throughout (ReadsIn S) (unboundIn S)) fun _ A run run' => Indifferent S A run run' where
  pure ha := .ofStill (fun _ => rfl) fun _ he => Except.ok.inj he ▸ ha
  bind h hgo := h.bind hgo
  halt _ := .ofStill (fun _ => rfl) nofun
  print line := .print line
  trace {threshold line} hthreshold _ := by
    have hsilent : trace t threshold line = Pure.pure () := if_neg (by omega)
    rw [hsilent]
    exact .ofStill (fun _ => rfl) fun _ _ => trivial
  fetch h := .fetch h.unbound
  assign _ hnode := .assign _ hnode
  call _ _ h := by
    rw [inCall_silent ht, inCall_silent ht]
    by_cases hroom : openingDepth ≤ room
    · rw [reserve_of_le hroom, pure_bind, pure_bind]
      exact h.inScope
    · rw [reserve_of_lt (not_le.1 hroom)]
      exact .ofStill (fun _ => rfl) nofun

/-- **Irrelevant bindings do not matter.** Let no name outside a set be read in a tree, and let two scopes agree on the set.
Without tracing, the tree ends alike on both, with the same value or the same stop, and shows the same, and the scopes it
leaves agree on the set again. Names that are only bound, as a variable or a parameter, may be in the set or not. -/
theorem evaluate_indifferent {t : Tracing} (ht : t.level = 0) (budget : ℕ) {node : Node} (hnode : node.ReadsWithin S)
    {scope scope' : Scope} (h : Agree S scope scope') (journal : List Event) :
    ∃ outcome last last' shown, evaluate t budget node ⟨scope, journal⟩ = (outcome, ⟨last, shown⟩) ∧
      evaluate t budget node ⟨scope', journal⟩ = (outcome, ⟨last', shown⟩) ∧ Agree S last last' := by
  have hrun := Composes.evaluate (indifferent_composes ht S) (throughout_inductive (readsIn_sites S)) budget hnode
  obtain ⟨outcome, last, last', hr, hr', -, hlast, -, -⟩ := hrun ⟨scope, journal⟩ ⟨scope', journal⟩ ⟨h, rfl⟩
  refine ⟨outcome, last.scope, last'.scope, last.journal, hr, ?_, hlast.scope⟩
  rw [hr', ← hlast.journal]

/-- a function that prints a number -/
def printer : Node := .lambda 0 [] (.call 1 (.text "print") [.literal 2 (.int 7)])

/-- the name of the function is bound in the only frame, or below another frame and above a second binding of it -/
theorem evaluate_indifferent_frames :
    ∃ outcome last last' shown,
      evaluate 0 4 (.call 3 (.text "f") []) ⟨⟨[], [(.ofText "f", printer)]⟩, []⟩ = (outcome, ⟨last, shown⟩) ∧
      evaluate 0 4 (.call 3 (.text "f") [])
        ⟨⟨[[(.ofText "f", printer)], [(.ofText "f", .blank 0)]], [(.ofText "x", .blank 0)]⟩, []⟩ =
          (outcome, ⟨last', shown⟩) ∧
      Agree {.text "f", .text "print"} last last' := by
  have hliteral : (Node.literal 2 (.int 7)).ReadsWithin {.text "f", .text "print"} :=
    .intro (by simp [ReadsIn, Node.read?]) (by simp [Node.children]) (by rintro _ _ ⟨⟩; exact .intro (by simp) (by simp))
  have hprint : (Node.call 1 (.text "print") [.literal 2 (.int 7)]).ReadsWithin {.text "f", .text "print"} := by
    refine .intro ?_ ?_ (by simp)
    · rintro _ ⟨⟩ _ ⟨⟩
      exact Or.inr rfl
    · simpa [Node.children] using hliteral
  have hprinter : printer.ReadsWithin {.text "f", .text "print"} :=
    .intro (by simp [ReadsIn, printer, Node.read?]) (by simpa [printer, Node.children] using hprint) (by simp [printer])
  have hcall : (Node.call 3 (.text "f") []).ReadsWithin {.text "f", .text "print"} := by
    refine .intro ?_ (by simp [Node.children]) (by simp)
    rintro _ ⟨⟩ _ ⟨⟩
    exact Or.inl rfl
  refine evaluate_indifferent rfl 4 hcall ⟨?_, ?_⟩ []
  · rintro key (rfl | rfl)
    · rfl
    · rfl
  · rintro key (rfl | rfl) node hfound
    · cases hfound
      exact hprinter
    · cases hfound

end Evaluation

end LetScript
