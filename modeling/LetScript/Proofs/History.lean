/-
A scope remembers its history.

A history is any list of openings, closings and bindings, done one after the other on an empty scope; a closing for which no scope
is open fails and changes nothing, and so does binding what is no name. What an opening and a closing have to do with each other
is said of the history alone: they belong together when the actions between them are balanced (`Closes`).

The scope that a history leaves is then read off it (`scope_remembers`): a name is bound to the node of its latest binding that is
not inside a scope already closed, and as many scopes are open as were opened and not closed.

Histories are looked at as they grow at their end (`history_induction`). Every action but one leaves in sight what came before. A
closing hides what was bound since the newest scope still open (`Newest`) was opened, and brings back the scope from before that,
because what is balanced leaves the frames under the current one alone (`Balanced.frames`). It hides nothing else, since no pair
reaches over the opening of a scope that is still open (`Newest.not_crossed`). Counting how far openings are ahead of closings
(`level`) settles such questions about the order of pairs.
-/
import LetScript.Proofs.Evaluation.Frames

namespace LetScript.History

open Evaluation

/-! ## Histories -/

/-- something done to a scope -/
inductive Action where
  | enter
  | leave
  | assign (name : Json) (node : Node)

/-- does an action -/
def Action.run : Action → Run Unit
  | .enter => Run.enter
  | .leave => Run.leave
  | .assign name node => Run.assign name node

/-- the scope after an action, also one that fails -/
def Action.next (scope : Scope) (action : Action) : Scope := (action.run ⟨scope, []⟩).2.scope

/-- the scope after actions one after the other -/
def follow (scope : Scope) (actions : List Action) : Scope := actions.foldl Action.next scope

/-- the scope that a history leaves -/
def after (history : List Action) : Scope := follow .empty history

theorem follow_append (scope : Scope) (actions others : List Action) :
    follow scope (actions ++ others) = follow (follow scope actions) others := List.foldl_append ..

theorem after_snoc (history : List Action) (action : Action) :
    after (history ++ [action]) = action.next (after history) := follow_append ..

/-- closing the newest scope brings back the one that it was opened on -/
theorem next_leave {scope outer : Scope} (h : scope.frames = outer.push.frames) : Action.leave.next scope = outer := by
  have hleave : Run.leave ⟨scope, []⟩ = (.ok (), ⟨outer, []⟩) := leave_of_frames h
  exact congrArg (·.2.scope) hleave

theorem next_leave_of_nil {scope : Scope} (h : scope.frames = []) : Action.leave.next scope = scope := by
  have hleave : Run.leave ⟨scope, []⟩ = (.error (.abort .noOpenScope), ⟨scope, []⟩) := leave_of_nil h
  exact congrArg (·.2.scope) hleave

theorem next_assign_frames (scope : Scope) (name : Json) (node : Node) :
    ((Action.assign name node).next scope).frames = scope.frames := by
  change (Run.assign name node ⟨scope, []⟩).2.scope.frames = scope.frames
  unfold Run.assign
  split
  · rfl
  · rfl

/-! ## Balanced actions -/

/-- every scope that is opened is closed, and no other one is -/
inductive Balanced : List Action → Prop where
  | nil : Balanced []
  | assign {name : Json} {node : Node} {rest : List Action} (behind : Balanced rest) :
      Balanced (.assign name node :: rest)
  | scope {inner rest : List Action} (inside : Balanced inner) (behind : Balanced rest) :
      Balanced (.enter :: (inner ++ .leave :: rest))

theorem Balanced.append {actions others : List Action} (h : Balanced actions) (h' : Balanced others) :
    Balanced (actions ++ others) := by
  induction h with
  | nil => exact h'
  | assign _ ih => exact .assign ih
  | scope inside _ _ ih =>
    rw [List.cons_append, List.append_assoc, List.cons_append]
    exact .scope inside ih

/-- **What is balanced leaves the frames under the current one alone.** -/
theorem Balanced.frames {actions : List Action} (h : Balanced actions) (scope : Scope) :
    (follow scope actions).frames = scope.frames := by
  induction h generalizing scope with
  | nil => rfl
  | @assign name node rest _ ih =>
    calc (follow scope (.assign name node :: rest)).frames = ((Action.assign name node).next scope).frames := ih _
      _ = scope.frames := next_assign_frames scope name node
  | @scope inner rest _ _ ihinner ihrest =>
    have hclosed : Action.leave.next (follow scope.push inner) = scope := next_leave (ihinner scope.push)
    calc (follow scope (.enter :: (inner ++ .leave :: rest))).frames
        = (follow (follow scope.push inner) (.leave :: rest)).frames := congrArg Scope.frames (follow_append ..)
      _ = (follow (Action.leave.next (follow scope.push inner)) rest).frames := rfl
      _ = scope.frames := by rw [hclosed, ihrest]

/-! ## Openings ahead of closings -/

/-- how many more scopes an action opens than it closes -/
def Action.rise : Action → Int
  | .enter => 1
  | .leave => -1
  | .assign _ _ => 0

/-- how many more scopes actions open than they close -/
def climb (actions : List Action) : Int := (actions.map Action.rise).sum

@[simp] theorem climb_nil : climb [] = 0 := rfl

@[simp] theorem climb_cons (action : Action) (rest : List Action) : climb (action :: rest) = action.rise + climb rest :=
  List.sum_cons

@[simp] theorem climb_append (actions others : List Action) : climb (actions ++ others) = climb actions + climb others := by
  simp only [climb, List.map_append, List.sum_append]

theorem Balanced.climb_eq {actions : List Action} (h : Balanced actions) : climb actions = 0 := by
  induction h with
  | nil => rfl
  | assign _ ih => simp [Action.rise, ih]
  | scope _ _ ihinner ihrest => simp [Action.rise, ihinner, ihrest]

/-- in what is balanced, closings are never ahead of openings -/
theorem Balanced.climb_nonneg {actions part : List Action} (h : Balanced actions) (hpart : part <+: actions) :
    0 ≤ climb part := by
  induction h generalizing part with
  | nil =>
    rw [List.prefix_nil.1 hpart]
    rfl
  | assign _ ih =>
    rcases List.prefix_cons_iff.1 hpart with rfl | ⟨front, rfl, hfront⟩
    · rfl
    · simpa [Action.rise] using ih hfront
  | @scope inner rest inside _ ihinner ihrest =>
    -- the part ends before the opening, inside the scope, at its closing or behind that
    rcases List.prefix_cons_iff.1 hpart with rfl | ⟨front, rfl, hfront⟩
    · rfl
    · rcases List.prefix_or_prefix_of_prefix hfront (List.prefix_append inner (.leave :: rest)) with hinner | ⟨back, rfl⟩
      · have hclimb := ihinner hinner
        simp only [climb_cons, Action.rise]
        omega
      · rw [List.prefix_append_right_inj] at hfront
        rcases List.prefix_cons_iff.1 hfront with rfl | ⟨last, rfl, hlast⟩
        · simp [Action.rise, inside.climb_eq]
        · have hclimb := ihrest hlast
          simp only [climb_cons, climb_append, inside.climb_eq, Action.rise]
          omega

/-- how far openings are ahead of closings after the first actions of a history -/
def level (history : List Action) (k : ℕ) : Int := climb (history.take k)

theorem level_succ {history : List Action} {k : ℕ} {action : Action} (h : history[k]? = some action) :
    level history (k + 1) = level history k + action.rise := by
  simp [level, List.take_add_one, h]

theorem climb_between (history : List Action) {i k : ℕ} (h : i ≤ k) :
    climb ((history.take k).drop i) = level history k - level history i := by
  have hsplit : history.take i ++ (history.take k).drop i = history.take k := by
    have hfront : (history.take k).take i = history.take i := by rw [List.take_take, min_eq_left h]
    rw [← hfront, List.take_append_drop]
  have hclimb := congrArg climb hsplit
  rw [climb_append] at hclimb
  unfold level
  omega

/-- between two places with balanced actions between them, the level is never below that of both -/
theorem level_of_balanced {history : List Action} {i j k : ℕ} (h : Balanced ((history.take j).drop i)) (hi : i ≤ k)
    (hk : k ≤ j) : level history j = level history i ∧ level history i ≤ level history k := by
  have hwhole := h.climb_eq
  have hpart := h.climb_nonneg ((List.take_prefix_take_left hk).drop i)
  rw [climb_between history (hi.trans hk)] at hwhole
  rw [climb_between history hi] at hpart
  omega

/-! ## Openings and closings that belong together -/

/-- the scope opened at the one place is closed at the other -/
structure Closes (history : List Action) (i j : ℕ) : Prop where
  opened : history[i]? = some .enter
  closed : history[j]? = some .leave
  before : i < j
  between : Balanced ((history.take j).drop (i + 1))

/-- the newest scope that is still open was opened at a place -/
structure Newest (history : List Action) (i : ℕ) : Prop where
  opened : history[i]? = some .enter
  since : Balanced (history.drop (i + 1))

theorem Closes.lt {history : List Action} {i j : ℕ} (h : Closes history i j) : j < history.length :=
  (List.getElem?_eq_some_iff.1 h.closed).1

/-- from its opening to its closing, the level is above that before a scope was opened -/
theorem Closes.level {history : List Action} {i j k : ℕ} (h : Closes history i j) (hi : i < k) (hk : k ≤ j) :
    level history j = level history i + 1 ∧ level history i < level history k := by
  have hopened := level_succ h.opened
  have hbetween := level_of_balanced h.between hi hk
  simp only [Action.rise] at hopened
  omega

namespace Newest

variable {history : List Action} {i : ℕ}

theorem lt (h : Newest history i) : i < history.length := (List.getElem?_eq_some_iff.1 h.opened).1

/-- since it was opened, the level is above that before the newest scope was opened -/
theorem level (h : Newest history i) {k : ℕ} (hi : i < k) (hk : k ≤ history.length) :
    level history history.length = level history i + 1 ∧ level history i < level history k := by
  have hopened := level_succ h.opened
  have hsince := h.since
  rw [← List.take_length (l := history)] at hsince
  have hbetween := level_of_balanced hsince hi hk
  simp only [Action.rise] at hopened
  omega

/-- the newest open scope is not closed -/
theorem not_closed (h : Newest history i) (j : ℕ) : ¬ Closes history i j := by
  intro hclosed
  -- a pair ends on the level it starts on, and since the opening the level stays above that
  have hlevel := hclosed.level hclosed.before le_rfl
  have hleave := level_succ hclosed.closed
  have hafter := h.level (k := j + 1) (hclosed.before.trans (Nat.lt_succ_self j)) hclosed.lt
  simp only [Action.rise] at hleave
  omega

/-- no pair reaches over the opening of the newest open scope -/
theorem not_crossed (h : Newest history i) {a b : ℕ} (hclosed : Closes history a b) (ha : a < i) : b < i := by
  by_contra hb
  have hib : i < b := by
    rcases Nat.lt_or_eq_of_le (not_lt.1 hb) with hlt | rfl
    · exact hlt
    · have hsame := h.opened.symm.trans hclosed.closed
      cases hsame
  have hopened := hclosed.level ha hib.le
  have hinside := h.level hib hclosed.lt.le
  omega

theorem unique (h : Newest history i) {k : ℕ} (h' : Newest history k) : i = k := by
  have hnot : ∀ {a b : ℕ}, Newest history a → Newest history b → ¬ a < b := by
    intro a b ha hb hab
    have hlevel := ha.level hab hb.lt.le
    have hlevel' := hb.level hb.lt le_rfl
    omega
  exact le_antisymm (not_lt.1 (hnot h' h)) (not_lt.1 (hnot h h'))

/-- the history up to the opening, the opening, and what is balanced -/
theorem split (h : Newest history i) : history = history.take i ++ .enter :: history.drop (i + 1) := by
  obtain ⟨hlt, hopened⟩ := List.getElem?_eq_some_iff.1 h.opened
  conv_lhs => rw [← List.take_append_drop i history, List.drop_eq_getElem_cons hlt, hopened]

/-- the frames are those of the scope on which the newest open scope was opened -/
theorem frames (h : Newest history i) : (after history).frames = (after (history.take i)).push.frames := by
  calc (after history).frames = (after (history.take i ++ .enter :: history.drop (i + 1))).frames := by rw [← h.split]
    _ = (follow (after (history.take i)).push (history.drop (i + 1))).frames := congrArg Scope.frames (follow_append ..)
    _ = (after (history.take i)).push.frames := h.since.frames _

/-- **Closing brings back the scope from before the opening.** -/
theorem after_leave (h : Newest history i) : after (history ++ [Action.leave]) = after (history.take i) := by
  rw [after_snoc]
  exact next_leave h.frames

end Newest

/-! ## Histories that grow -/

theorem newest_enter (history : List Action) : Newest (history ++ [Action.enter]) history.length := by
  refine ⟨List.getElem?_concat_length, ?_⟩
  rw [List.drop_of_length_le (by simp)]
  exact .nil

theorem Newest.extend {history : List Action} {i : ℕ} (h : Newest history i) {more : List Action} (hmore : Balanced more) :
    Newest (history ++ more) i := by
  refine ⟨(List.getElem?_append_left h.lt).trans h.opened, ?_⟩
  rw [List.drop_append_of_le_length h.lt]
  exact h.since.append hmore

/-- once the newest open scope is closed, the one before it is the newest -/
theorem Newest.outer {history : List Action} {i k : ℕ} (h : Newest history i) (h' : Newest (history.take i) k) :
    Newest (history ++ [Action.leave]) k := by
  have hsplit : history ++ [Action.leave] = history.take i ++ .enter :: (history.drop (i + 1) ++ .leave :: []) := by
    conv_lhs => rw [h.split]
    rw [List.append_assoc, List.cons_append]
  rw [hsplit]
  exact h'.extend (.scope h.since .nil)

/-- **Histories grow at their end**: what holds of the empty history, and is kept by openings, by bindings, by closings that fail,
and by closings of the newest open scope, where it also holds of what came before that was opened, holds of all histories. -/
theorem history_induction {P : List Action → Prop} (nil : P [])
    (enter : ∀ history, P history → P (history ++ [Action.enter]))
    (assign : ∀ history name node, P history → P (history ++ [Action.assign name node]))
    (fails : ∀ history, (∀ i, ¬ Newest history i) → P history → P (history ++ [Action.leave]))
    (leave : ∀ history i, Newest history i → P (history.take i) → P history → P (history ++ [Action.leave]))
    (history : List Action) : P history := by
  -- by the length, since a closing goes back to what came before an opening, and not to one action less
  induction hlength : history.length using Nat.strongRecOn generalizing history with
  | ind n ih =>
    subst hlength
    rcases List.eq_nil_or_concat history with rfl | ⟨front, action, rfl⟩
    · exact nil
    · rw [List.concat_eq_append, List.length_append, List.length_singleton] at ih
      rw [List.concat_eq_append]
      have hfront : P front := ih front.length (Nat.lt_succ_self _) front rfl
      cases action with
      | enter => exact enter front hfront
      | assign name node => exact assign front name node hfront
      | leave =>
        by_cases hnewest : ∃ i, Newest front i
        · obtain ⟨i, hi⟩ := hnewest
          have hshorter : (front.take i).length < front.length + 1 := by
            rw [List.length_take]
            omega
          exact leave front i hi (ih _ hshorter (front.take i) rfl) hfront
        · exact fails front (fun i hi => hnewest ⟨i, hi⟩) hfront

/-- no scope is open, or one of them is the newest -/
theorem frames_or_newest (history : List Action) : (after history).frames = [] ∨ ∃ i, Newest history i := by
  induction history using history_induction with
  | nil => exact Or.inl rfl
  | enter history _ => exact Or.inr ⟨_, newest_enter history⟩
  | assign history name node ih =>
    rcases ih with hframes | ⟨i, hi⟩
    · rw [after_snoc, next_assign_frames]
      exact Or.inl hframes
    · exact Or.inr ⟨i, hi.extend (.assign .nil)⟩
  | fails history hnone ih =>
    rcases ih with hframes | ⟨i, hi⟩
    · rw [after_snoc, next_leave_of_nil hframes]
      exact Or.inl hframes
    · exact absurd hi (hnone i)
  | leave history i hi ih _ =>
    rcases ih with hframes | ⟨k, hk⟩
    · rw [hi.after_leave]
      exact Or.inl hframes
    · exact Or.inr ⟨k, hi.outer hk⟩

/-- **Closing fails where no scope is open**, and changes nothing. -/
theorem after_fails {history : List Action} (h : ∀ i, ¬ Newest history i) :
    after (history ++ [Action.leave]) = after history := by
  have hframes : (after history).frames = [] := (frames_or_newest history).resolve_right fun ⟨i, hi⟩ => h i hi
  rw [after_snoc, next_leave_of_nil hframes]

/-! ## Pairs in a longer history -/

/-- an action of a longer history was there before, or is the last one -/
theorem getElem?_snoc {history : List Action} {action found : Action} {k : ℕ} :
    (history ++ [action])[k]? = some found ↔ history[k]? = some found ∨ k = history.length ∧ action = found := by
  grind

/-- the first actions of a history -/
theorem getElem?_take {history : List Action} {found : Action} {n k : ℕ} :
    (history.take n)[k]? = some found ↔ history[k]? = some found ∧ k < n := by
  grind

/-- a closing at the end belongs to the opening of the newest open scope; the pairs before it stay pairs -/
theorem closes_snoc {history : List Action} {action : Action} {i j : ℕ} : Closes (history ++ [action]) i j ↔
    Closes history i j ∨ j = history.length ∧ action = .leave ∧ Newest history i := by
  constructor
  · rintro ⟨hopened, hclosed, hbefore, hbetween⟩
    have hj : j ≤ history.length := by
      rcases getElem?_snoc.1 hclosed with hclosed | ⟨rfl, -⟩
      · exact (List.getElem?_eq_some_iff.1 hclosed).1.le
      · exact le_rfl
    rw [List.take_append_of_le_length hj] at hbetween
    have hinside : history[i]? = some .enter := (getElem?_snoc.1 hopened).resolve_right fun hi => by omega
    rcases getElem?_snoc.1 hclosed with hclosed | ⟨rfl, rfl⟩
    · exact Or.inl ⟨hinside, hclosed, hbefore, hbetween⟩
    · rw [List.take_length] at hbetween
      exact Or.inr ⟨rfl, rfl, hinside, hbetween⟩
  · rintro (h | ⟨rfl, rfl, h⟩)
    · refine ⟨getElem?_snoc.2 (Or.inl h.opened), getElem?_snoc.2 (Or.inl h.closed), h.before, ?_⟩
      rw [List.take_append_of_le_length h.lt.le]
      exact h.between
    · refine ⟨getElem?_snoc.2 (Or.inl h.opened), getElem?_snoc.2 (Or.inr ⟨rfl, rfl⟩), h.lt, ?_⟩
      rw [List.take_append_of_le_length le_rfl, List.take_length]
      exact h.since

/-- an action is no closing, or there is nothing to close -/
def ClosesNothing (history : List Action) (action : Action) : Prop := action = .leave → ∀ i, ¬ Newest history i

theorem enter_closes_nothing (history : List Action) : ClosesNothing history .enter := by
  intro hleave
  cases hleave

theorem assign_closes_nothing (history : List Action) (name : Json) (node : Node) :
    ClosesNothing history (.assign name node) := by
  intro hleave
  cases hleave

/-- an action that closes nothing makes no pair -/
theorem ClosesNothing.closes_snoc {history : List Action} {action : Action} (h : ClosesNothing history action) {i j : ℕ} :
    Closes (history ++ [action]) i j ↔ Closes history i j := by
  rw [History.closes_snoc]
  exact or_iff_left fun ⟨_, hleave, hi⟩ => h hleave i hi

/-- the pairs of the first actions are those that are closed among them -/
theorem closes_take {history : List Action} {i j k : ℕ} :
    Closes (history.take k) i j ↔ Closes history i j ∧ j < k := by
  constructor
  · rintro ⟨hopened, hclosed, hbefore, hbetween⟩
    obtain ⟨hclosed, hj⟩ := getElem?_take.1 hclosed
    rw [List.take_take, min_eq_left hj.le] at hbetween
    exact ⟨⟨(getElem?_take.1 hopened).1, hclosed, hbefore, hbetween⟩, hj⟩
  · rintro ⟨h, hj⟩
    refine ⟨getElem?_take.2 ⟨h.opened, h.before.trans hj⟩, getElem?_take.2 ⟨h.closed, hj⟩, h.before, ?_⟩
    rw [List.take_take, min_eq_left hj.le]
    exact h.between

/-! ## Bindings in sight -/

/-- a place is inside a scope already closed -/
def Inside (history : List Action) (k : ℕ) : Prop := ∃ i j, Closes history i j ∧ i < k ∧ k < j

/-- a key is bound to a node at a place that is not inside a scope already closed -/
structure Visible (history : List Action) (key : Key) (k : ℕ) (node : Node) : Prop where
  bound : ∃ name, history[k]? = some (.assign name node) ∧ Key.ofJson? name = some key
  outside : ¬ Inside history k

theorem Visible.lt {history : List Action} {key : Key} {k : ℕ} {node : Node} (h : Visible history key k node) :
    k < history.length := by
  obtain ⟨name, hbound, -⟩ := h.bound
  exact (List.getElem?_eq_some_iff.1 hbound).1

/-- a key has a binding in sight, and this is the latest one -/
structure Latest (history : List Action) (key : Key) (k : ℕ) (node : Node) : Prop where
  visible : Visible history key k node
  latest : ∀ k' node', Visible history key k' node' → k' ≤ k

/-- nothing comes into sight or goes out of it but what is bound last -/
theorem ClosesNothing.visible_snoc {history : List Action} {action : Action} (h : ClosesNothing history action) {key : Key}
    {k : ℕ} {node : Node} : Visible (history ++ [action]) key k node ↔ Visible history key k node ∨
      k = history.length ∧ ∃ name, action = .assign name node ∧ Key.ofJson? name = some key := by
  have hinside : Inside (history ++ [action]) k ↔ Inside history k := by
    unfold Inside
    simp only [h.closes_snoc]
  constructor
  · rintro ⟨⟨name, hbound, hname⟩, houtside⟩
    rcases getElem?_snoc.1 hbound with hbound | ⟨hk, rfl⟩
    · exact Or.inl ⟨⟨name, hbound, hname⟩, fun hin => houtside (hinside.2 hin)⟩
    · exact Or.inr ⟨hk, name, rfl, hname⟩
  · rintro (⟨⟨name, hbound, hname⟩, houtside⟩ | ⟨rfl, name, rfl, hname⟩)
    · exact ⟨⟨name, getElem?_snoc.2 (Or.inl hbound), hname⟩, fun hin => houtside (hinside.1 hin)⟩
    · refine ⟨⟨name, getElem?_snoc.2 (Or.inr ⟨rfl, rfl⟩), hname⟩, fun hin => ?_⟩
      obtain ⟨i, j, hclosed, -, hj⟩ := hinside.1 hin
      exact absurd hclosed.lt (not_lt.2 hj.le)

/-- closing the newest open scope leaves in sight what was before its opening -/
theorem visible_leave {history : List Action} {i : ℕ} (h : Newest history i) {key : Key} {k : ℕ} {node : Node} :
    Visible (history ++ [Action.leave]) key k node ↔ Visible (history.take i) key k node := by
  constructor
  · rintro ⟨⟨name, hbound, hname⟩, houtside⟩
    have hbound : history[k]? = some (.assign name node) := (getElem?_snoc.1 hbound).resolve_right nofun
    have hk : k < i := by
      rcases Nat.lt_trichotomy k i with hlt | rfl | hgt
      · exact hlt
      · have hsame := h.opened.symm.trans hbound
        cases hsame
      · have hpair : Closes (history ++ [Action.leave]) i history.length := closes_snoc.2 (Or.inr ⟨rfl, rfl, h⟩)
        exact absurd ⟨i, history.length, hpair, hgt, (List.getElem?_eq_some_iff.1 hbound).1⟩ houtside
    refine ⟨⟨name, getElem?_take.2 ⟨hbound, hk⟩, hname⟩, ?_⟩
    rintro ⟨a, b, hclosed, ha, hb⟩
    exact houtside ⟨a, b, closes_snoc.2 (Or.inl (closes_take.1 hclosed).1), ha, hb⟩
  · rintro ⟨⟨name, hbound, hname⟩, houtside⟩
    obtain ⟨hbound, hk⟩ := getElem?_take.1 hbound
    refine ⟨⟨name, getElem?_snoc.2 (Or.inl hbound), hname⟩, ?_⟩
    rintro ⟨a, b, hclosed, ha, hb⟩
    rcases closes_snoc.1 hclosed with hclosed | ⟨-, -, ha'⟩
    · -- a pair around the place is closed before the opening, so it is one of the first actions
      exact houtside ⟨a, b, closes_take.2 ⟨hclosed, h.not_crossed hclosed (ha.trans hk)⟩, ha, hb⟩
    · rw [ha'.unique h] at ha
      exact absurd ha (not_lt.2 hk.le)

/-! ## What is remembered -/

/-- what a key is bound to, by its bindings in sight -/
def Remembers (history : List Action) (key : Key) : Option Node → Prop
  | some node => ∃ k, Latest history key k node
  | none => ∀ k node, ¬ Visible history key k node

theorem Remembers.congr {history other : List Action} {key : Key} {found : Option Node} (h : Remembers history key found)
    (hsame : ∀ k node, Visible other key k node ↔ Visible history key k node) : Remembers other key found := by
  cases found with
  | none => exact fun k node hv => h k node ((hsame k node).1 hv)
  | some node =>
    obtain ⟨k, hv, hlatest⟩ := h
    exact ⟨k, (hsame k node).2 hv, fun k' node' hv' => hlatest k' node' ((hsame k' node').1 hv')⟩

/-- a binding binds its key, if there is one, and no other -/
theorem next_assign_fetch? (scope : Scope) (name : Json) (node : Node) (key : Key) :
    ((Action.assign name node).next scope).fetch? key =
      if Key.ofJson? name = some key then some node else scope.fetch? key := by
  change (Run.assign name node ⟨scope, []⟩).2.scope.fetch? key = _
  unfold Run.assign Name.ofJson?
  cases Key.ofJson? name with
  | none => rfl
  | some bound =>
    simp only [Option.map_some, Option.some.injEq, eq_comm (a := bound)]
    exact fetch?_assign ⟨name, bound⟩ node scope key

/-- **A scope binds what its history has in sight.** -/
theorem remembers_after (history : List Action) (key : Key) : Remembers history key ((after history).fetch? key) := by
  induction history using history_induction with
  | nil =>
    intro k node hv
    exact absurd hv.lt (Nat.not_lt_zero k)
  | enter history ih =>
    have hpush : (after (history ++ [Action.enter])).fetch? key = (after history).fetch? key := by
      rw [after_snoc]
      exact fetch?_push (after history) key
    rw [hpush]
    refine ih.congr fun k node => (enter_closes_nothing history).visible_snoc.trans (or_iff_left ?_)
    rintro ⟨-, name, hassign, -⟩
    cases hassign
  | assign history name node ih =>
    have hsnoc : ∀ k node', Visible (history ++ [Action.assign name node]) key k node' ↔ Visible history key k node' ∨
        k = history.length ∧ ∃ name', Action.assign name node = .assign name' node' ∧ Key.ofJson? name' = some key :=
      fun _ _ => (assign_closes_nothing history name node).visible_snoc
    rw [after_snoc, next_assign_fetch?]
    split_ifs with hname
    · refine ⟨history.length, (hsnoc _ _).2 (Or.inr ⟨rfl, name, rfl, hname⟩), fun k node' hv => ?_⟩
      have hlt := hv.lt
      rw [List.length_append, List.length_singleton] at hlt
      exact Nat.le_of_lt_succ hlt
    · refine ih.congr fun k node' => (hsnoc k node').trans (or_iff_left ?_)
      rintro ⟨-, name', hassign, hname'⟩
      cases hassign
      exact hname hname'
  | fails history hnone ih =>
    have hnothing : ClosesNothing history .leave := fun _ => hnone
    rw [after_fails hnone]
    refine ih.congr fun k node => hnothing.visible_snoc.trans (or_iff_left ?_)
    rintro ⟨-, name, hassign, -⟩
    cases hassign
  | leave history i hi ih _ =>
    rw [hi.after_leave]
    exact ih.congr fun k node => visible_leave hi

/-! ## Open scopes -/

/-- a scope was opened at a place and has not been closed -/
structure StillOpen (history : List Action) (i : ℕ) : Prop where
  opened : history[i]? = some .enter
  unclosed : ∀ j, ¬ Closes history i j

theorem StillOpen.lt {history : List Action} {i : ℕ} (h : StillOpen history i) : i < history.length :=
  (List.getElem?_eq_some_iff.1 h.opened).1

theorem Newest.stillOpen {history : List Action} {i : ℕ} (h : Newest history i) : StillOpen history i :=
  ⟨h.opened, h.not_closed⟩

theorem finite_stillOpen (history : List Action) : {i | StillOpen history i}.Finite :=
  (Set.finite_Iio history.length).subset fun _ hi => hi.lt

theorem ClosesNothing.stillOpen_snoc {history : List Action} {action : Action} (h : ClosesNothing history action) {i : ℕ} :
    StillOpen (history ++ [action]) i ↔ StillOpen history i ∨ i = history.length ∧ action = .enter := by
  constructor
  · rintro ⟨hopened, hunclosed⟩
    rcases getElem?_snoc.1 hopened with hopened | ⟨hi, haction⟩
    · exact Or.inl ⟨hopened, fun j hclosed => hunclosed j (h.closes_snoc.2 hclosed)⟩
    · exact Or.inr ⟨hi, haction⟩
  · rintro (⟨hopened, hunclosed⟩ | ⟨rfl, rfl⟩)
    · exact ⟨getElem?_snoc.2 (Or.inl hopened), fun j hclosed => hunclosed j (h.closes_snoc.1 hclosed)⟩
    · exact (newest_enter history).stillOpen

/-- closing the newest open scope leaves the others open -/
theorem stillOpen_leave {history : List Action} {i : ℕ} (h : Newest history i) {k : ℕ} :
    StillOpen (history ++ [Action.leave]) k ↔ StillOpen history k ∧ k ≠ i := by
  constructor
  · rintro ⟨hopened, hunclosed⟩
    refine ⟨⟨(getElem?_snoc.1 hopened).resolve_right nofun, fun j hclosed => ?_⟩, ?_⟩
    · exact hunclosed j (closes_snoc.2 (Or.inl hclosed))
    · rintro rfl
      exact hunclosed history.length (closes_snoc.2 (Or.inr ⟨rfl, rfl, h⟩))
  · rintro ⟨⟨hopened, hunclosed⟩, hk⟩
    refine ⟨getElem?_snoc.2 (Or.inl hopened), fun j hclosed => ?_⟩
    rcases closes_snoc.1 hclosed with hclosed | ⟨-, -, hnewest⟩
    · exact hunclosed j hclosed
    · exact hk (hnewest.unique h)

/-- **As many scopes are open as were opened and not closed.** -/
theorem depth_after (history : List Action) : (after history).depth = {i | StillOpen history i}.ncard := by
  induction history using history_induction with
  | nil =>
    have hnone : {i | StillOpen [] i} = ∅ := Set.eq_empty_of_forall_notMem fun i hi => Nat.not_lt_zero i hi.lt
    rw [hnone, Set.ncard_empty]
    rfl
  | enter history ih =>
    have hset : {i | StillOpen (history ++ [Action.enter]) i} = insert history.length {i | StillOpen history i} := by
      refine Set.ext fun i => (enter_closes_nothing history).stillOpen_snoc.trans ?_
      rw [and_iff_left rfl, or_comm]
      exact Iff.rfl
    have hnew : history.length ∉ {i | StillOpen history i} := fun hopen => absurd hopen.lt (lt_irrefl _)
    rw [hset, Set.ncard_insert_of_notMem hnew (finite_stillOpen history), ← ih, after_snoc]
    rfl
  | assign history name node ih =>
    have hset : {i | StillOpen (history ++ [Action.assign name node]) i} = {i | StillOpen history i} := by
      refine Set.ext fun i => (assign_closes_nothing history name node).stillOpen_snoc.trans (or_iff_left ?_)
      rintro ⟨-, henter⟩
      cases henter
    rw [hset, ← ih, after_snoc]
    exact congrArg List.length (next_assign_frames _ name node)
  | fails history hnone ih =>
    have hnothing : ClosesNothing history .leave := fun _ => hnone
    have hset : {i | StillOpen (history ++ [Action.leave]) i} = {i | StillOpen history i} := by
      refine Set.ext fun i => hnothing.stillOpen_snoc.trans (or_iff_left ?_)
      rintro ⟨-, henter⟩
      cases henter
    rw [hset, ← ih, after_fails hnone]
  | leave history i hi _ ih =>
    have hset : {k | StillOpen (history ++ [Action.leave]) k} = {k | StillOpen history k} \ {i} :=
      Set.ext fun k => stillOpen_leave hi
    have hopen : i ∈ {k | StillOpen history k} := hi.stillOpen
    have hdepth : (after history).depth = (after (history.take i)).depth + 1 := congrArg List.length hi.frames
    rw [hset, Set.ncard_sdiff_singleton_of_mem hopen, ← ih, hi.after_leave, hdepth, Nat.add_sub_cancel]

/-! ## Main result -/

/-- a closing closes the newest scope that is open then, and brings back the scope from before its opening; or no scope is open,
and it fails and changes nothing -/
theorem leave_after (history : List Action) (journal : List Event) :
    (∃ i, Newest history i ∧ Run.leave ⟨after history, journal⟩ = (.ok (), ⟨after (history.take i), journal⟩)) ∨
      (∀ i, ¬ StillOpen history i) ∧
        Run.leave ⟨after history, journal⟩ = (.error (.abort .noOpenScope), ⟨after history, journal⟩) := by
  rcases frames_or_newest history with hframes | ⟨i, hi⟩
  · refine Or.inr ⟨fun i hopen => ?_, leave_of_nil hframes⟩
    have hdepth : {i | StillOpen history i}.ncard = 0 := (depth_after history).symm.trans (congrArg List.length hframes)
    rw [Set.ncard_eq_zero (finite_stillOpen history)] at hdepth
    exact Set.eq_empty_iff_forall_notMem.1 hdepth i hopen
  · exact Or.inl ⟨i, hi, leave_of_frames hi.frames⟩

/-- **A scope remembers its history.** Whatever scopes are opened and closed and whatever is bound, starting with nothing: looking
up a name gives the node of its latest binding that is not inside a scope already closed, and an error with the name and the given
position if there is none. The depth is the number of scopes opened and not closed. Every closing closes a scope opened before it
and brings back what was before the opening, or no scope is open then, and it fails and changes nothing. -/
theorem scope_remembers (history : List Action) {name : Json} {key : Key} (hname : Key.ofJson? name = some key)
    (position : Int) :
    ((∃ k node, Latest history key k node ∧ (after history).fetch name position = .ok node) ∨
        (∀ k node, ¬ Visible history key k node) ∧
          (after history).fetch name position = .error (.fault (.unbound name position))) ∧
      (after history).depth = {i | StillOpen history i}.ncard ∧
      ∀ k journal, history[k]? = some .leave →
        (∃ i, Closes history i k ∧
            Run.leave ⟨after (history.take k), journal⟩ = (.ok (), ⟨after (history.take i), journal⟩)) ∨
          (∀ i, ¬ StillOpen (history.take k) i) ∧
            Run.leave ⟨after (history.take k), journal⟩ =
              (.error (.abort .noOpenScope), ⟨after (history.take k), journal⟩) := by
  refine ⟨?_, depth_after history, fun k journal hk => ?_⟩
  · have hremembers := remembers_after history key
    simp only [Scope.fetch, hname]
    cases hfound : (after history).fetch? key with
    | none =>
      rw [hfound] at hremembers
      exact Or.inr ⟨hremembers, rfl⟩
    | some node =>
      rw [hfound] at hremembers
      obtain ⟨k, hlatest⟩ := hremembers
      exact Or.inl ⟨k, node, hlatest, rfl⟩
  · rcases leave_after (history.take k) journal with ⟨i, hi, hleave⟩ | hfails
    · obtain ⟨hopened, hik⟩ := getElem?_take.1 hi.opened
      rw [List.take_take, min_eq_left hik.le] at hleave
      exact Or.inl ⟨i, ⟨hopened, hk, hik, hi.since⟩, hleave⟩
    · exact Or.inr hfails

/-- binds a name, again in a scope of its own, closes more than is open, and opens another scope -/
def shadowed : List Action :=
  [.assign (.text "x") (.literal 0 (.int 1)), .enter, .assign (.text "x") (.literal 0 (.int 2)), .leave, .leave, .enter]

theorem scope_remembers_shadowed :
    Key.ofJson? (.text "x") = some (.text "x") ∧
      (∃ k, Latest shadowed (.text "x") k (.literal 0 (.int 1))) ∧ {i | StillOpen shadowed i}.ncard = 1 := by
  obtain ⟨hfetch, hdepth, -⟩ := @scope_remembers shadowed (.text "x") (.text "x") rfl 7
  refine ⟨rfl, ?_, hdepth.symm⟩
  have hvalue : (after shadowed).fetch (.text "x") 7 = .ok (.literal 0 (.int 1)) := rfl
  rcases hfetch with ⟨k, node, hlatest, hnode⟩ | ⟨-, hunbound⟩
  · rw [hvalue] at hnode
    cases hnode
    exact ⟨k, hlatest⟩
  · rw [hvalue] at hunbound
    cases hunbound

end LetScript.History
