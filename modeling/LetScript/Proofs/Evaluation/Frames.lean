/-
What every run does to its machine.

However a run ends, it only adds to the journal, and it closes the scopes it opens: the frames under the current one are the
same afterwards, and the current one has lost no name (`Kept`). There is one exception. A call that cannot be announced, because
the trace does not take the line or because there is no room to pass it on, leaves its scope open; the run then stops for that
reason, and one frame, which has all the names that were current, stands on top of the others (`LeftOpen`).

`Restores S` says this of a run, where `S` are the stops at which the exception may occur; those of a trace are `CutsOff`. Every
piece of a run restores because its parts do (`evaluate_restores`), and a call leaves the whole scope as it was (`inCall_returns`).
How a call goes is said once (`inCall_cases`): either what it runs does not matter, because there is no room for a scope or the
announcement is cut off, or it is announced, and then the way out succeeds. Without tracing there is no exception, closing a
scope never fails, and a run in a scope of its own changes nothing but the journal: `inScope_eq`.

`Holds` says of all that is bound that it has a property, and is kept by opening, closing and binding.
-/
import LetScript.Proofs.Encoding
import LetScript.Proofs.Evaluation.Composition

namespace LetScript.Evaluation

open Run

variable {α β : Type}

/-! ## Machines before and after -/

/-- every key that the one frame binds, the other binds too -/
def Within (frame other : Frame) : Prop := ∀ key, (frame.get? key).isSome = true → (other.get? key).isSome = true

theorem Within.refl (frame : Frame) : Within frame frame := fun _ h => h

theorem Within.trans {frame other third : Frame} (h : Within frame other) (h' : Within other third) : Within frame third :=
  fun key hk => h' key (h key hk)

theorem Within.set (frame : Frame) (name : Name) (node : Node) : Within frame (frame.set name node) := by
  intro key hk
  rw [Env.get?_set]
  by_cases h : key = name.key
  · rw [if_pos h]
    rfl
  · rw [if_neg h]
    exact hk

/-- the scopes that were opened have been closed, no name was lost, and the journal has only grown -/
structure Kept (m last : Machine) : Prop where
  frames : last.scope.frames = m.scope.frames
  names : Within m.scope.current last.scope.current
  journal : m.journal <:+ last.journal

theorem Kept.refl (m : Machine) : Kept m m := ⟨rfl, .refl _, List.suffix_rfl⟩

theorem Kept.trans {m next last : Machine} (h : Kept m next) (h' : Kept next last) : Kept m last :=
  ⟨h'.frames.trans h.frames, h.names.trans h'.names, h.journal.trans h'.journal⟩

/-- a scope was left open, on top of a frame with the names that were current -/
structure LeftOpen (m last : Machine) : Prop where
  frames : ∃ frame, last.scope.frames = frame :: m.scope.frames ∧ Within m.scope.current frame
  journal : m.journal <:+ last.journal

theorem Kept.leftOpen {m next last : Machine} (h : Kept m next) (h' : LeftOpen next last) : LeftOpen m last := by
  obtain ⟨frame, hframes, hnames⟩ := h'.frames
  refine ⟨⟨frame, ?_, h.names.trans hnames⟩, h.journal.trans h'.journal⟩
  rw [hframes, h.frames]

/-- a run has kept its machine, or it has left a scope open and ended at one of the stops -/
def Leaves (S : Stop → Prop) (m : Machine) (ended : Except Stop α × Machine) : Prop :=
  Kept m ended.2 ∨ ∃ stop, S stop ∧ ended.1 = .error stop ∧ LeftOpen m ended.2

namespace Leaves

variable {S : Stop → Prop} {m next : Machine}

theorem journal {ended : Except Stop α × Machine} (h : Leaves S m ended) : m.journal <:+ ended.2.journal := by
  rcases h with hkept | ⟨stop, -, -, hopen⟩
  · exact hkept.journal
  · exact hopen.journal

/-- a run with a value has kept its machine -/
theorem kept {a : α} (h : Leaves S m (.ok a, next)) : Kept m next := by
  rcases h with hkept | ⟨stop, -, hout, -⟩
  · exact hkept
  · cases hout

/-- where the run stopped is all that matters of how it ended -/
theorem error {stop : Stop} (h : Leaves S m ((.error stop, next) : Except Stop α × Machine)) :
    Leaves S m ((.error stop, next) : Except Stop β × Machine) := by
  refine h.imp id fun ⟨other, hs, hout, hopen⟩ => ⟨other, hs, ?_, hopen⟩
  cases hout
  rfl

/-- what keeps the machine at first leaves it as the rest does -/
theorem trans {ended : Except Stop α × Machine} (hkept : Kept m next) (h : Leaves S next ended) : Leaves S m ended :=
  h.imp hkept.trans fun ⟨stop, hs, hout, hopen⟩ => ⟨stop, hs, hout, hkept.leftOpen hopen⟩

end Leaves

/-- a run keeps its machine, or leaves a scope open at one of the stops -/
def Restores (S : Stop → Prop) (run : Run α) : Prop := ∀ m, Leaves S m (run m)

namespace Restores

variable {S : Stop → Prop} {run : Run α}

theorem pure (a : α) : Restores S (Pure.pure a : Run α) := fun m => Or.inl (.refl m)

theorem halt (stop : Stop) : Restores S (Run.halt stop : Run α) := fun m => Or.inl (.refl m)

theorem lift (outcome : Except Stop α) : Restores S (Run.lift outcome) := fun m => Or.inl (.refl m)

theorem emit (event : Event) : Restores S (Run.emit event) :=
  fun _ => Or.inl ⟨rfl, .refl _, List.suffix_cons _ _⟩

theorem fetch (name : Json) (position : Int) : Restores S (Run.fetch name position) := fun m => Or.inl (.refl m)

theorem assign (name : Json) (node : Node) : Restores S (Run.assign name node) := by
  intro m
  refine Or.inl ?_
  unfold Run.assign
  split
  · exact ⟨rfl, .set _ _ _, List.suffix_rfl⟩
  · exact .refl m

theorem bind {go : α → Run β} (h : Restores S run) (hgo : ∀ m a, (run m).1 = .ok a → Restores S (go a)) :
    Restores S (run >>= go) := by
  intro m
  have hfirst := h m
  rcases hr : run m with ⟨outcome, next⟩
  rw [hr] at hfirst
  cases outcome with
  | ok a =>
    rw [run_bind_ok hr]
    exact .trans hfirst.kept (hgo m a (by rw [hr]) next)
  | error stop =>
    rw [run_bind_error hr]
    exact hfirst.error

theorem ask (question : Scope → α) : Restores S (Run.ask question) := fun m => Or.inl (.refl m)

theorem reserve (room depth : ℕ) : Restores S (Run.reserve room depth) := by
  unfold Run.reserve
  split_ifs
  · exact pure ()
  · exact halt _

theorem record (tracing : Tracing) (event : Event) : Restores S (Run.record tracing event) := by
  unfold Run.record
  split_ifs
  · exact halt _
  · exact emit _

theorem trace (tracing : Tracing) (threshold : ℕ) (line : Unit → Except Abort String) :
    Restores S (Run.trace tracing threshold line) := by
  unfold Run.trace
  split_ifs
  · exact (lift _).bind fun _ _ _ => record _ _
  · exact pure ()

end Restores

/-! ## What is bound -/

/-- all that is bound has a property -/
def Holds (P : Node → Prop) (scope : Scope) : Prop := ∀ frame ∈ scope.current :: scope.frames, ∀ entry ∈ frame, P entry.2

theorem holds_empty (P : Node → Prop) : Holds P .empty := by
  intro frame hframe entry hentry
  rw [List.mem_singleton.1 hframe] at hentry
  cases hentry

namespace Holds

variable {P : Node → Prop} {scope : Scope}

theorem push (h : Holds P scope) : Holds P scope.push := by
  intro frame hframe entry hentry
  rcases List.mem_cons.1 hframe with rfl | hframe
  · cases hentry
  · exact h frame hframe entry hentry

theorem outer {frame : Frame} {rest : List Frame} (h : Holds P scope) (hframes : scope.frames = frame :: rest) :
    Holds P ⟨rest, frame⟩ :=
  fun inner hinner => h inner (List.mem_cons_of_mem _ (hframes ▸ hinner))

theorem pop {outer : Scope} (h : Holds P scope) (hpop : scope.pop? = some outer) : Holds P outer := by
  unfold Scope.pop? at hpop
  split at hpop
  · next hframes =>
    cases hpop
    exact h.outer hframes
  · cases hpop

theorem set {frame : Frame} (h : ∀ entry ∈ frame, P entry.2) (name : Name) {node : Node} (hnode : P node) :
    ∀ entry ∈ frame.set name node, P entry.2 := by
  induction frame with
  | nil =>
    intro entry hentry
    rw [List.mem_singleton.1 hentry]
    exact hnode
  | cons first rest ih =>
    obtain ⟨bound, old⟩ := first
    rw [List.forall_mem_cons] at h
    unfold Frame.set
    split_ifs
    · exact List.forall_mem_cons.2 ⟨hnode, h.2⟩
    · exact List.forall_mem_cons.2 ⟨h.1, ih h.2⟩

theorem assign (h : Holds P scope) (name : Name) {node : Node} (hnode : P node) : Holds P (scope.assign name node) := by
  intro frame hframe entry hentry
  rcases List.mem_cons.1 hframe with rfl | hframe
  · exact set (h _ List.mem_cons_self) name hnode entry hentry
  · exact h frame (List.mem_cons_of_mem _ hframe) entry hentry

theorem get? {frame : Frame} (h : ∀ entry ∈ frame, P entry.2) {key : Key} {node : Node} (hget : frame.get? key = some node) :
    P node := by
  induction frame with
  | nil => cases hget
  | cons first rest ih =>
    obtain ⟨bound, old⟩ := first
    rw [List.forall_mem_cons] at h
    unfold Frame.get? at hget
    split_ifs at hget
    · cases hget
      exact h.1
    · exact ih h.2 hget

theorem lookup? {frames : List Frame} (h : ∀ frame ∈ frames, ∀ entry ∈ frame, P entry.2) {key : Key} {node : Node}
    (hlookup : Scope.lookup? key frames = some node) : P node := by
  induction frames with
  | nil => cases hlookup
  | cons frame rest ih =>
    rw [List.forall_mem_cons] at h
    unfold Scope.lookup? at hlookup
    cases hget : frame.get? key with
    | some found =>
      rw [hget] at hlookup
      cases hlookup
      exact get? h.1 hget
    | none =>
      rw [hget] at hlookup
      exact ih h.2 hlookup

theorem fetch? (h : Holds P scope) {key : Key} {node : Node} (hfound : scope.fetch? key = some node) : P node :=
  lookup? h hfound

end Holds

/-! ## What is said about calls -/

/-- the line of a trace that was not taken -/
abbrev refusal : Except Stop α := .error (.abort .unencodable)

/-- a stop that a call may come to in the middle of being announced: there is no room left, or the trace does not take the
line -/
def Tracing.CutsOff (tracing : Tracing) (stop : Stop) : Prop :=
  1 ≤ tracing.level ∧ (stop = .exhausted ∨ tracing.encoded = true ∧ stop = .abort .unencodable)

/-- a line about a call gets into the trace and there is room to pass it on, if calls are traced -/
def Tracing.Takes (tracing : Tracing) (room : ℕ) (line : String) : Prop :=
  1 ≤ tracing.level → passingDepth ≤ room ∧ (tracing.encoded = true → Text.isEncodable line = true)

/-- what the trace has of an event of a call -/
def Tracing.said (tracing : Tracing) (event : Event) : List Event := if 1 ≤ tracing.level then [event] else []

section

variable {tracing : Tracing} {room : ℕ}

/-- where a call was announced, word of its end is taken -/
theorem Tracing.Takes.returned {name : String} {given depth : ℕ}
    (h : tracing.Takes room (Event.called name given depth).line) (depth' : ℕ) :
    tracing.Takes room (Event.returned name depth').line := by
  intro hlevel
  rw [Text.isEncodable_returned, ← Text.isEncodable_called name given depth]
  exact h hlevel

/-- a line is taken that has an encoding where one is needed -/
theorem record_taken {event : Event} (h : tracing.encoded = true → Text.isEncodable event.line = true) :
    record tracing event = emit event := by
  refine if_neg fun hrefused => ?_
  rw [Bool.and_eq_true] at hrefused
  simp [h hrefused.1] at hrefused

theorem reserve_of_le {depth : ℕ} (h : depth ≤ room) : reserve room depth = Pure.pure () := if_pos h

theorem reserve_of_lt {depth : ℕ} (h : room < depth) : reserve room depth = halt .exhausted := if_neg (Nat.not_le.2 h)

/-- a line that is taken is added to the journal -/
theorem traceCall_taken (event : ℕ → Event) (m : Machine) (h : tracing.Takes room (event m.scope.depth).line) :
    traceCall tracing room event m = (.ok (), ⟨m.scope, tracing.said (event m.scope.depth) ++ m.journal⟩) := by
  unfold traceCall Tracing.said
  by_cases hlevel : 1 ≤ tracing.level
  · obtain ⟨hroom, hline⟩ := h hlevel
    rw [if_pos hlevel, if_pos hlevel, reserve_of_le (le_trans (by decide) hroom), reserve_of_le hroom]
    change (record tracing (event m.scope.depth) >>= fun _ => Pure.pure ()) m = _
    rw [record_taken hline]
    rfl
  · rw [if_neg hlevel, if_neg hlevel]
    rfl

/-- a line that is not taken is cut off, before it is in the trace or after; if it has an encoding, there was no room -/
theorem traceCall_cut (event : ℕ → Event) (m : Machine) (h : ¬ tracing.Takes room (event m.scope.depth).line) :
    ∃ stop events, tracing.CutsOff stop ∧ (Text.isEncodable (event m.scope.depth).line = true → stop = .exhausted) ∧
      (events = [] ∨ events = [event m.scope.depth]) ∧
      traceCall tracing room event m = (.error stop, ⟨m.scope, events ++ m.journal⟩) := by
  obtain ⟨hlevel, hcut⟩ := Classical.not_imp.1 h
  unfold traceCall
  rw [if_pos hlevel]
  by_cases hline : lineDepth ≤ room
  · rw [reserve_of_le hline]
    change ∃ stop events, _ ∧ _ ∧ _ ∧ (record tracing (event m.scope.depth) >>= fun _ => reserve room passingDepth) m = _
    unfold record
    split_ifs with hrefused
    · rw [Bool.and_eq_true, Bool.not_eq_true'] at hrefused
      refine ⟨_, [], ⟨hlevel, Or.inr ⟨hrefused.1, rfl⟩⟩, fun hline => ?_, Or.inl rfl, rfl⟩
      rw [hline] at hrefused
      cases hrefused.2
    · have hencodable : tracing.encoded = true → Text.isEncodable (event m.scope.depth).line = true := by
        intro hencoded
        simpa [hencoded] using hrefused
      rw [reserve_of_lt (not_le.1 fun hroom => hcut ⟨hroom, hencodable⟩)]
      exact ⟨_, [event m.scope.depth], ⟨hlevel, Or.inl rfl⟩, fun _ => rfl, Or.inr rfl, rfl⟩
  · rw [reserve_of_lt (not_le.1 hline)]
    exact ⟨_, [], ⟨hlevel, Or.inl rfl⟩, fun _ => rfl, Or.inl rfl, rfl⟩

end

/-! ## Calls -/

/-- closing the newest scope brings back the one that it was opened on -/
theorem leave_of_frames {m : Machine} {frame : Frame} {rest : List Frame} (h : m.scope.frames = frame :: rest) :
    leave m = (.ok (), { m with scope := ⟨rest, frame⟩ }) := by
  unfold leave Scope.pop?
  rw [h]

/-- where no scope is open, closing one fails -/
theorem leave_of_nil {m : Machine} (h : m.scope.frames = []) : leave m = (.error (.abort .noOpenScope), m) := by
  unfold leave Scope.pop?
  rw [h]

section

variable {tracing : Tracing} {room : ℕ} {name : String}

/-- the way out of a call that was announced closes the newest scope and says so, and the call ends as what it runs does -/
theorem andFinally_taken (h : ∀ depth, tracing.Takes room (Event.returned name depth).line) {run : Run α} {m inner : Machine}
    {outcome : Except Stop α} {frame : Frame} {rest : List Frame} (hrun : run m = (outcome, inner))
    (hframes : inner.scope.frames = frame :: rest) :
    andFinally run (leave >>= fun _ => traceCall tracing room (.returned name)) m =
      (outcome, ⟨⟨rest, frame⟩, tracing.said (.returned name rest.length) ++ inner.journal⟩) := by
  have hafter : (leave >>= fun _ => traceCall tracing room (.returned name)) inner =
      (.ok (), ⟨⟨rest, frame⟩, tracing.said (.returned name rest.length) ++ inner.journal⟩) := by
    rw [run_bind_ok (leave_of_frames hframes)]
    exact traceCall_taken (.returned name) _ (h rest.length)
  rw [andFinally_cases hrun hafter]
  rfl

/-- without room for its scope, a call does nothing -/
theorem inCall_full (h : room < openingDepth) (given : ℕ) (run : Run α) (m : Machine) :
    inCall tracing room name given run m = (.error .exhausted, m) := by
  unfold inCall
  rw [reserve_of_lt h]
  rfl

/-- with room for its scope, a call opens it and goes on to announce itself -/
theorem inCall_opened (h : openingDepth ≤ room) (given : ℕ) (run : Run α) (m : Machine) :
    inCall tracing room name given run m = (traceCall tracing room (.called name given) >>= fun _ =>
      andFinally run (leave >>= fun _ => traceCall tracing room (.returned name))) ⟨m.scope.push, m.journal⟩ := by
  unfold inCall
  rw [reserve_of_le h]
  rfl

/-- where its announcement is taken, a call goes on to what it runs, with the way out behind that -/
theorem inCall_taken (hroom : openingDepth ≤ room) {given : ℕ} {m : Machine}
    (h : tracing.Takes room (Event.called name given (m.scope.depth + 1)).line) (run : Run α) :
    inCall tracing room name given run m = andFinally run (leave >>= fun _ => traceCall tracing room (.returned name))
      ⟨m.scope.push, tracing.said (.called name given (m.scope.depth + 1)) ++ m.journal⟩ :=
  (inCall_opened hroom given run m).trans (run_bind_ok (traceCall_taken (.called name given) _ h))

/-- **How a call goes.** There is no room for its scope; or the scope is opened and the announcement is cut off, before the line
is in the trace or after, and for lack of room if the name has an encoding; or the call is announced, and then it runs in the
scope, with word of its end on the way out. -/
theorem inCall_cases (tracing : Tracing) (room : ℕ) (name : String) (given : ℕ) (m : Machine) :
    (room < openingDepth ∧ ∀ {α : Type} (run : Run α), inCall tracing room name given run m = (.error .exhausted, m)) ∨
      (∃ stop events, tracing.CutsOff stop ∧ (Text.isEncodable name = true → stop = .exhausted) ∧
        (events = [] ∨ events = [.called name given (m.scope.depth + 1)]) ∧
        ∀ {α : Type} (run : Run α),
          inCall tracing room name given run m = (.error stop, ⟨m.scope.push, events ++ m.journal⟩)) ∨
      (∀ depth, tracing.Takes room (Event.returned name depth).line) ∧ ∀ {α : Type} (run : Run α),
        inCall tracing room name given run m =
          andFinally run (leave >>= fun _ => traceCall tracing room (.returned name))
            ⟨m.scope.push, tracing.said (.called name given (m.scope.depth + 1)) ++ m.journal⟩ := by
  by_cases hroom : openingDepth ≤ room
  · by_cases htakes : tracing.Takes room (Event.called name given (m.scope.depth + 1)).line
    · exact Or.inr (Or.inr ⟨htakes.returned, inCall_taken hroom htakes⟩)
    · obtain ⟨stop, events, hstop, hname, hevents, hcut⟩ :=
        traceCall_cut (.called name given) ⟨m.scope.push, m.journal⟩ htakes
      rw [Text.isEncodable_called] at hname
      refine Or.inr (Or.inl ⟨stop, events, hstop, hname, hevents, fun run => ?_⟩)
      exact (inCall_opened hroom given run m).trans (run_bind_error hcut)
  · exact Or.inl ⟨not_le.1 hroom, fun run => inCall_full (not_le.1 hroom) given run m⟩

end

/-- a call has left the scope as it was, or has left one open on top of it -/
structure Returns (S : Stop → Prop) (m : Machine) (ended : Except Stop α × Machine) : Prop where
  journal : m.journal <:+ ended.2.journal
  scope : ended.2.scope = m.scope ∨
    ∃ stop, S stop ∧ ended.1 = .error stop ∧ ended.2.scope.frames = m.scope.current :: m.scope.frames

theorem Returns.leaves {S : Stop → Prop} {m : Machine} {ended : Except Stop α × Machine} (h : Returns S m ended) :
    Leaves S m ended := by
  obtain ⟨hjournal, hscope | ⟨stop, hstop, hout, hframes⟩⟩ := h
  · refine Or.inl ⟨?_, ?_, hjournal⟩
    · rw [hscope]
    · rw [hscope]
      exact .refl _
  · exact Or.inr ⟨stop, hstop, hout, ⟨_, hframes, .refl _⟩, hjournal⟩

/-- The way out of a call finds a scope to close. One that was left open inside is closed in place of the call's own, which stays
open instead. -/
theorem Leaves.returns {S : Stop → Prop} {m inner : Machine} {outcome : Except Stop α} {events : List Event}
    (h : Leaves S ⟨m.scope.push, events ++ m.journal⟩ (outcome, inner)) (more : ℕ → List Event) :
    ∃ frame rest, inner.scope.frames = frame :: rest ∧ Returns S m (outcome, ⟨⟨rest, frame⟩, more rest.length ++ inner.journal⟩) := by
  have hjournal : ∀ depth, m.journal <:+ more depth ++ inner.journal := fun _ =>
    ((List.suffix_append _ _).trans h.journal).trans (List.suffix_append _ _)
  rcases h with hkept | ⟨stop, hstop, hout, hopen⟩
  · exact ⟨m.scope.current, m.scope.frames, hkept.frames, hjournal _, Or.inl rfl⟩
  · obtain ⟨frame, hframes, -⟩ := hopen.frames
    exact ⟨frame, m.scope.push.frames, hframes, hjournal _, Or.inr ⟨stop, hstop, hout, rfl⟩⟩

/-- **A call leaves the scope as it was**, or has left a scope open on top of it. -/
theorem inCall_returns {tracing : Tracing} {run : Run α} (h : Restores tracing.CutsOff run) (room : ℕ) (name : String)
    (given : ℕ) (m : Machine) : Returns tracing.CutsOff m (inCall tracing room name given run m) := by
  rcases inCall_cases tracing room name given m with ⟨-, hfull⟩ | ⟨stop, events, hstop, -, -, hcut⟩ | ⟨htakes, hcall⟩
  · rw [hfull]
    exact ⟨List.suffix_rfl, Or.inl rfl⟩
  · rw [hcut]
    exact ⟨List.suffix_append _ _, Or.inr ⟨stop, hstop, rfl, rfl⟩⟩
  · rw [hcall]
    have hleaves := h ⟨m.scope.push, tracing.said (.called name given (m.scope.depth + 1)) ++ m.journal⟩
    rcases hrun : run ⟨m.scope.push, tracing.said (.called name given (m.scope.depth + 1)) ++ m.journal⟩ with ⟨outcome, inner⟩
    rw [hrun] at hleaves
    obtain ⟨frame, rest, hframes, hreturns⟩ := hleaves.returns fun depth => tracing.said (.returned name depth)
    rw [andFinally_taken htakes hrun hframes]
    exact hreturns

theorem Restores.inCall {tracing : Tracing} {run : Run α} (h : Restores tracing.CutsOff run) (room : ℕ) (name : String)
    (given : ℕ) : Restores tracing.CutsOff (Run.inCall tracing room name given run) :=
  fun m => (inCall_returns h room name given m).leaves

/-! ## Evaluation -/

/-- restoring is closed under the ways in which runs are put together -/
theorem restores_closed (tracing : Tracing) (room : ℕ) :
    Closed tracing tracing room room fun _ run _ => Restores tracing.CutsOff run where
  pure _ := .pure _
  bind h hgo := h.bind hgo
  halt _ := .halt _
  print _ := .emit _
  trace _ _ := .trace _ _ _
  fetch _ _ := .fetch _ _
  assign _ _ := .assign _ _
  call _ _ _ _ h := h.inCall _ _ _

theorem Restores.applyNamed {tracing : Tracing} {eval : Node → Run Value} (he : ∀ node, Restores tracing.CutsOff (eval node))
    (position : Int) (name : Json) (args : List Node) :
    Restores tracing.CutsOff (Evaluation.applyNamed eval position name args) :=
  (restores_closed tracing 0).applyNamed eval eval he position name args

/-- **Every run closes the scopes it opens**, loses no name and only adds to the journal, unless it is cut off in the
announcement of a call. -/
theorem evaluate_restores (tracing : Tracing) (budget : ℕ) (node : Node) :
    Restores tracing.CutsOff (evaluate tracing budget node) :=
  Closed.evaluate (restores_closed tracing) budget node

/-! ## Runs without the exception -/

/-- a run without tracing restores, and leaves no scope open -/
abbrev Keeps (run : Run α) : Prop := Restores (Tracing.CutsOff 0) run

theorem Keeps.kept {run : Run α} (h : Keeps run) (m : Machine) : Kept m (run m).2 :=
  (h m).resolve_right fun ⟨_, hstop, _⟩ => absurd hstop.1 (by decide)

/-- runs in a scope of its own, which is closed however the run ends -/
def inScope (run : Run α) : Run α := enter >>= fun _ => andFinally run leave

/-- without tracing, a call runs in a scope of its own, if there is room for one, and does nothing else -/
theorem inCall_silent {t : Tracing} (ht : t.level = 0) (room : ℕ) (name : String) (given : ℕ) (run : Run α) :
    inCall t room name given run = (reserve room openingDepth >>= fun _ => inScope run) := by
  have hsilent : ∀ event, traceCall t room event = Pure.pure () := fun _ => if_neg (by omega)
  simp only [inCall, hsilent, pure_bind, bind_pure_unit]
  rfl

/-- the scope around a run that keeps its machine is as it was -/
theorem inScope_of_kept {run : Run α} {m inner : Machine} {outcome : Except Stop α}
    (hrun : run { m with scope := m.scope.push } = (outcome, inner)) (hkept : Kept { m with scope := m.scope.push } inner) :
    inScope run m = (outcome, { inner with scope := m.scope }) := by
  have hscope : inScope run m = andFinally run leave { m with scope := m.scope.push } := rfl
  rw [hscope, andFinally_cases hrun (leave_of_frames hkept.frames)]
  rfl

/-- **A scope of its own is closed on every way out**, and the scope around it is as it was. -/
theorem inScope_eq {run : Run α} (h : Keeps run) (m : Machine) :
    inScope run m = ((run { m with scope := m.scope.push }).1, { (run { m with scope := m.scope.push }).2 with
      scope := m.scope }) :=
  inScope_of_kept rfl (h.kept _)

end LetScript.Evaluation
