/-
Speculation is unnecessary.

`speculative` gathers arguments by trying: a failed attempt is remembered, the cursor goes back, and what stands around the
call tries the same tokens again. `predictive` looks one token ahead and never goes back. On every source text the two give
the same tree, the same complaint, or stop at the same unreadable number: `parseSource_eq_predictive`.

Why: an attempt that fails has taken a token that can start an expression, or nothing.
- If it took nothing, going back changes nothing, and the complaint it left stands at the next token, where any later one
  replaces it.
- If it took a token, the cursor is *stuck* before that token: nothing but another argument could go on there, and that
  argument fails as before. So every way out of the call stops at this token or stays stuck before it, and the complaint of
  the failed attempt, which stands further on, is the one that is reported in the end.

`Shadowed o n p q` says this of a speculative parser `p` and its predictive counterpart `q` where fewer than `n` tokens are
left; `o` tells whether `p` may end up stuck. That `p` and `q` accept the same token lists needs no order of positions;
that they complain alike needs the positions to increase, as those of a lexed text do.
-/
import LetScript.Proofs.Parsing.Lookahead
import LetScript.Proofs.Lexing

namespace LetScript.Parsing

variable {α β : Type}

/-! ## Positions -/

/-- where a complaint about the next token stands -/
def Cursor.ahead (c : Cursor) : Int :=
  match c.rest with
  | token :: _ => token.position
  | [] => c.stop

theorem complaint_position (wanted : Wanted) (c : Cursor) : (c.complaint wanted).position = c.ahead := by
  unfold Cursor.complaint Cursor.ahead
  cases c.rest <;> rfl

/-- two cursors that differ in the furthest complaint only -/
structure Twin (c c₀ : Cursor) : Prop where
  rest : c.rest = c₀.rest
  stop : c.stop = c₀.stop

theorem Twin.complaint {c c₀ : Cursor} (h : Twin c c₀) (wanted : Wanted) : c.complaint wanted = c₀.complaint wanted := by
  unfold Cursor.complaint
  rw [h.rest, h.stop]

theorem Twin.ahead {c c₀ : Cursor} (h : Twin c c₀) : c.ahead = c₀.ahead := by
  unfold Cursor.ahead
  rw [h.rest, h.stop]

/-- a cursor further on in the same list -/
structure Beyond (c next : Cursor) : Prop where
  rest : next.rest <:+ c.rest
  stop : next.stop = c.stop

theorem Beyond.refl (c : Cursor) : Beyond c c := ⟨List.suffix_rfl, rfl⟩

theorem Beyond.trans {c next last : Cursor} (h : Beyond c next) (h' : Beyond next last) : Beyond c last :=
  ⟨h'.rest.trans h.rest, h'.stop.trans h.stop⟩

/-- the positions of the tokens left increase, up to the end of the list -/
structure Ordered (c : Cursor) : Prop where
  rising : c.rest.Pairwise fun t t' => t.position < t'.position
  below : ∀ t ∈ c.rest, t.position < c.stop

theorem Ordered.beyond {c next : Cursor} (h : Ordered c) (hn : Beyond c next) : Ordered next :=
  ⟨h.rising.sublist hn.rest.sublist, fun t ht => by rw [hn.stop]; exact h.below t (hn.rest.subset ht)⟩

theorem Twin.ordered {c c₀ : Cursor} (h : Twin c c₀) (hord : Ordered c) : Ordered c₀ :=
  ⟨h.rest ▸ hord.rising, h.rest ▸ h.stop ▸ hord.below⟩

/-- the position grows with every token taken -/
theorem Ordered.ahead_lt {c next : Cursor} (h : Ordered c) (hn : Beyond c next)
    (hl : next.rest.length < c.rest.length) : c.ahead < next.ahead := by
  obtain ⟨u, hu⟩ := hn.rest
  unfold Cursor.ahead
  cases hc : c.rest with
  | nil => rw [hc] at hl; simp at hl
  | cons t ts =>
    cases u with
    | nil => rw [← hu] at hl; simp at hl
    | cons t' u =>
      rw [hc, List.cons_append, List.cons.injEq] at hu
      obtain ⟨rfl, hts⟩ := hu
      have hr := h.rising
      rw [hc, List.pairwise_cons] at hr
      cases hx : next.rest with
      | nil => rw [hn.stop]; exact h.below t' (by rw [hc]; exact List.mem_cons_self)
      | cons x xs => exact hr.1 x (by rw [← hts, hx]; simp)

theorem Ordered.ahead_le {c next : Cursor} (h : Ordered c) (hn : Beyond c next) : c.ahead ≤ next.ahead := by
  rcases hn.rest.length_le.lt_or_eq with hl | hl
  · exact (h.ahead_lt hn hl).le
  · have : next.rest = c.rest := hn.rest.eq_of_length hl
    unfold Cursor.ahead
    rw [this, hn.stop]

/-- the furthest complaint so far stands no further than the limit -/
def Reached (c : Cursor) (limit : Int) : Prop := ∀ old, c.furthest = some old → old.position ≤ limit

/-- a complaint that stands as far as any before is kept -/
theorem remember_of_reached {c : Cursor} {complaint : Complaint} (h : Reached c complaint.position) :
    (c.remember complaint).furthest = some complaint := by
  unfold Cursor.remember
  cases hf : c.furthest with
  | none => rfl
  | some old => simp only [if_pos (h old hf)]

theorem remember_stop (c : Cursor) (complaint : Complaint) : (c.remember complaint).stop = c.stop := by
  unfold Cursor.remember
  split
  · rfl
  · split_ifs <;> rfl

theorem remember_reached {c : Cursor} {complaint : Complaint} {limit : Int} (h : Reached c limit)
    (hl : complaint.position ≤ limit) : Reached (c.remember complaint) limit := by
  intro old hold
  unfold Cursor.remember at hold
  cases hf : c.furthest with
  | none => simp only [hf] at hold; cases hold; exact hl
  | some o =>
    simp only [hf] at hold
    split_ifs at hold
    · cases hold; exact hl
    · exact h old (by rw [← hold, hf])

/-! ## Stuck cursors -/

/-- a cursor before a token that can start an expression, at which an expression fails -/
structure Stuck (c : Cursor) (e : Complaint) : Prop where
  starts : startsExpression c = true
  fails : ∃ c₀ after, Twin c c₀ ∧ expression predictive c₀ = .fail e after

/-- the furthest complaint is the given one, and it stands further on than the next token -/
structure Marked (c : Cursor) (e : Complaint) : Prop where
  furthest : c.furthest = some e
  further : c.ahead < e.position

/-- a complaint about the next token does not replace one that stands further on -/
theorem Marked.remember {c : Cursor} {e : Complaint} (h : Marked c e) (wanted : Wanted) :
    (c.remember (c.complaint wanted)).furthest = some e := by
  have hlt : ¬ e.position ≤ (c.complaint wanted).position := by
    rw [complaint_position]
    exact not_le.2 h.further
  simp only [Cursor.remember, h.furthest, if_neg hlt]

/-- a parser that, before a token that can start an expression, complains about it or, if `o` holds, succeeds without
taking it -/
def Rests (o : Prop) (p : Parser α) : Prop :=
  ∀ c, startsExpression c = true → (∃ wanted, p c = .fail (c.complaint wanted) c) ∨ (o ∧ ∃ a, p c = .ok a c)

theorem rests_pure {o : Prop} (ho : o) (a : α) : Rests o (pure a : Parser α) := fun _ _ => Or.inr ⟨ho, a, rfl⟩

theorem rests_expect {o : Prop} {kind : TokenKind} {lexemes : List String} (go : Token → Parser α)
    (h : ∀ head, headStarts head = true → headIs kind lexemes head = false) : Rests o (expect kind lexemes >>= go) := by
  intro c hc
  rw [startsExpression_eq] at hc
  obtain ⟨wanted, hfail⟩ := expect_of_not (h c.rest.head? hc)
  exact Or.inl ⟨wanted, bind_fail hfail⟩

theorem rests_look {o : Prop} {question : Cursor → Bool} {p q : Parser α}
    (h : ∀ c, startsExpression c = true → question c = false) (hq : Rests o q) :
    Rests o (do if ← look question then p else q) := by
  intro c hc
  rw [look_bind, h c hc]
  exact hq c hc

theorem rests_operandLoop {o : Prop} (ho : o) (operators : List String) {operand : Parser Node} (hp : Consumes operand)
    (left : Node) : Rests o (operandLoop operators operand left) := by
  rw [operandLoop_unfold operators hp]
  refine rests_look (fun c hc => ?_) (rests_pure ho left)
  rw [sees_eq]
  rw [startsExpression_eq] at hc
  exact (starts_excludes hc).2.2.2.2.2 operators

/-! ## Shadows -/

/-- how the answer of a speculative parser follows that of its predictive counterpart, both asked at `c` -/
inductive Shadows (o : Prop) (c : Cursor) : Reply α → Reply α → Prop where
  | ok {a : α} {next next₀ : Cursor} (twin : Twin next next₀) (beyond : Beyond c next)
      (reached : Ordered c → ∀ limit, Reached c limit → next.ahead ≤ limit → Reached next limit) :
      Shadows o c (.ok a next) (.ok a next₀)
  | fail {e e' : Complaint} {next next₀ : Cursor} (stop : next.stop = c.stop) (later : Ordered c → c.ahead ≤ e.position)
      (settled : Ordered c → Reached c e.position → (next.remember e').furthest = some e) :
      Shadows o c (.fail e' next) (.fail e next₀)
  | stuck {a : α} {e : Complaint} {next next₀ : Cursor} (allowed : o) (stuck : Stuck next e) (beyond : Beyond c next)
      (later : Ordered c → c.ahead ≤ e.position) (marked : Ordered c → Reached c e.position → Marked next e) :
      Shadows o c (.ok a next) (.fail e next₀)
  | unreadable {token : Token} {next next₀ : Cursor} : Shadows o c (.unreadable token next) (.unreadable token next₀)

/-- what follows further on follows from here, if nothing further on was complained about on the way -/
theorem Shadows.after {o : Prop} {c next : Cursor} {reply reply₀ : Reply α} (h : Shadows o next reply reply₀)
    (beyond : Beyond c next)
    (reached : Ordered c → ∀ limit, Reached c limit → next.ahead ≤ limit → Reached next limit) :
    Shadows o c reply reply₀ := by
  cases h with
  | ok twin' beyond' reached' =>
    refine .ok twin' (beyond.trans beyond') fun hord limit hr ha => ?_
    have hord' := hord.beyond beyond
    exact reached' hord' limit (reached hord limit hr ((hord'.ahead_le beyond').trans ha)) ha
  | fail stop later settled =>
    refine .fail (stop.trans beyond.stop) (fun hord => ?_) fun hord hr => ?_
    · exact (hord.ahead_le beyond).trans (later (hord.beyond beyond))
    · have hord' := hord.beyond beyond
      exact settled hord' (reached hord _ hr (later hord'))
  | stuck allowed stuck beyond' later marked =>
    refine .stuck allowed stuck (beyond.trans beyond') (fun hord => ?_) fun hord hr => ?_
    · exact (hord.ahead_le beyond).trans (later (hord.beyond beyond))
    · have hord' := hord.beyond beyond
      exact marked hord' (reached hord _ hr (later hord'))
  | unreadable => exact .unreadable

/-- one more argument in front of those that follow -/
theorem Shadows.cons {o : Prop} {c next₀ : Cursor} {reply : Reply (List Node)} {more₀ : Parser (List Node)} (first : Node) :
    Shadows o c reply (more₀ next₀) → Shadows o c
      (match reply with
        | .ok others last => .ok (first :: others) last
        | .fail complaint last => .fail complaint last
        | .unreadable token last => .unreadable token last)
      ((more₀ >>= fun others => pure (first :: others)) next₀) := by
  intro h
  rw [bind_apply]
  generalize more₀ next₀ = reply₀ at h ⊢
  cases h with
  | ok twin beyond reached => exact .ok twin beyond reached
  | fail stop later settled => exact .fail stop later settled
  | stuck allowed stuck beyond later marked => exact .stuck allowed stuck beyond later marked
  | unreadable => exact .unreadable

/-- with fewer than `n` tokens left, `p` follows `q` -/
def Shadowed (o : Prop) (n : ℕ) (p q : Parser α) : Prop :=
  ∀ c c₀, Twin c c₀ → c.rest.length < n → Shadows o c (p c) (q c₀)

theorem Shadows.fail_at {o : Prop} {c c₀ : Cursor} (h : Twin c c₀) (wanted : Wanted) :
    Shadows o c (.fail (c.complaint wanted) c : Reply α) (.fail (c₀.complaint wanted) c₀) := by
  rw [← h.complaint]
  refine .fail rfl (fun _ => by rw [complaint_position]) fun _ hr => remember_of_reached hr

namespace Shadowed

theorem mono {o o' : Prop} {n m : ℕ} {p q : Parser α} (h : Shadowed o n p q) (ho : o → o') (hm : m ≤ n) :
    Shadowed o' m p q := by
  intro c c₀ hc hl
  have hr := h c c₀ hc (by omega)
  generalize p c = reply at hr ⊢
  generalize q c₀ = reply₀ at hr ⊢
  cases hr with
  | ok twin beyond reached => exact .ok twin beyond reached
  | fail stop later settled => exact .fail stop later settled
  | stuck allowed stuck beyond later marked => exact .stuck (ho allowed) stuck beyond later marked
  | unreadable => exact .unreadable

theorem pure (o : Prop) (n : ℕ) (a : α) : Shadowed o n (Pure.pure a : Parser α) (Pure.pure a) :=
  fun c _ hc _ => .ok hc (.refl c) fun _ _ hr _ => hr

/-- taking the next token leaves the furthest complaint alone -/
theorem ok_tail {o : Prop} {c c₀ : Cursor} (h : Twin c c₀) {t : Token} {ts : List Token} (hr : c.rest = t :: ts) (a : α) :
    Shadows o c (.ok a { c with rest := ts }) (.ok a { c₀ with rest := ts }) :=
  .ok ⟨rfl, h.stop⟩ ⟨by rw [hr]; exact List.suffix_cons t ts, rfl⟩ fun _ _ hr _ => hr

theorem advance (n : ℕ) : Shadowed False n Parsing.advance Parsing.advance := by
  intro c c₀ hc _
  unfold Parsing.advance
  rw [← hc.rest]
  cases hr : c.rest with
  | nil => exact .fail_at hc _
  | cons t ts => exact ok_tail hc hr t

theorem expectKind (n : ℕ) (kind : TokenKind) : Shadowed False n (Parsing.expectKind kind) (Parsing.expectKind kind) := by
  intro c c₀ hc _
  unfold Parsing.expectKind
  rw [← hc.rest]
  cases hr : c.rest with
  | nil => exact .fail_at hc _
  | cons t ts =>
    dsimp only
    split_ifs
    · exact ok_tail hc hr t
    · exact .fail_at hc _

theorem expect (n : ℕ) (kind : TokenKind) (lexemes : List String) :
    Shadowed False n (Parsing.expect kind lexemes) (Parsing.expect kind lexemes) := by
  intro c c₀ hc _
  unfold Parsing.expect
  rw [← hc.rest]
  cases hr : c.rest with
  | nil => exact .fail_at hc _
  | cons t ts =>
    dsimp only
    split_ifs
    · exact .fail_at hc _
    · exact ok_tail hc hr t
    · exact .fail_at hc _

/-- a sequence follows a sequence; where the first part may get stuck, the second stays there -/
theorem bind {o o' : Prop} {n b : ℕ} {p q : Parser α} {f g : α → Parser β} (hp : Shadowed o n p q) (hq : Agree n b q q)
    (hf : ∀ a, Shadowed o' (n - b) (f a) (g a)) (hs : o → ∀ a, Rests o' (f a)) : Shadowed o' n (p >>= f) (q >>= g) := by
  intro c c₀ hc hl
  have h := hp c c₀ hc hl
  have ht := (hq c₀ (by rw [← hc.rest]; exact hl)).2
  rw [bind_apply, bind_apply]
  generalize p c = reply at h ⊢
  generalize q c₀ = reply₀ at h ht ⊢
  cases h with
  | @ok a next next₀ twin beyond reached =>
    have hn : next.rest.length < n - b := by
      have := ht a next₀ rfl
      rw [twin.rest]
      rw [hc.rest] at hl
      omega
    exact (hf a next next₀ twin hn).after beyond reached
  | fail stop later settled => exact .fail stop later settled
  | @stuck a e next next₀ allowed stuck beyond later marked =>
    dsimp only
    rcases hs allowed a next stuck.starts with ⟨wanted, hw⟩ | ⟨ho', a', ha⟩
    · rw [hw]
      exact .fail beyond.stop later fun hord hr => (marked hord hr).remember wanted
    · rw [ha]
      exact .stuck ho' stuck beyond later marked
  | unreadable => exact .unreadable

/-- the predictive parser gains no tokens -/
theorem agree {o : Prop} {n : ℕ} {p q : Parser α} (h : Shadowed o n p q) : Agree n 0 q q := by
  refine fun c hl => ⟨rfl, fun a next₀ hq => ?_⟩
  have hr := h c c ⟨rfl, rfl⟩ hl
  rw [hq] at hr
  generalize p c = reply at hr
  cases hr with
  | ok twin beyond reached => rw [← twin.rest]; exact beyond.rest.length_le

theorem andThen {o o' : Prop} {n : ℕ} {p q : Parser α} {f g : α → Parser β} (hp : Shadowed o n p q)
    (hf : ∀ a, Shadowed o' n (f a) (g a)) (hs : o → ∀ a, Rests o' (f a)) : Shadowed o' n (p >>= f) (q >>= g) :=
  hp.bind hp.agree hf hs

theorem first {o : Prop} {n : ℕ} {p : Parser α} {f g : α → Parser β} (hp : Shadowed False n p p) (hq : Agree n 1 p p)
    (hf : ∀ a, Shadowed o (n - 1) (f a) (g a)) : Shadowed o n (p >>= f) (p >>= g) :=
  hp.bind hq hf fun h => h.elim

theorem look {o : Prop} {n : ℕ} {question : Cursor → α} {f g : α → Parser β}
    (hq : ∀ c c₀, Twin c c₀ → question c = question c₀) (hf : ∀ a, Shadowed o n (f a) (g a)) :
    Shadowed o n (Parsing.look question >>= f) (Parsing.look question >>= g) := by
  intro c c₀ hc hl
  rw [look_bind, look_bind, ← hq c c₀ hc]
  exact hf _ c c₀ hc hl

theorem either {o : Prop} {n : ℕ} {question : Cursor → Bool} {p p' q q' : Parser α} (answer : Option Token → Bool)
    (hq : ∀ c, question c = answer c.rest.head?) (h : Shadowed o n p q) (h' : Shadowed o n p' q') :
    Shadowed o n (do if ← Parsing.look question then p else p') (do if ← Parsing.look question then q else q') :=
  look (fun c c₀ hc => by rw [hq, hq, hc.rest]) fun x => by
    cases x
    · exact h'
    · exact h

/-! ### Rules -/

section

variable {o : Prop} {n : ℕ} {e e₀ : Parser Node}

theorem number (n : ℕ) : Shadowed False n Parsing.number Parsing.number := by
  refine (expectKind n .number).first (.expectKind n _) fun t => ?_
  cases Numeral.read t.lexeme with
  | some i => exact pure _ _ _
  | none => exact fun _ _ _ _ => .unreadable

theorem group (he : Shadowed True n e e₀) : Shadowed False (n + 1) (Parsing.group e) (Parsing.group e₀) :=
  (expect _ _ _).first (.expect _ _ _) fun _ => he.andThen
    (fun _ => (expect _ _ _).andThen (fun _ => pure _ _ _) fun h => h.elim)
    fun _ _ => rests_expect _ fun _ h => (starts_excludes h).1

theorem loopCount (he : Shadowed True n e e₀) : Shadowed False (n + 1) (Parsing.loopCount e) (Parsing.loopCount e₀) :=
  either _ (seesKind_eq _) ((advance _).first (.advance _) fun _ => pure _ _ _)
    (either _ (sees_eq _ _) he.group (number _))

theorem loop (he : Shadowed True n e e₀) : Shadowed True (n + 1) (Parsing.loop e) (Parsing.loop e₀) :=
  (advance _).first (.advance _) fun _ => (he.loopCount.mono id (Nat.le_succ n)).andThen
    (fun _ => he.andThen (fun _ => pure _ _ _) fun _ _ => rests_pure trivial _) fun h => h.elim

theorem letBinding (he : Shadowed True n e e₀) : Shadowed True n (Parsing.letBinding e) (Parsing.letBinding e₀) :=
  (advance _).andThen (fun _ => (expectKind _ _).andThen (fun _ => (expect _ _ _).andThen (fun _ =>
    he.andThen (fun _ => pure _ _ _) fun _ _ => rests_pure trivial _) fun h => h.elim) fun h => h.elim) fun h => h.elim

theorem statement (he : Shadowed True n e e₀) : Shadowed True n (Parsing.statement e) (Parsing.statement e₀) :=
  either _ (sees_eq _ _)
    ((advance _).andThen (fun _ => he.andThen (fun _ => pure _ _ _) fun _ _ => rests_pure trivial _) fun h => h.elim)
    (either headLet seesLet_eq he.letBinding he)

theorem statementLoop (hc : Consumes e) (hc₀ : Consumes e₀) (he : Shadowed True n e e₀) :
    Shadowed True n (Parsing.statementLoop e) (Parsing.statementLoop e₀) := by
  induction n with
  | zero => exact fun _ _ _ h => by cases h
  | succ n ih =>
    rw [statementLoop_unfold hc, statementLoop_unfold hc₀]
    refine either headCloses closes_eq (pure _ _ _) (he.statement.andThen (fun stmt => ?_) fun _ stmt => ?_)
    · refine either _ (sees_eq _ _) ((advance _).first (.advance _) fun _ => ?_) (pure _ _ _)
      exact (ih (he.mono id (Nat.le_succ n))).andThen (fun _ => pure _ _ _) fun _ _ => rests_pure trivial _
    · refine rests_look (fun c h => ?_) (rests_pure trivial _)
      rw [startsExpression_eq] at h
      rw [sees_eq]
      exact (starts_excludes h).2.2.2.2.1

theorem statements (hc : Consumes e) (hc₀ : Consumes e₀) (he : Shadowed True n e e₀) (position : Int) :
    Shadowed True n (Parsing.statements e position) (Parsing.statements e₀ position) := by
  rw [statements_eq, statements_eq]
  refine look (fun c c₀ h => by rw [openingPosition_eq, openingPosition_eq, h.rest]) fun opening => ?_
  exact (he.statementLoop hc hc₀).andThen (fun _ => pure _ _ _) fun _ _ => rests_pure trivial _

theorem block (hc : Consumes e) (hc₀ : Consumes e₀) (he : Shadowed True n e e₀) :
    Shadowed False (n + 1) (Parsing.block e) (Parsing.block e₀) :=
  (advance _).first (.advance _) fun _ => (he.statements hc hc₀ _).andThen
    (fun _ => (expect _ _ _).andThen (fun _ => pure _ _ _) fun h => h.elim)
    fun _ _ => rests_expect _ fun _ h => (starts_excludes h).2.1

theorem operandLoop (operators : List String) (hc : Consumes e) (hc₀ : Consumes e₀) (he : Shadowed True n e e₀)
    (left : Node) : Shadowed True n (Parsing.operandLoop operators e left) (Parsing.operandLoop operators e₀ left) := by
  induction n generalizing left with
  | zero => exact fun _ _ _ h => by cases h
  | succ n ih =>
    have he' := he.mono id (Nat.le_succ n)
    rw [operandLoop_unfold operators hc, operandLoop_unfold operators hc₀]
    refine either _ (sees_eq _ _) ((advance _).first (.advance _) fun op => ?_) (pure _ _ _)
    exact he'.andThen (fun right => ih he' _) fun _ right => rests_operandLoop trivial operators hc _

theorem leftChain (operators : List String) (hc : Consumes e) (hc₀ : Consumes e₀) (he : Shadowed True n e e₀) :
    Shadowed True n (Parsing.leftChain operators e) (Parsing.leftChain operators e₀) := by
  rw [leftChain_eq, leftChain_eq]
  exact he.andThen (fun left => he.operandLoop operators hc hc₀ left) fun _ left =>
    rests_operandLoop trivial operators hc left

theorem atMostOnce (operators : List String) (he : Shadowed True n e e₀) :
    Shadowed True n (Parsing.atMostOnce operators e) (Parsing.atMostOnce operators e₀) := by
  refine he.andThen (fun left => ?_) fun _ left => ?_
  · refine either _ (sees_eq _ _) ((advance _).andThen (fun op => ?_) fun h => h.elim) (pure _ _ _)
    exact he.andThen (fun _ => pure _ _ _) fun _ _ => rests_pure trivial _
  · refine rests_look (fun c h => ?_) (rests_pure trivial _)
    rw [startsExpression_eq] at h
    rw [sees_eq]
    exact (starts_excludes h).2.2.2.2.2 operators

theorem parameterLoop (n : ℕ) : Shadowed False n Parsing.parameterLoop Parsing.parameterLoop := by
  induction n with
  | zero => exact fun _ _ _ h => by cases h
  | succ n ih =>
    rw [parameterLoop_unfold]
    refine either _ (seesKind_eq _) ((advance _).first (.advance _) fun _ => ?_) (pure _ _ _)
    exact ih.andThen (fun _ => pure _ _ _) fun h => h.elim

theorem lambda (he : Shadowed True n e e₀) : Shadowed True (n + 1) (Parsing.lambda e) (Parsing.lambda e₀) := by
  rw [lambda_eq, lambda_eq]
  refine (expect _ _ _).first (.expect _ _ _) fun _ => (parameterLoop _).andThen (fun _ => ?_) fun h => h.elim
  exact (expect _ _ _).andThen (fun _ => he.andThen (fun _ => pure _ _ _) fun _ _ => rests_pure trivial _) fun h => h.elim

end

end Shadowed

/-! ## Gathering arguments -/

theorem speculative_consumes : Consumes (expression speculative) := expression_consumes speculative_steady

/-- before a token that cannot start an expression, an expression is complained about like a number -/
theorem expression_of_not_starts {gather : Gather} (hg : Steady gather) {c : Cursor} (h : startsExpression c = false) :
    expression gather c = .fail (c.complaint (.kind .number)) c := by
  have hsees : c.sees .symbol ["\\"] = false ∧ c.sees .keyword ["if"] = false ∧ c.sees .keyword ["loop"] = false ∧
      c.sees .paren ["("] = false ∧ c.sees .paren ["\x7b"] = false ∧ c.seesKind .identifier = false ∧
      c.seesKind .number = false := by
    rw [startsExpression_eq] at h
    simp only [sees_eq, seesKind_eq]
    cases hh : c.rest.head? with
    | none => exact ⟨rfl, rfl, rfl, rfl, rfl, rfl, rfl⟩
    | some t =>
      rw [hh] at h
      simp only [headStarts, headIs, headKind, Token.isOneOf, Option.any_some, Bool.or_eq_false_iff, Bool.and_eq_false_iff,
        decide_eq_false_iff_not, List.contains_cons, List.contains_nil, beq_eq_false_iff_ne, Bool.or_false] at h ⊢
      grind
  obtain ⟨hl, hi, ho, hp, hb, hn, hk⟩ := hsees
  have hnumber : number c = .fail (c.complaint (.kind .number)) c := by
    unfold number
    rw [bind_apply, expectKind]
    cases hr : c.rest with
    | nil => rfl
    | cons t ts =>
      have : ¬ t.kind = .number := by simpa [Cursor.seesKind, hr] using hk
      simp only [if_neg this]
  have hfactor : factor gather (expression gather) c = .fail (c.complaint (.kind .number)) c := by
    simp only [factor, look_bind, hp, ho, hb, hn, Bool.false_eq_true, if_false, hnumber]
  have hequality : equality gather (expression gather) c = .fail (c.complaint (.kind .number)) c :=
    bind_fail (bind_fail (bind_fail (bind_fail hfactor)))
  rw [expression_unfold hg]
  simp only [expressionStep, look_bind, hl, hi, Bool.false_eq_true, if_false, hequality]

/-- behind a token that can start an expression, the complaint about the expression stands further on -/
theorem expression_fails_further {c next : Cursor} {e : Complaint} (h : expression predictive c = .fail e next)
    (hs : startsExpression c = true) (hord : Ordered c) : c.ahead < e.position := by
  obtain ⟨w, s, f⟩ := c
  have hf := expression_oneAhead (w.length + 1) w s f (Nat.lt_succ_self _)
  rw [h] at hf
  cases hf with
  | @fail u r wanted split taken same =>
    rw [startsExpression_eq] at hs
    have hu := taken hs
    rw [complaint_position]
    refine hord.ahead_lt ⟨⟨u, split.symm⟩, rfl⟩ ?_
    rw [split]
    simp only [List.length_append]
    omega

theorem Twin.starts {c c₀ : Cursor} (h : Twin c c₀) : startsExpression c = startsExpression c₀ := by
  rw [startsExpression_eq, startsExpression_eq, h.rest]

/-- at a stuck cursor the complaint stands further on than the next token -/
theorem Stuck.further {c : Cursor} {e : Complaint} (h : Stuck c e) (hord : Ordered c) : c.ahead < e.position := by
  obtain ⟨c₀, after, htwin, hfail⟩ := h.fails
  rw [htwin.ahead]
  exact expression_fails_further hfail (htwin.starts ▸ h.starts) (htwin.ordered hord)

/-- before a token that can start an expression the attempts go on -/
theorem goes_on_of_starts {c : Cursor} (h : startsExpression c = true) : (c.atEnd || c.sees .symbol [";"]) = false := by
  rw [startsExpression_eq] at h
  rw [atEnd_eq, sees_eq, (starts_excludes h).2.2.2.2.1]
  cases hh : c.rest.head? with
  | none => rw [hh] at h; cases h
  | some t => rfl

/-- an attempt that was given up leaves the next token as it was -/
theorem ahead_rewind {c next : Cursor} (e : Complaint) (h : next.stop = c.stop) :
    Cursor.ahead { (next.remember e) with rest := c.rest } = c.ahead := by
  unfold Cursor.ahead
  simp only [remember_stop, h]

/-- from a stuck cursor the attempts stay stuck, with the same complaint -/
theorem attempts_stuck {n : ℕ} (he : Shadowed True n (expression speculative) (expression predictive)) {c : Cursor}
    {e : Complaint} (hl : c.rest.length < n) (hs : Stuck c e) :
    ∃ args next, speculative (expression speculative) c = .ok args next ∧ Stuck next e ∧ Beyond c next ∧
      (Ordered c → Reached c e.position → Marked next e) := by
  induction hm : c.rest.length using Nat.strong_induction_on generalizing c with
  | _ m ih =>
    subst hm
    obtain ⟨c₀, after, htwin, hfail⟩ := hs.fails
    have hstart := hs.starts
    have hgo := goes_on_of_starts hstart
    have hr := he c c₀ htwin hl
    rw [hfail] at hr
    rw [speculative_unfold speculative_consumes]
    simp only [speculativeRound, hgo, Bool.false_eq_true, if_false]
    cases ha : expression speculative c with
    | ok first next =>
      rw [ha] at hr
      cases hr with
      | stuck _ stuck beyond later marked =>
        have hlt := speculative_consumes.lt ha
        obtain ⟨others, last, hok, hstuck, hbeyond, hmarked⟩ := ih _ hlt (hlt.trans hl) stuck rfl
        refine ⟨first :: others, last, by simp only [hok], hstuck, beyond.trans hbeyond, fun hord hreach => ?_⟩
        refine hmarked (hord.beyond beyond) fun old hold => ?_
        rw [(marked hord hreach).furthest] at hold
        cases hold
        exact le_rfl
    | fail e' next =>
      rw [ha] at hr
      cases hr with
      | fail stop later settled =>
        refine ⟨[], _, rfl, ⟨?_, c₀, after, ⟨htwin.rest, ?_⟩, hfail⟩, ⟨List.suffix_rfl, ?_⟩, fun hord hreach => ⟨?_, ?_⟩⟩
        · rw [startsExpression_eq] at hstart ⊢
          exact hstart
        · rw [remember_stop, stop, htwin.stop]
        · rw [remember_stop, stop]
        · exact settled hord hreach
        · rw [ahead_rewind e' stop]
          exact hs.further hord
    | unreadable token next =>
      rw [ha] at hr
      cases hr

/-- where no expression can start, the attempt takes nothing and leaves at most a complaint about the next token -/
theorem attempt_shadowed_of_not_starts {c c₀ : Cursor} (more : Parser (List Node)) (htwin : Twin c c₀)
    (hs : startsExpression c = false) :
    Shadows True c (speculativeRound (expression speculative) more c) (.ok [] c₀) := by
  unfold speculativeRound
  split_ifs with hstop
  · exact .ok htwin (.refl c) fun _ _ hr _ => hr
  · rw [expression_of_not_starts speculative_steady hs]
    refine .ok ⟨htwin.rest, ?_⟩ ⟨List.suffix_rfl, remember_stop _ _⟩ fun _ limit hr ha => ?_
    · rw [remember_stop, htwin.stop]
    · rw [ahead_rewind _ rfl] at ha
      exact remember_reached hr (by rw [complaint_position]; exact ha)

/-- trying arguments follows looking ahead for them -/
theorem speculative_shadowed {n : ℕ} (he : Shadowed True n (expression speculative) (expression predictive)) :
    Shadowed True n (speculative (expression speculative)) (predictive (expression predictive)) := by
  intro c c₀ htwin hl
  -- each argument takes a token, so the rounds are counted by the tokens left
  induction hm : c.rest.length using Nat.strong_induction_on generalizing c c₀ with
  | _ m ih =>
    subst hm
    rw [speculative_unfold speculative_consumes, predictive_unfold predictive_consumes]
    simp only [predictiveRound, look_bind, ← htwin.starts]
    cases hs : startsExpression c with
    | false => exact attempt_shadowed_of_not_starts _ htwin hs
    | true =>
      rw [if_pos rfl, bind_apply]
      have hr := he c c₀ htwin hl
      have hgo := goes_on_of_starts hs
      cases hq : expression predictive c₀ with
      | ok first next₀ =>
        rw [hq] at hr
        simp only [speculativeRound, hgo, Bool.false_eq_true, if_false]
        cases ha : expression speculative c with
        | fail e next => rw [ha] at hr; cases hr
        | unreadable token next => rw [ha] at hr; cases hr
        | ok first' next =>
          rw [ha] at hr
          cases hr with
          | ok twin beyond reached =>
            have hlt := speculative_consumes.lt ha
            have hmore := ih _ hlt next next₀ twin (hlt.trans hl) rfl
            exact Shadows.after (hmore.cons first) beyond reached
      | fail e after =>
        have hstuck : Stuck c e := ⟨hs, c₀, after, htwin, hq⟩
        obtain ⟨args, next, hok, hst, hbeyond, hmarked⟩ := attempts_stuck he hl hstuck
        rw [speculative_unfold speculative_consumes] at hok
        rw [hok]
        exact .stuck trivial hst hbeyond (fun hord => (hstuck.further hord).le) hmarked
      | unreadable token after =>
        rw [hq] at hr
        simp only [speculativeRound, hgo, Bool.false_eq_true, if_false]
        generalize expression speculative c = reply at hr ⊢
        cases hr with
        | unreadable => exact .unreadable

/-! ## Expressions and programs -/

namespace Shadowed

section

variable {n : ℕ} (he : Shadowed True n (expression speculative) (expression predictive))

include he

theorem application :
    Shadowed True (n + 1) (Parsing.application speculative (expression speculative))
      (Parsing.application predictive (expression predictive)) := by
  have hlast : ∀ (name : Token) (args : List Node), ∃ node, (if args.isEmpty = true then
      (Pure.pure (.reference name.position (.text name.lexeme)) : Parser Node)
      else Pure.pure (.call name.position (.text name.lexeme) args)) = Pure.pure node := by
    intro name args
    split_ifs
    · exact ⟨_, rfl⟩
    · exact ⟨_, rfl⟩
  refine (advance _).first (.advance _) fun name => (speculative_shadowed he).andThen (fun args => ?_) fun _ args => ?_
  · obtain ⟨node, hnode⟩ := hlast name args
    rw [hnode]
    exact pure _ _ _
  · obtain ⟨node, hnode⟩ := hlast name args
    rw [hnode]
    exact rests_pure trivial node

theorem factor :
    Shadowed True (n + 1) (Parsing.factor speculative (expression speculative))
      (Parsing.factor predictive (expression predictive)) :=
  either _ (sees_eq _ _) (he.group.mono (fun h => h.elim) le_rfl)
    (either _ (sees_eq _ _) he.loop
      (either _ (sees_eq _ _) ((he.block speculative_consumes predictive_consumes).mono (fun h => h.elim) le_rfl)
        (either _ (seesKind_eq _) he.application ((number _).mono (fun h => h.elim) le_rfl))))

theorem equality :
    Shadowed True (n + 1) (Parsing.equality speculative (expression speculative))
      (Parsing.equality predictive (expression predictive)) := by
  have hf : Consumes (Parsing.factor speculative (expression speculative)) := factor_consumes speculative_steady
  have hf₀ : Consumes (Parsing.factor predictive (expression predictive)) := factor_consumes predictive_steady
  have ht := he.factor.leftChain multiplicativeOperators hf hf₀
  have ha := ht.leftChain additiveOperators (fun n => (hf n).leftChain _) (fun n => (hf₀ n).leftChain _)
  exact (ha.atMostOnce relationalOperators).atMostOnce equalityOperators

theorem conditional :
    Shadowed True (n + 1) (Parsing.conditional speculative (expression speculative))
      (Parsing.conditional predictive (expression predictive)) := by
  refine (expect _ _ _).first (.expect _ _ _) fun _ => (he.equality.mono id (Nat.le_succ n)).andThen (fun _ => ?_)
    fun _ _ => rests_expect _ fun _ h => (starts_excludes h).2.2.1
  refine (expect _ _ _).andThen (fun _ => he.andThen (fun _ => ?_)
    fun _ _ => rests_expect _ fun _ h => (starts_excludes h).2.2.2.1) fun h => h.elim
  exact (expect _ _ _).andThen (fun _ => he.andThen (fun _ => pure _ _ _) fun _ _ => rests_pure trivial _) fun h => h.elim

theorem expressionStep :
    Shadowed True (n + 1) (Parsing.expressionStep speculative (expression speculative))
      (Parsing.expressionStep predictive (expression predictive)) :=
  either _ (sees_eq _ _) he.lambda (either _ (sees_eq _ _) he.conditional he.equality)

end

end Shadowed

/-- **Expressions are read alike with and without speculation**, up to a stuck end. -/
theorem expression_shadowed (n : ℕ) : Shadowed True n (expression speculative) (expression predictive) := by
  induction n with
  | zero => exact fun _ _ _ h => by cases h
  | succ n ih =>
    rw [expression_unfold speculative_steady, expression_unfold predictive_steady]
    exact ih.expressionStep

/-- what is stuck at the end of the statements is complained about there -/
theorem wholeInput_shadowed (n : ℕ) : Shadowed False n (wholeInput speculative) (wholeInput predictive) := by
  refine ((expression_shadowed n).statements speculative_consumes predictive_consumes 0).andThen (fun body => ?_)
    fun _ body => ?_
  · exact .either headMore more_eq ((Shadowed.expect _ _ _).andThen (fun _ => .pure _ _ _) fun h => h.elim) (.pure _ _ _)
  · intro c hc
    have hend : (!c.atEnd) = true := by simpa using (Bool.or_eq_false_iff.1 (goes_on_of_starts hc)).1
    rw [look_bind, hend]
    exact rests_expect (fun _ => pure body) (fun _ h => (starts_excludes h).2.2.2.2.1) c hc

/-! ## Whole token lists -/

/-- what a reply says about a whole token list, with no complaint but its own -/
def Reply.verdict : Reply Node → Except ParseError Node
  | .ok tree _ => .ok tree
  | .fail complaint _ => .error (.complaint complaint)
  | .unreadable token _ => .error (.unreadable token)

theorem start_shadows (tokens : List Token) :
    Shadows False (Cursor.start tokens) (wholeInput speculative (Cursor.start tokens))
      (wholeInput predictive (Cursor.start tokens)) :=
  wholeInput_shadowed (tokens.length + 1) _ _ ⟨rfl, rfl⟩ (Nat.lt_succ_self _)

/-- the predictive parser remembers nothing, so it reports the complaint it stops at -/
theorem parseWith_predictive (tokens : List Token) :
    parseWith predictive tokens = (wholeInput predictive (Cursor.start tokens)).verdict := by
  have hf := wholeInput_oneAhead (tokens.length + 1) tokens (Cursor.stopOf tokens) none (Nat.lt_succ_self _)
  unfold parseWith program
  simp only [Cursor.start]
  generalize wholeInput predictive ⟨tokens, Cursor.stopOf tokens, none⟩ = reply at hf ⊢
  cases hf with
  | ok split taken same => rfl
  | fail split taken same => rfl
  | unreadable split same => rfl

/-- the two ways to gather arguments accept the same token lists, with the same trees -/
theorem parse_ok_iff (tokens : List Token) (tree : Node) :
    parse tokens = .ok tree ↔ (wholeInput predictive (Cursor.start tokens)).verdict = .ok tree := by
  have hs := start_shadows tokens
  unfold parse parseWith program
  generalize wholeInput speculative (Cursor.start tokens) = reply at hs ⊢
  generalize wholeInput predictive (Cursor.start tokens) = reply₀ at hs ⊢
  cases hs with
  | ok twin beyond reached => exact Iff.rfl
  | fail stop later settled =>
    constructor
    · intro h; cases h
    · intro h; cases h
  | stuck allowed => exact allowed.elim
  | unreadable =>
    constructor
    · intro h; cases h
    · intro h; cases h

/-- where the positions increase, they also give the same errors -/
theorem parse_eq_verdict {tokens : List Token} (hord : Ordered (Cursor.start tokens)) :
    parse tokens = (wholeInput predictive (Cursor.start tokens)).verdict := by
  have hs := start_shadows tokens
  unfold parse parseWith program
  generalize wholeInput speculative (Cursor.start tokens) = reply at hs ⊢
  generalize wholeInput predictive (Cursor.start tokens) = reply₀ at hs ⊢
  cases hs with
  | ok twin beyond reached => rfl
  | fail stop later settled =>
    have hfirst : ∀ limit, Reached (Cursor.start tokens) limit := fun limit old hold => by cases hold
    simp only [settled hord (hfirst _), Option.getD_some, Reply.verdict]
  | stuck allowed => exact allowed.elim
  | unreadable => rfl

/-- the positions of a lexed text increase -/
theorem tokenize_ordered (source : String) : Ordered (Cursor.start (Token.tokenize source)) := by
  obtain ⟨hpair, hmem⟩ := Token.scan_spans 0 0 source.toList
  change (Token.tokenize source).Pairwise _ at hpair
  change ∀ t ∈ Token.tokenize source, _ at hmem
  refine ⟨hpair.imp_of_mem fun ht _ hle => (hmem _ ht).2.trans_le hle, fun t ht => ?_⟩
  change t ∈ Token.tokenize source at ht
  change t.position < Cursor.stopOf (Token.tokenize source)
  generalize Token.tokenize source = tokens at hpair hmem ht ⊢
  rcases List.eq_nil_or_concat tokens with rfl | ⟨init, last, rfl⟩
  · cases ht
  · rw [List.concat_eq_append] at hpair hmem ht ⊢
    have hlast := (hmem last (by simp)).2
    simp only [Cursor.stopOf, List.getLast?_append, List.getLast?_singleton, Option.some_or]
    rcases List.mem_append.1 ht with hinit | hsame
    · have hle := (List.pairwise_append.1 hpair).2.2 t hinit last (by simp)
      exact ((hmem t ht).2.trans_le hle).trans hlast
    · rw [List.mem_singleton] at hsame
      rw [hsame]
      exact hlast

/-- **Speculation is unnecessary**: on every source text the tree, the complaint or the unreadable number is that of the
predictive parser, which looks one token ahead, never goes back and reports the complaint it stops at. -/
theorem parseSource_eq_predictive (source : String) :
    parseSource source = parseWith predictive (Token.tokenize source) ∧
      parseSource source = (wholeInput predictive (Cursor.start (Token.tokenize source))).verdict := by
  have h := parse_eq_verdict (tokenize_ordered source)
  exact ⟨h.trans (parseWith_predictive _).symm, h⟩

end LetScript.Parsing
