/-
What the parser accepts is in the language, and what it has taken when it gives up can still become a program.

`Reads n Q p D` says of a parser `p`, before fewer than `n` lexical tokens whose first one satisfies `Q`:
- when it succeeds, the tokens it took are a word of `D` that stands for the result;
- when it complains, the tokens it took are the beginning of a word of `D` (`Viable`);
- when it refuses a number, that is one of the tokens, and it cannot be read.

Every rule of the grammar is read by its parser. Main statements: `wholeInput_reading` for whole programs, and
`wholeInput_reads` where all numbers can be read.
-/
import LetScript.Proofs.Parsing.Language

namespace LetScript.Language

open Parsing

variable {α β : Type}

/-! ## Phrases -/

/-- some ordinary tokens make a word of the beginning -/
def Viable (D : Phrase α) (u : List Token) : Prop := ∃ ext a, (∀ t ∈ ext, Ordinary t) ∧ D (u ++ ext) a

/-- no token, for the given result -/
def Nothing (a : α) : Phrase α := fun u b => u = [] ∧ b = a

/-- one lexical token of the accepted ones -/
def Single (accepts : Token → Bool) : Phrase Token := fun u t => u = [t] ∧ Lexical t ∧ accepts t = true

/-- a word of the first phrase, followed by a word of the second -/
def Then (D : Phrase α) (E : α → Phrase β) : Phrase β := fun w b => ∃ u a v, w = u ++ v ∧ D u a ∧ E a v b

/-- what makes a word of `E` out of every word of `D` for the given result -/
def After (D : Phrase α) (a : α) (E : Phrase β) : Phrase β := fun v b => ∀ u, D u a → E (u ++ v) b

theorem then_after {D : Phrase α} {E : Phrase β} {w : List Token} {b : β} (h : Then D (fun a => After D a E) w b) : E w b := by
  obtain ⟨u, a, v, rfl, hu, hv⟩ := h
  exact hv u hu

theorem Viable.mono {D E : Phrase α} (h : ∀ u a, D u a → E u a) {u : List Token} (hu : Viable D u) : Viable E u := by
  obtain ⟨ext, a, hext, hd⟩ := hu
  exact ⟨ext, a, hext, h _ _ hd⟩

/-- a token that is neither number nor identifier is ordinary -/
theorem Ordinary.of_kind {t : Token} (hn : t.kind ≠ .number) (hi : t.kind ≠ .identifier) : Ordinary t :=
  ⟨fun h => absurd h hn, by simp [Token.isOneOf, hi]⟩

/-- the number zero, which completes what still needs an expression -/
def zeroToken (position : Int) : Token := ⟨.number, "0", position⟩

theorem zeroToken_ordinary (position : Int) : ∀ t ∈ [zeroToken position], Ordinary t := by
  intro t ht
  rw [List.mem_singleton.1 ht]
  have hread : Numeral.read "0" = some (decimal "0" : Int) := by decide
  exact ⟨fun _ => hread, rfl⟩

theorem zeroToken_expr (position : Int) : Expr [zeroToken position] (literal (zeroToken position)) :=
  .equality (.one (.one (.one (.one (.number rfl)))))

theorem zeroToken_statement (position : Int) : Statement [zeroToken position] (literal (zeroToken position)) :=
  .bare rfl (zeroToken_expr position)

/-! ## Parsers that read a phrase -/

/-- an answer of a parser that reads the phrase, asked before the tokens `w` -/
inductive Reading (D : Phrase α) (w : List Token) : Reply α → Prop where
  | ok {u : List Token} {a : α} {next : Cursor} (split : w = u ++ next.rest) (derived : D u a) : Reading D w (.ok a next)
  | fail {u : List Token} {complaint : Complaint} {next : Cursor} (split : w = u ++ next.rest) (viable : Viable D u) :
      Reading D w (.fail complaint next)
  | unreadable {token : Token} {next : Cursor} (mem : token ∈ w) (isNumber : token.kind = .number)
      (unread : Numeral.read token.lexeme = none) : Reading D w (.unreadable token next)

/-- every first token, and none -/
abbrev anyHead : Option Token → Prop := fun _ => True

/-- before fewer than `n` lexical tokens, the first in `Q`, the parser reads the phrase -/
structure Reads (n : ℕ) (Q : Option Token → Prop) (p : Parser α) (D : Phrase α) : Prop where
  inhabited : Viable D []
  reads : ∀ c, c.rest.length < n → (∀ t ∈ c.rest, Lexical t) → Q c.rest.head? → Reading D c.rest (p c)

namespace Reads

variable {n m b : ℕ} {Q R : Option Token → Prop} {p q : Parser α} {D E : Phrase α}

theorem mono (h : Reads n Q p D) (hm : m ≤ n) (hQ : ∀ head, R head → Q head) (hD : ∀ u a, D u a → E u a) :
    Reads m R p E := by
  refine ⟨h.inhabited.mono hD, fun c hc hord hq => ?_⟩
  have hr := h.reads c (by omega) hord (hQ _ hq)
  generalize p c = reply at hr ⊢
  cases hr with
  | ok split derived => exact .ok split (hD _ _ derived)
  | fail split viable => exact .fail split (viable.mono hD)
  | unreadable mem isNumber unread => exact .unreadable mem isNumber unread

theorem weaken (h : Reads n Q p D) (hm : m ≤ n) (hQ : ∀ head, R head → Q head) : Reads m R p D :=
  h.mono hm hQ fun _ _ hd => hd

theorem of_imp (h : Reads n Q p D) (hD : ∀ u a, D u a → E u a) : Reads n Q p E :=
  h.mono le_rfl (fun _ hq => hq) hD

theorem pure (n : ℕ) (Q : Option Token → Prop) (a : α) : Reads n Q (Pure.pure a : Parser α) (Nothing a) :=
  ⟨⟨[], a, by simp, rfl, rfl⟩, fun _ _ _ _ => .ok (u := []) rfl ⟨rfl, rfl⟩⟩

/-- a sequence reads one phrase after the other -/
theorem bind {F : α → Phrase β} {go : α → Parser β} (hp : Reads n Q p D) (hb : ∀ u a, D u a → b ≤ u.length)
    (hgo : ∀ a, Reads (n - b) anyHead (go a) (F a)) : Reads n Q (p >>= go) (Then D F) := by
  constructor
  · obtain ⟨ext, a, hext, hd⟩ := hp.inhabited
    obtain ⟨ext', b, hext', hf⟩ := (hgo a).inhabited
    exact ⟨ext ++ ext', b, List.forall_mem_append.2 ⟨hext, hext'⟩, ext, a, ext', rfl, hd, hf⟩
  · intro c hc hord hq
    have hr := hp.reads c hc hord hq
    rw [bind_apply]
    generalize p c = reply at hr ⊢
    cases hr with
    | @ok u a next split derived =>
      have hlen : next.rest.length < n - b := by
        have := hb u a derived
        have := congrArg List.length split
        simp only [List.length_append] at this
        omega
      have hord' : ∀ t ∈ next.rest, Lexical t := fun t ht => hord t (by rw [split]; exact List.mem_append_right u ht)
      have hr' := (hgo a).reads next hlen hord' trivial
      dsimp only
      generalize go a next = answer at hr' ⊢
      cases hr' with
      | @ok v b' last split' derived' =>
        exact .ok (u := u ++ v) (by rw [split, split', List.append_assoc]) ⟨u, a, v, rfl, derived, derived'⟩
      | @fail v complaint last split' viable =>
        obtain ⟨ext, b', hext, hf⟩ := viable
        refine .fail (u := u ++ v) (by rw [split, split', List.append_assoc]) ⟨ext, b', hext, u, a, v ++ ext, ?_, derived, hf⟩
        rw [List.append_assoc]
      | unreadable mem isNumber unread =>
        exact .unreadable (split ▸ List.mem_append_right u mem) isNumber unread
    | @fail u complaint next split viable =>
      obtain ⟨ext, a, hext, hd⟩ := viable
      obtain ⟨ext', b', hext', hf⟩ := (hgo a).inhabited
      refine .fail split ⟨ext ++ ext', b', List.forall_mem_append.2 ⟨hext, hext'⟩, u ++ ext, a, ext', ?_, hd, hf⟩
      rw [List.append_assoc]
    | unreadable mem isNumber unread => exact .unreadable mem isNumber unread

theorem andThen {F : α → Phrase β} {go : α → Parser β} (hp : Reads n Q p D) (hgo : ∀ a, Reads n anyHead (go a) (F a)) :
    Reads n Q (p >>= go) (Then D F) :=
  hp.bind (b := 0) (fun _ _ _ => Nat.zero_le _) hgo

/-- the first token may be taken into account by cases -/
theorem split (answer : Option Token → Bool) (h : Reads n (fun head => Q head ∧ answer head = true) p D)
    (h' : Reads n (fun head => Q head ∧ answer head = false) p D) : Reads n Q p D := by
  refine ⟨h.inhabited, fun c hc hord hq => ?_⟩
  cases ha : answer c.rest.head? with
  | true => exact h.reads c hc hord ⟨hq, ha⟩
  | false => exact h'.reads c hc hord ⟨hq, ha⟩

/-- a question about the first token is answered by it -/
theorem look {question : Cursor → β} {go : β → Parser α} (answer : Option Token → β)
    (hq : ∀ c, question c = answer c.rest.head?) (hin : Viable D [])
    (h : ∀ x, Reads n (fun head => Q head ∧ answer head = x) (go x) D) : Reads n Q (Parsing.look question >>= go) D := by
  refine ⟨hin, fun c hc hord hQ => ?_⟩
  rw [look_bind, hq]
  exact (h _).reads c hc hord ⟨hQ, rfl⟩

theorem either {question : Cursor → Bool} (answer : Option Token → Bool) (hq : ∀ c, question c = answer c.rest.head?)
    (h : Reads n (fun head => Q head ∧ answer head = true) p D)
    (h' : Reads n (fun head => Q head ∧ answer head = false) q D) :
    Reads n Q (do if ← Parsing.look question then p else q) D :=
  look answer hq h.inhabited fun x => by
    cases x
    · exact h'
    · exact h

/-- a word that is not empty starts with the token that was seen -/
theorem observe (h : Reads n Q p D) (hne : ∀ u a, D u a → u ≠ []) (hE : ∀ u a, D u a → Q u.head? → E u a)
    (hin : Viable E []) : Reads n Q p E := by
  refine ⟨hin, fun c hc hord hq => ?_⟩
  have hr := h.reads c hc hord hq
  have hhead : ∀ u r, u ≠ [] → c.rest = u ++ r → Q u.head? := fun u r hu hs => by
    rwa [hs, List.head?_append_of_ne_nil u hu] at hq
  generalize p c = reply at hr ⊢
  cases hr with
  | @ok u a next split derived => exact .ok split (hE u a derived (hhead u next.rest (hne u a derived) split))
  | @fail u complaint next split viable =>
    obtain ⟨ext, a, hext, hd⟩ := viable
    by_cases hu : u = []
    · subst hu
      exact .fail split hin
    · refine .fail split ⟨ext, a, hext, hE _ a hd ?_⟩
      rw [List.head?_append_of_ne_nil u hu]
      exact hhead u next.rest hu split
  | unreadable mem isNumber unread => exact .unreadable mem isNumber unread

/-! ### Tokens -/

/-- a parser that takes an accepted token, or complains about it -/
theorem single {p : Parser Token} (accepts : Token → Bool) (sample : Token) (hs : Ordinary sample)
    (ha : accepts sample = true) (hok : ∀ t ts s f, accepts t = true → p ⟨t :: ts, s, f⟩ = .ok t ⟨ts, s, f⟩)
    (hfail : ∀ c, (Q c.rest.head?) → c.rest.head?.any accepts = false → ∃ complaint, p c = .fail complaint c) :
    Reads n Q p (Single accepts) := by
  have hin : Viable (Single accepts) [] := ⟨[sample], sample, fun _ ht => List.mem_singleton.1 ht ▸ hs, rfl, hs.lexical, ha⟩
  refine ⟨hin, fun c hc hord hq => ?_⟩
  cases hh : c.rest.head?.any accepts with
  | false =>
    obtain ⟨complaint, hp⟩ := hfail c hq hh
    rw [hp]
    exact .fail (u := []) rfl hin
  | true =>
    obtain ⟨rest, stop, furthest⟩ := c
    cases rest with
    | nil => cases hh
    | cons t ts =>
      rw [hok t ts stop furthest hh]
      exact .ok (u := [t]) rfl ⟨rfl, hord t List.mem_cons_self, hh⟩

theorem advance (n : ℕ) (accepts : Token → Bool) (sample : Token) (hs : Ordinary sample) (ha : accepts sample = true)
    (hQ : ∀ head, Q head → head.any accepts = true) : Reads n Q Parsing.advance (Single accepts) :=
  single accepts sample hs ha (fun _ _ _ _ _ => rfl) fun c hq hno => by rw [hQ _ hq] at hno; cases hno

theorem identifier (n : ℕ) (hQ : ∀ head, Q head → headKind .identifier head = true) :
    Reads n Q Parsing.advance (Single fun t => t.kind = .identifier) :=
  advance n _ ⟨.identifier, "x", 0⟩ ⟨by simp, by decide⟩ rfl hQ

theorem word (n : ℕ) {kind : TokenKind} {lexeme : String} (hn : kind ≠ .number) (hi : kind ≠ .identifier)
    (hQ : ∀ head, Q head → headIs kind [lexeme] head = true) :
    Reads n Q Parsing.advance (Single (Token.isOneOf kind [lexeme])) :=
  advance n _ ⟨kind, lexeme, 0⟩ (.of_kind hn hi) (isOneOf_iff.2 ⟨rfl, List.mem_cons_self⟩) hQ

theorem expectKind (n : ℕ) (kind : TokenKind) (sample : Token) (hs : Ordinary sample) (ha : sample.kind = kind) :
    Reads n Q (Parsing.expectKind kind) (Single fun t => t.kind = kind) := by
  refine single _ sample hs (by simpa using ha) (fun t ts s f h => ?_) fun c _ hno => ?_
  · simp only [Parsing.expectKind, if_pos (of_decide_eq_true h)]
  · refine ⟨c.complaint (.kind kind), ?_⟩
    unfold Parsing.expectKind
    cases hr : c.rest with
    | nil => rfl
    | cons t ts =>
      rw [hr] at hno
      simp only [List.head?_cons, Option.any_some, decide_eq_false_iff_not] at hno
      simp only [if_neg hno]

theorem expect (n : ℕ) {kind : TokenKind} (lexeme : String) (hn : kind ≠ .number) (hi : kind ≠ .identifier) :
    Reads n Q (Parsing.expect kind [lexeme]) (Single (Token.isOneOf kind [lexeme])) := by
  refine single _ ⟨kind, lexeme, 0⟩ (.of_kind hn hi) (isOneOf_iff.2 ⟨rfl, List.mem_cons_self⟩) (fun t ts s f h => ?_)
    fun c _ hno => ?_
  · obtain ⟨hkind, hlexeme⟩ := isOneOf_iff.1 h
    simp [Parsing.expect, hkind, List.mem_singleton.1 hlexeme]
  · obtain ⟨wanted, hfail⟩ := expect_of_not hno
    exact ⟨_, hfail⟩

/-! ### Rules -/

section

variable {e : Parser Node}

/-- a number token with its literal -/
def NumberPhrase : Phrase Node := fun u a => ∃ t, u = [t] ∧ t.kind = .number ∧ a = literal t

/-- an expression in parentheses -/
def GroupPhrase : Phrase Node := fun w a =>
  ∃ left u right, w = left :: (u ++ [right]) ∧ left.isOneOf .paren ["("] = true ∧ Expr u a ∧
    right.isOneOf .paren [")"] = true

/-- a program with its place -/
def BodyPhrase (position : Int) : Phrase Node := fun u a =>
  ∃ body, Program u body ∧ a = .statements (opening position u) (.text "") body

theorem number (n : ℕ) (Q : Option Token → Prop) : Reads n Q Parsing.number NumberPhrase := by
  have hnum := expectKind (Q := Q) n .number (zeroToken 0) (zeroToken_ordinary 0 _ List.mem_cons_self) rfl
  refine ⟨⟨_, _, zeroToken_ordinary 0, zeroToken 0, rfl, rfl, rfl⟩, fun c hc hord hq => ?_⟩
  have hr := hnum.reads c hc hord hq
  unfold Parsing.number
  rw [bind_apply]
  generalize Parsing.expectKind .number c = reply at hr ⊢
  cases hr with
  | @ok _ t _ split derived =>
    obtain ⟨rfl, hlexical, hkind⟩ := derived
    have hkind := of_decide_eq_true hkind
    dsimp only
    cases hread : Numeral.read t.lexeme with
    | some n =>
      rw [hlexical.read hkind n hread]
      exact .ok split ⟨_, rfl, hkind, rfl⟩
    | none => exact .unreadable (split ▸ List.mem_append_left _ List.mem_cons_self) hkind hread
  | fail split viable =>
    obtain ⟨ext, t, hext, heq, -, hkind⟩ := viable
    exact .fail split ⟨ext, literal t, hext, t, heq, of_decide_eq_true hkind, rfl⟩
  | unreadable mem isNumber unread => exact .unreadable mem isNumber unread

theorem group (he : Reads n anyHead e Expr) : Reads (n + 1) Q (Parsing.group e) GroupPhrase := by
  refine ((expect (n + 1) "(" (by decide) (by decide)).bind (b := 1) (by rintro _ _ ⟨rfl, -⟩; simp) fun _ =>
    he.andThen fun inner => (expect n ")" (by decide) (by decide)).andThen fun _ => pure n _ inner).of_imp ?_
  rintro w a ⟨_, left, _, rfl, ⟨rfl, -, hleft⟩, u, _, _, rfl, hu, _, right, _, rfl, ⟨rfl, -, hright⟩, rfl, rfl⟩
  exact ⟨left, u, right, rfl, hleft, hu, hright⟩

theorem loopCount (he : Reads n anyHead e Expr) : Reads (n + 1) Q (Parsing.loopCount e) Count := by
  refine either _ (seesKind_eq _) ?_ (either _ (sees_eq _ _) (he.group.of_imp ?_) ((number _ _).of_imp ?_))
  · refine ((identifier (n + 1) fun _ hq => hq.2).andThen fun name => pure _ _ _).of_imp ?_
    rintro w a ⟨_, name, _, rfl, ⟨rfl, -, hname⟩, rfl, rfl⟩
    exact .reference (of_decide_eq_true hname)
  · rintro w a ⟨left, u, right, rfl, hleft, hu, hright⟩
    exact .group hleft hu hright
  · rintro w a ⟨t, rfl, ht, rfl⟩
    exact .number ht

theorem loop (he : Reads n anyHead e Expr) (hQ : ∀ head, Q head → headIs .keyword ["loop"] head = true) :
    Reads (n + 1) Q (Parsing.loop e) Factor := by
  refine ((word (n + 1) (by decide) (by decide) hQ).bind (b := 1) (by rintro _ _ ⟨rfl, -⟩; simp) fun word =>
    (he.loopCount.weaken (Nat.le_succ n) fun _ h => h).andThen fun count =>
    he.andThen fun body => pure n _ _).of_imp ?_
  rintro w a ⟨_, word, _, rfl, ⟨rfl, -, hword⟩, u, count, _, rfl, hu, v, body, _, rfl, hv, rfl, rfl⟩
  rw [List.append_nil]
  change Factor (word :: (u ++ v)) _
  exact .loop hword hu hv

theorem letBinding (he : Reads n anyHead e Expr) (hQ : ∀ head, Q head → headLet head = true) :
    Reads n Q (Parsing.letBinding e) Statement := by
  refine ((advance n (fun t => headLet (some t)) ⟨.keyword, "let", 0⟩ (.of_kind (by decide) (by decide)) (by decide)
    fun head hq => ?_).andThen fun word => (expectKind n .identifier ⟨.identifier, "x", 0⟩ ⟨by simp, by decide⟩ rfl).andThen fun name =>
    (expect n ":=" (by decide) (by decide)).andThen fun sign => he.andThen fun bound => pure n _ _).of_imp ?_
  · have hlet := hQ head hq
    cases head with
    | none => cases hlet
    | some t => exact hlet
  · rintro w a ⟨_, word, _, rfl, ⟨rfl, hord, hword⟩, _, name, _, rfl, ⟨rfl, -, hname⟩, _, sign, _, rfl, ⟨rfl, -, hsign⟩,
      u, bound, _, rfl, hu, rfl, rfl⟩
    rw [List.append_nil]
    have hkey : word.isOneOf .keyword ["let"] = true := by
      simpa [headLet, headIs, hord.notLet] using hword
    exact .binding hkey (of_decide_eq_true hname) hsign hu

theorem statement (he : Reads n anyHead e Expr) : Reads n Q (Parsing.statement e) Statement := by
  refine either _ (sees_eq _ _) ?_ (either headLet seesLet_eq (he.letBinding fun _ hq => hq.2) ?_)
  · refine ((advance n (Token.isOneOf .identifier ["print"]) ⟨.identifier, "print", 0⟩ ⟨by simp, by decide⟩ (by decide)
      fun _ hq => hq.2).andThen fun word => he.andThen fun shown => pure n _ _).of_imp ?_
    rintro w a ⟨_, word, _, rfl, ⟨rfl, -, hword⟩, u, shown, _, rfl, hu, rfl, rfl⟩
    rw [List.append_nil]
    exact .print hword hu
  · have hbare := he.weaken (R := fun head => headIs .identifier ["print"] head = false) le_rfl fun _ _ => trivial
    refine (hbare.observe (E := Statement) (fun u a hu => (Expr.starts u a hu).2) (fun u a hu hq => .bare hq hu) ?_).weaken
      le_rfl fun _ hq => hq.1.2
    exact ⟨_, _, zeroToken_ordinary 0, zeroToken_statement 0⟩

/-- statements where none end: at least one is there -/
theorem statementRound {more : Parser (List Node)} (he : Reads n anyHead e Expr) (hm : Reads (n - 1) anyHead more Program) :
    Reads n (fun head => headCloses head = false) (Parsing.statementRound e more) fun u body => Program u body ∧ u ≠ [] := by
  have hsome : Reads n (fun head => headCloses head = false) (Parsing.statement e >>= fun first => do
      if ← Parsing.look (·.sees .symbol [";"]) then
        let _ ← Parsing.advance
        let others ← more
        return first :: others
      else return [first]) (Then Statement fun a => After Statement a fun u body => Program u body ∧ u ≠ []) := by
    refine he.statement.andThen fun first => either _ (sees_eq _ _) ?_ ((pure n _ [first]).of_imp ?_)
    · refine ((word n (by decide) (by decide) fun _ hq => hq.2).bind (b := 1) (by rintro _ _ ⟨rfl, -⟩; simp) fun _ =>
        hm.andThen fun others => pure (n - 1) _ (first :: others)).of_imp ?_
      rintro w body ⟨_, semicolon, _, rfl, ⟨rfl, -, hsemi⟩, v, others, _, rfl, hv, rfl, rfl⟩ u hu
      rw [List.append_nil]
      exact ⟨.more hu hsemi hv, by simp⟩
    · rintro w body ⟨rfl, rfl⟩ u hu
      rw [List.append_nil]
      exact ⟨.last hu, (Statement.starts u first hu).2⟩
  refine ⟨(hsome.of_imp fun _ _ => then_after).inhabited, fun c hc hord hq => ?_⟩
  unfold Parsing.statementRound
  rw [look_bind, closes_eq, hq]
  exact (hsome.of_imp fun _ _ => then_after).reads c hc hord hq

/-- before the end or a closing brace there are no more statements -/
theorem statementLoop_of_closes (hc : Consumes e) {c : Cursor} (h : headCloses c.rest.head? = true) :
    Parsing.statementLoop e c = .ok [] c := by
  rw [statementLoop_unfold hc]
  unfold Parsing.statementRound
  rw [look_bind, closes_eq, h]
  rfl

theorem statementLoop (hc : Consumes e) (he : Reads n anyHead e Expr) : Reads n Q (Parsing.statementLoop e) Program := by
  induction n generalizing Q with
  | zero => exact ⟨⟨[], [], by simp, .empty⟩, fun _ h => by cases h⟩
  | succ n ih =>
    have hmore := ih (Q := anyHead) (he.weaken (Nat.le_succ n) fun _ h => h)
    refine split headCloses ?_ ?_
    · refine ⟨⟨[], [], by simp, .empty⟩, fun c hlen hord hq => ?_⟩
      rw [statementLoop_of_closes hc hq.2]
      exact .ok (u := []) rfl .empty
    · rw [statementLoop_unfold hc]
      exact (he.statementRound hmore).mono le_rfl (fun _ hq => hq.2) fun _ _ h => h.1

/-- a program stands at its first token, unless it is empty -/
theorem statements (hc : Consumes e) (he : Reads n anyHead e Expr) (position : Int) :
    Reads n Q (Parsing.statements e position) (BodyPhrase position) := by
  rw [statements_eq]
  have hin : Viable (BodyPhrase position) [] := ⟨[], _, by simp, [], .empty, rfl⟩
  refine look (headOpening position) (openingPosition_eq position) hin fun x => split headCloses ?_ ?_
  · -- an empty program: no token is taken, and the given position stands
    refine ⟨hin, fun c hlen hord hq => ?_⟩
    have hx : x = position := by
      rw [← hq.1.2]
      cases hh : c.rest.head? with
      | none => rfl
      | some t =>
        have : t.isOneOf .paren ["\x7d"] = true := by simpa [headCloses, headIs, hh] using hq.2
        simp only [headOpening, this, if_true]
    rw [bind_ok (statementLoop_of_closes hc hq.2), hx]
    exact .ok (u := []) rfl ⟨[], .empty, rfl⟩
  · have hround := he.statementRound ((he.statementLoop hc (Q := anyHead)).weaken (Nat.sub_le n 1) fun _ h => h)
    rw [← statementLoop_unfold hc] at hround
    have hobs := (hround.weaken (R := fun head => (Q head ∧ headOpening position head = x) ∧ headCloses head = false)
      le_rfl fun _ hq => hq.2).observe (E := fun u body => Program u body ∧ opening position u = x) (fun _ _ h => h.2) ?_
      ⟨_, _, zeroToken_ordinary x, .last (zeroToken_statement x), rfl⟩
    · refine (hobs.andThen fun body => pure n _ _).of_imp ?_
      rintro w a ⟨u, body, _, rfl, ⟨hprog, rfl⟩, rfl, rfl⟩
      rw [List.append_nil]
      exact ⟨body, hprog, rfl⟩
    · rintro u body ⟨hprog, hne⟩ ⟨⟨-, hx⟩, hclose⟩
      refine ⟨hprog, ?_⟩
      cases u with
      | nil => exact absurd rfl hne
      | cons t ts =>
        have hbrace : t.isOneOf .paren ["\x7d"] = false := by simpa [headCloses, headIs] using hclose
        rw [← hx]
        simp only [List.head?_cons, headOpening, hbrace, opening, Bool.false_eq_true, if_false]

theorem block (hc : Consumes e) (he : Reads n anyHead e Expr) (hQ : ∀ head, Q head → headIs .paren ["\x7b"] head = true) :
    Reads (n + 1) Q (Parsing.block e) Factor := by
  refine ((word (n + 1) (by decide) (by decide) hQ).bind (b := 1) (by rintro _ _ ⟨rfl, -⟩; simp) fun brace => (he.statements hc brace.position).andThen
    fun body => (expect n "\x7d" (by decide) (by decide)).andThen fun _ => pure n _ body).of_imp ?_
  rintro w a ⟨_, left, _, rfl, ⟨rfl, -, hleft⟩, u, _, _, rfl, ⟨body, hu, rfl⟩, _, right, _, rfl, ⟨rfl, -, hright⟩, rfl, rfl⟩
  exact .block hleft hu hright

section Operators

variable {X : Phrase Node} {operators : List String}

/-- a list of operators to be looked for, with one of them -/
theorem operator (n : ℕ) (hop : ∃ lexeme, lexeme ∈ operators)
    (hQ : ∀ head, Q head → headIs .operator operators head = true) :
    Reads n Q Parsing.advance (Single (Token.isOneOf .operator operators)) := by
  obtain ⟨lexeme, hmem⟩ := hop
  exact advance n _ ⟨.operator, lexeme, 0⟩ (.of_kind (by simp) (by simp)) (isOneOf_iff.2 ⟨rfl, hmem⟩) hQ

theorem operandLoop (hop : ∃ lexeme, lexeme ∈ operators) (hc : Consumes e) (he : Reads n anyHead e X) (left : Node) :
    Reads n Q (Parsing.operandLoop operators e left) (After (LeftChain operators X) left (LeftChain operators X)) := by
  have hin : ∀ left, Viable (After (LeftChain operators X) left (LeftChain operators X)) [] := fun left =>
    ⟨[], left, by simp, fun u hu => by rw [List.append_nil, List.append_nil]; exact hu⟩
  induction n generalizing Q left with
  | zero => exact ⟨hin left, fun _ h => by cases h⟩
  | succ n ih =>
    have he' := he.weaken (Nat.le_succ n) fun _ h => h
    rw [operandLoop_unfold operators hc]
    refine either _ (sees_eq _ _) ?_ ((pure _ _ _).of_imp ?_)
    · refine ((operator (n + 1) hop fun _ hq => hq.2).bind (b := 1) (by rintro _ _ ⟨rfl, -⟩; simp) fun op =>
        he'.andThen fun right => ih he' _).of_imp ?_
      rintro w b ⟨_, op, _, rfl, ⟨rfl, -, hop⟩, v, right, v', rfl, hv, hrest⟩ u hu
      have hnext := hrest (u ++ op :: v) (.more hu hop hv)
      simpa only [List.append_assoc, List.cons_append, List.nil_append] using hnext
    · rintro w b ⟨rfl, rfl⟩ u hu
      rw [List.append_nil]
      exact hu

theorem leftChain (operators : List String) (hop : ∃ lexeme, lexeme ∈ operators) (hc : Consumes e) (he : Reads n anyHead e X) :
    Reads n anyHead (Parsing.leftChain operators e) (LeftChain operators X) := by
  rw [leftChain_eq]
  refine (he.andThen fun left => he.operandLoop hop hc left).of_imp ?_
  rintro w b ⟨u, left, v, rfl, hu, hv⟩
  exact hv u (.one hu)

theorem atMostOnce (operators : List String) (hop : ∃ lexeme, lexeme ∈ operators) (he : Reads n anyHead e X) :
    Reads n anyHead (Parsing.atMostOnce operators e) (AtMostOnce operators X) := by
  refine (he.andThen (F := fun a => After X a (AtMostOnce operators X)) fun left =>
    either _ (sees_eq _ _) ?_ ((pure n _ _).of_imp ?_)).of_imp fun _ _ => then_after
  · refine ((operator n hop fun _ hq => hq.2).andThen fun op => he.andThen fun right => pure n _ _).of_imp ?_
    rintro w b ⟨_, op, _, rfl, ⟨rfl, -, hop⟩, v, right, _, rfl, hv, rfl, rfl⟩ u hu
    rw [List.append_nil]
    exact .two hu hop hv
  · rintro w b ⟨rfl, rfl⟩ u hu
    rw [List.append_nil]
    exact .one hu

end Operators

theorem parameterLoop (n : ℕ) : Reads n Q Parsing.parameterLoop fun u params =>
    (∀ t ∈ u, t.kind = .identifier) ∧ params = u.map fun t => .text t.lexeme := by
  induction n generalizing Q with
  | zero => exact ⟨⟨[], [], by simp, by simp, rfl⟩, fun _ h => by cases h⟩
  | succ n ih =>
    rw [parameterLoop_unfold]
    refine either _ (seesKind_eq _) ?_ ((pure _ _ _).of_imp ?_)
    · refine ((identifier (n + 1) fun _ hq => hq.2).bind (b := 1) (by rintro _ _ ⟨rfl, -⟩; simp) fun name =>
        ih.andThen fun others => pure n _ _).of_imp ?_
      rintro w params ⟨_, name, _, rfl, ⟨rfl, -, hname⟩, u, others, _, rfl, ⟨hu, rfl⟩, rfl, rfl⟩
      rw [List.append_nil]
      refine ⟨fun t ht => ?_, rfl⟩
      rcases List.mem_cons.1 ht with rfl | ht
      · exact of_decide_eq_true hname
      · exact hu t ht
    · rintro w params ⟨rfl, rfl⟩
      exact ⟨by simp, rfl⟩

theorem lambda (he : Reads n anyHead e Expr) : Reads (n + 1) Q (Parsing.lambda e) Expr := by
  rw [lambda_eq]
  refine ((expect (n + 1) "\\" (by decide) (by decide)).bind (b := 1) (by rintro _ _ ⟨rfl, -⟩; simp) fun backslash =>
    (parameterLoop n).andThen fun params => (expect n "->" (by decide) (by decide)).andThen fun _ =>
    he.andThen fun body => pure n _ _).of_imp ?_
  rintro w a ⟨_, backslash, _, rfl, ⟨rfl, -, hback⟩, params, _, _, rfl, ⟨hparams, rfl⟩, _, arrow, _, rfl, ⟨rfl, -, harrow⟩,
    u, body, _, rfl, hu, rfl, rfl⟩
  rw [List.append_nil]
  exact .lambda hback hparams harrow hu

theorem predictive (hc : Consumes e) (he : Reads n anyHead e Expr) : Reads n Q (Parsing.predictive e) Arguments := by
  induction n generalizing Q with
  | zero => exact ⟨⟨[], [], by simp, .none⟩, fun _ h => by cases h⟩
  | succ n ih =>
    have hmore := ih (Q := anyHead) (he.weaken (Nat.le_succ n) fun _ h => h)
    rw [predictive_unfold hc]
    refine either headStarts startsExpression_eq ?_ ((pure _ _ _).of_imp ?_)
    · refine ((he.weaken le_rfl fun _ _ => trivial).bind (b := 1)
        (fun u a hu => List.length_pos_iff.2 (Expr.starts u a hu).2) fun first =>
        hmore.andThen fun others => pure n _ _).of_imp ?_
      rintro w args ⟨u, first, _, rfl, hu, v, others, _, rfl, hv, rfl, rfl⟩
      rw [List.append_nil]
      exact .more hu hv
    · rintro w args ⟨rfl, rfl⟩
      exact .none

theorem application (hc : Consumes e) (he : Reads n anyHead e Expr)
    (hQ : ∀ head, Q head → headKind .identifier head = true) :
    Reads (n + 1) Q (Parsing.application Parsing.predictive e) Factor := by
  refine ((identifier (n + 1) hQ).bind (b := 1) (by rintro _ _ ⟨rfl, -⟩; simp)
    (F := fun name => Then Arguments fun args => Nothing (if args.isEmpty = true then
      .reference name.position (.text name.lexeme) else .call name.position (.text name.lexeme) args)) fun name =>
    (he.predictive hc).andThen fun args => ?_).of_imp ?_
  · split_ifs
    · exact pure n _ _
    · exact pure n _ _
  · rintro w a ⟨_, name, _, rfl, ⟨rfl, -, hname⟩, u, args, _, rfl, hu, rfl, rfl⟩
    have hname := of_decide_eq_true hname
    rw [List.append_nil]
    cases hu with
    | none => exact .reference hname
    | more first rest =>
      have hargs := Arguments.more first rest
      exact .call hname hargs (by simp)

theorem factor (hc : Consumes e) (he : Reads n anyHead e Expr) :
    Reads (n + 1) anyHead (Parsing.factor Parsing.predictive e) Factor := by
  refine either _ (sees_eq _ _) (he.group.of_imp ?_) (either _ (sees_eq _ _) (he.loop fun _ hq => hq.2)
    (either _ (sees_eq _ _) (he.block hc fun _ hq => hq.2) (either _ (seesKind_eq _)
      (he.application hc fun _ hq => hq.2) ((number _ _).of_imp ?_))))
  · rintro w a ⟨left, u, right, rfl, hleft, hu, hright⟩
    exact .group hleft hu hright
  · rintro w a ⟨t, rfl, ht, rfl⟩
    exact .number ht

theorem equality (hf : Consumes (Parsing.factor Parsing.predictive e))
    (he : Reads n anyHead (Parsing.factor Parsing.predictive e) Factor) :
    Reads n anyHead (Parsing.equality Parsing.predictive e) Equality := by
  have hterm := he.leftChain multiplicativeOperators ⟨"*", by decide⟩ hf
  have hadditive := hterm.leftChain additiveOperators ⟨"+", by decide⟩ fun n => (hf n).leftChain _
  exact (hadditive.atMostOnce relationalOperators ⟨">", by decide⟩).atMostOnce equalityOperators ⟨"=", by decide⟩

theorem conditional (hf : Consumes (Parsing.factor Parsing.predictive e)) (hc : Consumes e) (he : Reads n anyHead e Expr) :
    Reads (n + 1) Q (Parsing.conditional Parsing.predictive e) Expr := by
  have hequality := equality hf ((he.factor hc).weaken (Nat.le_succ n) fun _ h => h)
  refine ((expect (n + 1) "if" (by decide) (by decide)).bind (b := 1) (by rintro _ _ ⟨rfl, -⟩; simp) fun _ =>
    hequality.andThen fun condition => (expect n "then" (by decide) (by decide)).andThen fun _ =>
    he.andThen fun consequent => (expect n "else" (by decide) (by decide)).andThen fun _ =>
    he.andThen fun alternative => pure n _ _).of_imp ?_
  rintro w a ⟨_, wordIf, _, rfl, ⟨rfl, -, hif⟩, u, condition, _, rfl, hu, _, wordThen, _, rfl, ⟨rfl, -, hthen⟩,
    v, consequent, _, rfl, hv, _, wordElse, _, rfl, ⟨rfl, -, helse⟩, x, alternative, _, rfl, hx, rfl, rfl⟩
  rw [List.append_nil]
  exact .conditional hif hu hthen hv helse hx

theorem expressionStep (hf : Consumes (Parsing.factor Parsing.predictive e)) (hc : Consumes e)
    (he : Reads n anyHead e Expr) : Reads (n + 1) anyHead (Parsing.expressionStep Parsing.predictive e) Expr := by
  refine either _ (sees_eq _ _) he.lambda (either _ (sees_eq _ _) (he.conditional hf hc) ?_)
  exact (equality hf (he.factor hc)).mono le_rfl (fun _ _ => trivial) fun _ _ h => .equality h

end

end Reads

/-! ## Expressions and programs -/

theorem expression_reads (n : ℕ) : Reads n anyHead (expression predictive) Expr := by
  induction n with
  | zero => exact ⟨⟨_, _, zeroToken_ordinary 0, zeroToken_expr 0⟩, fun _ h => by cases h⟩
  | succ n ih =>
    rw [expression_unfold predictive_steady]
    exact ih.expressionStep (factor_consumes predictive_steady) predictive_consumes

/-- statements do not stop before a semicolon -/
theorem statementLoop_stops {e : Parser Node} (hc : Consumes e) {c next : Cursor} {body : List Node}
    (h : statementLoop e c = .ok body next) : headIs .symbol [";"] next.rest.head? = false := by
  induction hm : c.rest.length using Nat.strong_induction_on generalizing c body with
  | _ m ih =>
    subst hm
    rw [statementLoop_unfold hc] at h
    unfold statementRound at h
    rw [look_bind, closes_eq] at h
    cases hclose : headCloses c.rest.head? with
    | true =>
      rw [hclose] at h
      cases h
      exact not_semicolon_of_closes hclose
    | false =>
      rw [hclose] at h
      obtain ⟨first, mid, hfirst, h⟩ := bind_eq_ok h
      rw [look_bind, sees_eq] at h
      cases hsemi : headIs .symbol [";"] mid.rest.head? with
      | false =>
        rw [hsemi] at h
        cases h
        exact hsemi
      | true =>
        rw [hsemi] at h
        obtain ⟨semicolon, after, hadv, h⟩ := bind_eq_ok h
        obtain ⟨others, last, hloop, h⟩ := bind_eq_ok h
        cases h
        have hstatement : Consumes (statement e) := fun n => (hc n).statement
        have hadvance : Consumes advance := Agree.advance
        exact ih _ ((hadvance.lt hadv).trans (hstatement.lt hfirst)) hloop rfl

/-- **What is read is a program**: on success all tokens are taken and form a word of the language, the tokens before a
complaint can still become one, and a number that is refused cannot be read. -/
theorem wholeInput_reading {tokens : List Token} (h : ∀ t ∈ tokens, Lexical t) :
    (∃ body next, wholeInput predictive (Cursor.start tokens) =
        .ok (.statements (opening 0 tokens) (.text "") body) next ∧ next.rest = [] ∧ Program tokens body) ∨
      (∃ u complaint next, wholeInput predictive (Cursor.start tokens) = .fail complaint next ∧ tokens = u ++ next.rest ∧
        Viable Program u) ∨
      ∃ token next, wholeInput predictive (Cursor.start tokens) = .unreadable token next ∧ token ∈ tokens ∧
        token.kind = .number ∧ Numeral.read token.lexeme = none := by
  have hr := ((expression_reads (tokens.length + 1)).statements (Q := anyHead) predictive_consumes 0).reads
    (Cursor.start tokens) (Nat.lt_succ_self _) h trivial
  unfold wholeInput
  cases hs : statements (expression predictive) 0 (Cursor.start tokens) with
  | unreadable token next =>
    rw [hs] at hr
    cases hr with
    | unreadable mem isNumber unread => exact Or.inr (Or.inr ⟨token, next, by rw [bind_apply, hs], mem, isNumber, unread⟩)
  | fail complaint next =>
    rw [hs] at hr
    cases hr with
    | @fail u _ _ split viable =>
      obtain ⟨ext, a, hext, body, hbody, -⟩ := viable
      exact Or.inr (Or.inl ⟨u, complaint, next, bind_fail hs, split, ext, body, hext, hbody⟩)
  | ok tree next =>
    rw [hs] at hr
    cases hr with
    | @ok u _ _ split derived =>
      obtain ⟨body, hbody, rfl⟩ := derived
      change tokens = u ++ next.rest at split
      rw [bind_ok hs, look_bind, more_eq]
      cases hrest : next.rest with
      | nil =>
        rw [hrest, List.append_nil] at split
        subst split
        exact Or.inl ⟨body, next, rfl, hrest, hbody⟩
      | cons t ts =>
        -- the statements did not stop before a semicolon, so the one that is wanted here is missing
        rw [statements_eq] at hs
        obtain ⟨position, c, hlook, hs⟩ := bind_eq_ok hs
        obtain ⟨found, last, hloop, hs⟩ := bind_eq_ok hs
        have hstop := statementLoop_stops predictive_consumes hloop
        cases hs
        obtain ⟨wanted, hfail⟩ := expect_of_not hstop
        exact Or.inr (Or.inl ⟨u, _, next, bind_fail hfail, split, [], body, by simp, by simpa using hbody⟩)

/-- where all numbers can be read, none is refused -/
theorem wholeInput_reads {tokens : List Token} (h : ∀ t ∈ tokens, Ordinary t) :
    (∃ body next, wholeInput predictive (Cursor.start tokens) =
        .ok (.statements (opening 0 tokens) (.text "") body) next ∧ next.rest = [] ∧ Program tokens body) ∨
      ∃ u complaint next, wholeInput predictive (Cursor.start tokens) = .fail complaint next ∧ tokens = u ++ next.rest ∧
        Viable Program u := by
  rcases wholeInput_reading fun t ht => (h t ht).lexical with hok | hfail | ⟨token, next, -, hmem, hkind, hread⟩
  · exact Or.inl hok
  · exact Or.inr hfail
  · rw [(h token hmem).readable hkind] at hread
    cases hread

end LetScript.Language
