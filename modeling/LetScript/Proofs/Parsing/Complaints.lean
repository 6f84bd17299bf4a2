/-
Complaints point at the first impossible token.

When a source text is no program, let `pre` be its tokens before the position of the complaint. Then `pre` can still become a
program, and if a token stands at that position, `pre` with that token cannot, whatever follows. Where none stands there, the
complaint is about the end: the position is that after the last token, and `pre` is the whole list
(`complaint_first_impossible`).

The first half is that the tokens a parser has taken are viable and that every program is accepted. The second half is that
the predictive parser looks one token ahead, so nothing behind the token it complains about can help.
-/
import LetScript.Proofs.Parsing.Completeness

namespace LetScript.Language

open Parsing

/-! ## The tokens before a complaint -/

/-- the tokens taken are those that stand before the next one -/
theorem filter_before {u r : List Token} {s : Int} {f : Option Complaint} (h : Ordered ⟨u ++ r, s, f⟩) :
    (u ++ r).filter (fun t => t.position < Cursor.ahead ⟨r, s, f⟩) = u := by
  have hbefore : ∀ t ∈ u, t.position < Cursor.ahead ⟨r, s, f⟩ := by
    intro t ht
    cases r with
    | nil => exact h.below t (by simpa using ht)
    | cons x xs => exact (List.pairwise_append.1 h.rising).2.2 t ht x List.mem_cons_self
  have hafter : ∀ t ∈ r, ¬ t.position < Cursor.ahead ⟨r, s, f⟩ := by
    intro t ht
    cases r with
    | nil => cases ht
    | cons x xs =>
      have hrising := List.pairwise_cons.1 (List.pairwise_append.1 h.rising).2.1
      rcases List.mem_cons.1 ht with rfl | hxs
      · exact lt_irrefl _
      · exact not_lt.2 (hrising.1 t hxs).le
  rw [List.filter_append, List.filter_eq_self.2 (fun t ht => decide_eq_true (hbefore t ht)),
    List.filter_eq_nil_iff.2 (fun t ht => by simpa using hafter t ht), List.append_nil]

/-- a token at the position of the next one is the next one -/
theorem head_of_position {u r : List Token} {s : Int} {f : Option Complaint} (h : Ordered ⟨u ++ r, s, f⟩) {t : Token}
    (ht : t ∈ u ++ r) (hp : t.position = Cursor.ahead ⟨r, s, f⟩) : r.head? = some t := by
  have hbefore : t ∉ u := fun hu => by
    have hmem := filter_before h ▸ hu
    have hlt := of_decide_eq_true (List.mem_filter.1 hmem).2
    rw [hp] at hlt
    exact lt_irrefl _ hlt
  have hr := (List.mem_append.1 ht).resolve_left hbefore
  cases r with
  | nil => cases hr
  | cons x xs =>
    rcases List.mem_cons.1 hr with rfl | hxs
    · rfl
    · have hlt := (List.pairwise_cons.1 (List.pairwise_append.1 h.rising).2.1).1 t hxs
      rw [hp] at hlt
      exact absurd hlt (lt_irrefl _)

/-! ## The complaint about a source text -/

/-- a complaint about tokens in order stands at the first token that was not taken, or at the end -/
theorem complaint_ahead {tokens : List Token} (hord : Ordered (Cursor.start tokens)) {complaint : Complaint}
    (hc : parse tokens = .error (.complaint complaint)) :
    ∃ u r, tokens = u ++ r ∧ complaint.position = Cursor.ahead ⟨r, Cursor.stopOf tokens, none⟩ := by
  rw [parse_eq_verdict hord] at hc
  have hahead := wholeInput_oneAhead (tokens.length + 1) tokens (Cursor.stopOf tokens) none (Nat.lt_succ_self _)
  change Foreseen _ _ _ _ _ _ (wholeInput predictive (Cursor.start tokens)) at hahead
  generalize wholeInput predictive (Cursor.start tokens) = reply at hc hahead
  cases hahead with
  | ok => cases hc
  | @fail u r wanted split =>
    cases hc
    exact ⟨u, r, split, complaint_position _ _⟩
  | unreadable => cases hc

/-- a complaint about ordinary tokens in order is about the first token that was not taken; the tokens taken can become a
program, and no program goes on with that token -/
theorem complaint_split {tokens : List Token} (hord : Ordered (Cursor.start tokens)) (h : ∀ t ∈ tokens, Ordinary t)
    {complaint : Complaint} (hc : parse tokens = .error (.complaint complaint)) :
    ∃ u r, tokens = u ++ r ∧ complaint.position = Cursor.ahead ⟨r, Cursor.stopOf tokens, none⟩ ∧ Viable Program u ∧
      ∀ t ext tree, r.head? = some t → parse (u ++ t :: ext) ≠ .ok tree := by
  rw [parse_eq_verdict hord] at hc
  rcases wholeInput_reads h with ⟨body, next, hok, -, -⟩ | ⟨u, e, next, hfail, hsplit, hviable⟩
  · rw [hok] at hc
    cases hc
  · rw [hfail] at hc
    cases hc
    have hahead := wholeInput_oneAhead (tokens.length + 1) tokens (Cursor.stopOf tokens) none (Nat.lt_succ_self _)
    change wholeInput predictive ⟨tokens, Cursor.stopOf tokens, none⟩ = _ at hfail
    rw [hfail] at hahead
    cases hahead with
    | @fail u' r wanted split taken same =>
      obtain rfl : u = u' := List.append_cancel_right (hsplit.symm.trans split)
      refine ⟨u, r, split, complaint_position _ _, hviable, fun t ext tree hr hok => ?_⟩
      have hverdict := (parse_ok_iff _ _).1 hok
      rw [Cursor.start, same (t :: ext) _ _ hr.symm] at hverdict
      cases hverdict

/-- the empty list is a program, so an error is about some token -/
theorem ne_nil_of_error {tokens : List Token} {e : ParseError} (h : parse tokens = .error e) : tokens ≠ [] := by
  rintro rfl
  obtain ⟨tree, htree⟩ := parse_of_program .empty (by simp)
  rw [h] at htree
  cases htree

/-- the complaint of an answer, if it is one -/
def reported : Except ParseError Node → Option Complaint
  | .error (.complaint complaint) => some complaint
  | _ => none

theorem eq_of_reported {answer : Except ParseError Node} {complaint : Complaint} (h : reported answer = some complaint) :
    answer = .error (.complaint complaint) := by
  unfold reported at h
  split at h
  · cases h; rfl
  · cases h

/-- **Complaints point at the first impossible token.** -/
theorem complaint_first_impossible (source : String) (complaint : Complaint)
    (h : ∀ t ∈ Token.tokenize source, t.kind = .number → t.lexeme.length ≤ Numeral.digitLimit)
    (hc : parseSource source = .error (.complaint complaint)) :
    (∃ ext tree, parse ((Token.tokenize source).filter (fun t => t.position < complaint.position) ++ ext) = .ok tree) ∧
      (∀ t ∈ Token.tokenize source, t.position = complaint.position → ∀ ext tree,
        parse ((Token.tokenize source).filter (fun t => t.position < complaint.position) ++ t :: ext) ≠ .ok tree) ∧
      ((∀ t ∈ Token.tokenize source, t.position ≠ complaint.position) →
        (∃ last, (Token.tokenize source).getLast? = some last ∧ complaint.position = last.stop) ∧
          (Token.tokenize source).filter (fun t => t.position < complaint.position) = Token.tokenize source) := by
  have hordinary := tokenize_ordinary h
  have hordered := tokenize_ordered source
  change parse (Token.tokenize source) = _ at hc
  obtain ⟨u, r, hsplit, hposition, ⟨ext, body, hext, hbody⟩, himpossible⟩ := complaint_split hordered hordinary hc
  generalize Token.tokenize source = tokens at *
  rw [hposition]
  have hord : Ordered ⟨u ++ r, Cursor.stopOf tokens, none⟩ := by
    rw [← hsplit]
    exact hordered
  have hpre := filter_before hord
  rw [← hsplit] at hpre
  rw [hpre]
  refine ⟨?_, fun t ht hp ext tree => ?_, fun hnone => ?_⟩
  · have hu : ∀ t ∈ u, Ordinary t := fun t ht => hordinary t (by rw [hsplit]; exact List.mem_append_left r ht)
    have hall : ∀ t ∈ u ++ ext, Ordinary t := List.forall_mem_append.2 ⟨hu, hext⟩
    obtain ⟨tree, htree⟩ := parse_of_program hbody hall
    exact ⟨ext, tree, htree⟩
  · rw [hsplit] at ht
    exact himpossible t ext tree (head_of_position hord ht hp)
  · -- the complaint is about the end
    have hr : r = [] := by
      cases r with
      | nil => rfl
      | cons t ts => exact absurd rfl (hnone t (by rw [hsplit]; simp))
    subst hr
    rw [List.append_nil] at hsplit
    subst hsplit
    have hlast := List.getLast?_eq_some_getLast (ne_nil_of_error hc)
    refine ⟨⟨_, hlast, ?_⟩, rfl⟩
    simp only [Cursor.ahead, Cursor.stopOf, hlast]

/-- the argument in parentheses is given up at its second number, which no program goes on with -/
theorem complaint_first_impossible_argument :
    (∀ t ∈ Token.tokenize "f (1 2)", t.kind = .number → t.lexeme.length ≤ Numeral.digitLimit) ∧
      parseSource "f (1 2)" = .error (.complaint ⟨some ⟨.number, "2", 5⟩, .kind .paren, 5⟩) ∧
      ∀ ext tree, parse ((Token.tokenize "f (1 2)").filter (fun t => t.position < 5) ++ ⟨.number, "2", 5⟩ :: ext) ≠
        .ok tree := by
  have hshort : ∀ t ∈ Token.tokenize "f (1 2)", t.kind = .number → t.lexeme.length ≤ Numeral.digitLimit := by decide +kernel
  have hcomplaint : reported (parseSource "f (1 2)") = some ⟨some ⟨.number, "2", 5⟩, .kind .paren, 5⟩ := by decide +kernel
  have hmem : ⟨.number, "2", 5⟩ ∈ Token.tokenize "f (1 2)" := by decide +kernel
  have hc := eq_of_reported hcomplaint
  exact ⟨hshort, hc, (complaint_first_impossible _ _ hshort hc).2.1 _ hmem rfl⟩

end LetScript.Language
