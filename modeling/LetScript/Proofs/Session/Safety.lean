/-
Source texts never reach an internal error.

The parser makes well-formed trees and refuses only numbers that are too long to read (`parseSource_cases`). So on a session in
which only source texts were run, everything bound is well-formed, and every further source text ends as a program may:
`sources_safe`.
-/
import LetScript.Proofs.Parsing.Correspondence
import LetScript.Proofs.Parsing.Language
import LetScript.Proofs.Evaluation.WellFormed
import LetScript.Proofs.Session.Scopes

namespace LetScript

open Evaluation Evaluation.Run Parsing

/-! ## What the parser makes -/

theorem isName_of_identifier {t : Token} (hword : Token.Word t.kind t.lexeme.toList) (hkind : t.kind = .identifier) :
    IsName (.text t.lexeme) := by
  rw [hkind] at hword
  exact ⟨t.lexeme, rfl, Text.isEncodable_identifier hword⟩

theorem operator_known : ∀ spelling ∈ operatorWords, (Operator.ofLabel? spelling).isSome = true := by decide

/-- tokens that are words of their kinds, and well-formed nodes -/
def wellFormed : Correspondence where
  token t t' := t' = t ∧ Token.Word t.kind t.lexeme.toList
  node a a' := a' = a ∧ a.WellFormed
  kind h := by rw [h.1]
  lexeme h := by rw [h.1]
  literal h _ := ⟨by rw [h.1], .literal (.int _)⟩
  reference h hk := ⟨by rw [h.1], .reference (isName_of_identifier h.2 hk)⟩
  assign h hk ha := ⟨by rw [h.1, ha.1], .assign (isName_of_identifier h.2 hk) ha.2⟩
  print h ha := ⟨by rw [h.1, ha.1], .call ⟨"print", rfl, by decide⟩ (List.forall_mem_singleton.2 ha.2)⟩
  call h hk hargs := by
    obtain ⟨heq, hall⟩ := forall₂_diagonal hargs
    exact ⟨by rw [h.1, heq], .call (isName_of_identifier h.2 hk) hall⟩
  operation h hop ha hb := ⟨by rw [h.1, ha.1, hb.1], .operation (operator_known _ hop) ha.2 hb.2⟩
  lambda h hparams ha := by
    refine ⟨by rw [h.1, ha.1], .lambda (fun param hparam => ?_) ha.2⟩
    obtain ⟨s, s', hs, hk, rfl⟩ := hparams param hparam
    exact isName_of_identifier hs.2 hk
  conditional ha hb hd := ⟨by rw [ha.1, hb.1, hd.1], .conditional ha.2 hb.2 hd.2⟩
  loop h ha hb := ⟨by rw [h.1, ha.1, hb.1], .loop ha.2 hb.2⟩
  block h hbody := by
    obtain ⟨heq, hall⟩ := forall₂_diagonal hbody
    exact ⟨by rw [h.1, heq], .block hall⟩

/-- what the parser makes of a source text: a well-formed tree, a complaint, or word of a number that is too long -/
theorem parseSource_cases (source : String) :
    (∃ tree, parseSource source = .ok tree ∧ tree.WellFormed) ∨
      (∃ complaint, parseSource source = .error (.complaint complaint)) ∨
      ∃ token, parseSource source = .error (.unreadable token) ∧ token.kind = .number ∧
        Numeral.digitLimit < token.lexeme.length := by
  have htokens : ∀ t ∈ Token.tokenize source, wellFormed.token t t := fun t ht =>
    ⟨rfl, Token.scan_words 0 0 source.toList t ht⟩
  rcases parse_corresponds wellFormed htokens with ⟨tree, hparse, hrelated⟩ | hcomplaint | ⟨t, t', hparse, ht, hkind, hread⟩
  · obtain ⟨position, position', body, body', htree, htree', hbody⟩ := hrelated
    refine Or.inl ⟨tree, hparse, ?_⟩
    rw [htree]
    exact .block (forall₂_diagonal hbody).2
  · exact Or.inr (Or.inl hcomplaint)
  · refine Or.inr (Or.inr ⟨t, hparse, hkind, ?_⟩)
    have hword := ht.2
    rw [hkind] at hword
    by_contra hshort
    rw [Language.read_digits hword.1 hword.2 (not_lt.1 hshort)] at hread
    cases hread

/-! ## Runs of source texts -/

namespace Session

/-- the session after source texts were run one after the other -/
def afterAll (session : Session) (sources : List String) : Session :=
  sources.foldl (fun session source => (session.runSource source).2.2) session

/-- how a source text may end on a session: in a value, none of which is foreign; before anything was evaluated, in a complaint
or at a number that is too long to read; or at a permitted stop -/
inductive Proper (session : Session) : Result → Prop where
  | value {value : Value} {shown : Shown} {next : Session} (own : value.isForeign = false) :
      Proper session (.ok value, shown, next)
  | complaint (complaint : Complaint) : Proper session (.error (.complaint complaint), session.route [], session)
  | unreadable {token : Token} (number : token.kind = .number) (long : Numeral.digitLimit < token.lexeme.length) :
      Proper session (.error (.unreadable token), session.route [], session)
  | stop {stop : Stop} {shown : Shown} {next : Session} (permitted : stop.Permitted) :
      Proper session (.error (.stop stop), shown, next)

/-- one source text on a session in which all that is bound is well-formed -/
theorem runSource_proper {session : Session} (h : Tidy session.scope) (source : String) :
    session.Proper (session.runSource source) ∧ Tidy (session.runSource source).2.2.scope := by
  rcases parseSource_cases source with ⟨tree, hparse, htree⟩ | ⟨complaint, hparse⟩ | ⟨token, hparse, hkind, hlong⟩
  · obtain ⟨-, hmeets, hholds, -⟩ := evaluate_safe session.tracing (halt .exhausted) session.budget htree
      ⟨session.scope, []⟩ h
    simp only [runSource, hparse, run]
    refine ⟨?_, hholds⟩
    rcases hrun : evaluate session.tracing session.budget tree ⟨session.scope, []⟩ with ⟨outcome, last⟩
    rw [hrun] at hmeets
    cases outcome with
    | ok value => exact .value (Value.WellFormed.isForeign hmeets)
    | error stop => exact .stop hmeets
  · simp only [runSource, hparse]
    exact ⟨.complaint complaint, h⟩
  · simp only [runSource, hparse]
    exact ⟨.unreadable hkind hlong, h⟩

/-- all that source texts bind is well-formed -/
theorem afterAll_tidy {session : Session} (h : Tidy session.scope) (sources : List String) :
    Tidy (session.afterAll sources).scope := by
  induction sources generalizing session with
  | nil => exact h
  | cons source rest ih => exact ih (runSource_proper h source).2

/-- **Source texts never reach an internal error.** On a session in which any source texts were run, a source text ends as it
may, no foreign value is bound, and evaluation comes to none on the way: an alarm raised at one changes nothing. -/
theorem sources_safe (settings : Session) (sources : List String) (source : String) (alarm : Run Value) :
    let session := afterAll { settings with scope := .empty } sources
    session.Proper (session.runSource source) ∧
      (session.runSource source).2.2.scope.holdsForeign = false ∧
      ∀ tree, parseSource source = .ok tree →
        watched session.tracing alarm session.budget tree ⟨session.scope, []⟩ =
          evaluate session.tracing session.budget tree ⟨session.scope, []⟩ := by
  intro session
  have htidy : Tidy session.scope := afterAll_tidy tidy_empty sources
  obtain ⟨hproper, hnext⟩ := runSource_proper htidy source
  refine ⟨hproper, hnext.holdsForeign, fun tree hparse => ?_⟩
  rcases parseSource_cases source with ⟨other, hother, htree⟩ | ⟨complaint, hother⟩ | ⟨token, hother, -, -⟩
  · rw [hparse] at hother
    cases hother
    exact (evaluate_safe session.tracing alarm session.budget htree ⟨session.scope, []⟩ htidy).1
  · rw [hparse] at hother
    cases hother
  · rw [hparse] at hother
    cases hother

/-- a reference to nothing, watched with an alarm that would end the run otherwise -/
theorem sources_safe_unbound :
    parseSource "x" = .ok (.statements 0 (.text "") [.reference 0 (.text "x")]) ∧
      watched (start 0 plainChannels).tracing (halt .exhausted) Evaluation.defaultBudget
          (.statements 0 (.text "") [.reference 0 (.text "x")]) ⟨.empty, []⟩ =
        (.error (.fault (.unbound (.text "x") 0)), ⟨.empty, []⟩) := by
  have htokens : Token.tokenize "x" = [⟨.identifier, "x", 0⟩] := by decide
  have hparse : parseSource "x" = .ok (.statements 0 (.text "") [.reference 0 (.text "x")]) := by
    rw [parseSource, htokens]
    rfl
  exact ⟨hparse, ((sources_safe (start 0 plainChannels) [] "x" (halt .exhausted)).2.2 _ hparse).trans rfl⟩

end Session

end LetScript
