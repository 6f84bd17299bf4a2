/-
Layout does not matter.

What a source text says are the kinds and words of its tokens (`words`). Put at their own indices they are tokens too, and the
tokens of every text that says this are these tokens at other places. Both the parser and the evaluator work the same way at
other places, so two texts that say the same have one outcome, of which they make two by the places of their tokens: one tree,
one complaint, and one result of a run: `layout_irrelevant`.
-/
import LetScript.Proofs.Parsing.Construction
import LetScript.Proofs.Session.Batches

namespace LetScript

open Evaluation Parsing

/-! ## Words and places -/

/-- a kind and a word, without a place -/
def Token.word (token : Token) : TokenKind × String := (token.kind, token.lexeme)

/-- what a source text says -/
def words (source : String) : List (TokenKind × String) := (Token.tokenize source).map Token.word

/-- words as tokens that stand at their indices -/
def atIndices (said : List (TokenKind × String)) : List Token := said.mapIdx fun index word => ⟨word.1, word.2, index⟩

/-- where the token with an index stands; zero when there is none -/
def placeOf (tokens : List Token) (index : Int) : Int := (tokens[index.toNat]?.map Token.position).getD 0

/-- two positions are those of tokens with one index, or zero where there are no tokens -/
def SamePlace (tokens tokens' : List Token) (position position' : Int) : Prop :=
  (∃ (index : ℕ) (t t' : Token), tokens[index]? = some t ∧ tokens'[index]? = some t' ∧
    position = t.position ∧ position' = t'.position) ∨
  (tokens = [] ∧ tokens' = [] ∧ position = 0 ∧ position' = 0)

/-- tokens are their words, put in their places -/
theorem atIndices_placed (tokens : List Token) :
    (atIndices (tokens.map Token.word)).map (Token.relocate (placeOf tokens)) = tokens := by
  refine List.ext_getElem (by simp [atIndices]) fun index h h' => ?_
  simp [atIndices, Token.relocate, Token.word, placeOf, List.getElem?_eq_getElem h']

theorem programStart_eq (tokens : List Token) : programStart tokens = placeOf tokens 0 := by
  cases tokens with
  | nil => rfl
  | cons t ts => rfl

theorem programStart_atIndices (said : List (TokenKind × String)) : programStart (atIndices said) = 0 := by
  cases said with
  | nil => rfl
  | cons word rest => simp [programStart, atIndices]

section

variable {tokens tokens' : List Token} (h : tokens.map Token.word = tokens'.map Token.word)

include h

theorem samePlace_of_index {index : ℕ} (hindex : index < tokens.length) :
    ∃ t t', tokens[index]? = some t ∧ tokens'[index]? = some t' ∧ t.word = t'.word ∧
      placeOf tokens index = t.position ∧ placeOf tokens' index = t'.position := by
  have hlength : tokens.length = tokens'.length := by simpa using congrArg List.length h
  have hindex' : index < tokens'.length := hlength ▸ hindex
  refine ⟨tokens[index], tokens'[index], by simp, by simp, ?_, by simp [placeOf, hindex], by simp [placeOf, hindex']⟩
  have hword := congrArg (·[index]?) h
  simpa [hindex, hindex'] using hword

/-- the places of an index in two texts that say the same -/
theorem samePlace_of_isPlace {position : Int} (hplace : IsPlace (atIndices (tokens.map Token.word)) position) :
    SamePlace tokens tokens' (placeOf tokens position) (placeOf tokens' position) := by
  rcases hplace with ⟨t, ht, rfl⟩ | ⟨hnone, rfl⟩
  · obtain ⟨index, hindex, rfl⟩ := List.getElem_of_mem ht
    have hindex : index < tokens.length := by simpa [atIndices] using hindex
    obtain ⟨t, t', ht, ht', -, hplace, hplace'⟩ := samePlace_of_index h hindex
    refine Or.inl ⟨index, t, t', ht, ht', ?_, ?_⟩
    · simpa [atIndices] using hplace
    · simpa [atIndices] using hplace'
  · have htokens : tokens = [] := by simpa [atIndices] using hnone
    have htokens' : tokens' = [] := by simpa [htokens] using h.symm
    exact Or.inr ⟨htokens, htokens', by simp [placeOf, htokens], by simp [placeOf, htokens']⟩

end

/-! ## Parsing -/

/-- two trees are one tree in two places: each of its parts stands at tokens with one index -/
def Aligned (tokens tokens' : List Token) (tree tree' : Node) : Prop :=
  ∃ (shape : Node) (f g : Int → Int), tree = shape.relocate f ∧ tree' = shape.relocate g ∧
    ∀ part, Part part shape → SamePlace tokens tokens' (f part.position) (g part.position)

/-- two complaints say the same, about tokens with one index or about the end -/
structure SameComplaint (tokens tokens' : List Token) (complaint complaint' : Complaint) : Prop where
  message : complaint'.message = complaint.message
  place : (complaint.found.isSome = true ∧ complaint'.found.isSome = true ∧
      SamePlace tokens tokens' complaint.position complaint'.position) ∨
    (complaint.found = none ∧ complaint'.found = none ∧
      complaint.position = Cursor.stopOf tokens ∧ complaint'.position = Cursor.stopOf tokens')

/-- the tree of tokens that are others in other places, if the others are a program -/
theorem parse_placed {tokens : List Token} {tree : Node} {p : Int} {body : List Node} (h : parse tokens = .ok tree)
    (hbody : RelatedPrograms (relocated (placeOf tokens)) (.statements p (.text "") body) tree) :
    tree = (Node.statements 0 (.text "") body).relocate (placeOf tokens) := by
  obtain ⟨q, q', others, others', hothers, rfl, hrelated⟩ := hbody
  cases hothers
  obtain ⟨found, htree, -⟩ := (parse_eq_ok_iff_start tokens _).1 h
  cases htree
  rw [(forall₂_map_iff _).1 hrelated, Node.relocate, Node.relocateAll_eq, programStart_eq]

/-- a complaint about words at their indices is one complaint about the tokens of both texts -/
theorem sameComplaint_of_placed {tokens tokens' : List Token} (h : tokens.map Token.word = tokens'.map Token.word) {s : Int}
    {about copy complaint complaint' : Complaint}
    (hself : Complain (built (IsPlace (atIndices (tokens.map Token.word)))) s s about copy)
    (hplaced : Complain (relocated (placeOf tokens)) s (Cursor.stopOf tokens) about complaint)
    (hplaced' : Complain (relocated (placeOf tokens')) s (Cursor.stopOf tokens') about complaint') :
    SameComplaint tokens tokens' complaint complaint' := by
  cases hplaced with
  | stop =>
    cases hplaced' with
    | stop => exact ⟨rfl, Or.inr ⟨rfl, rfl, rfl, rfl⟩⟩
  | token related =>
    cases hplaced' with
    | token related' =>
      cases hself with
      | token place =>
        rw [related, related']
        exact ⟨rfl, Or.inl ⟨rfl, rfl, samePlace_of_isPlace h place.2⟩⟩

/-- **Two texts that say the same are parsed the same way**: to one tree, to one complaint, or up to one unreadable number. -/
theorem parse_alike {tokens tokens' : List Token} (h : tokens.map Token.word = tokens'.map Token.word)
    (hord : Ordered (Cursor.start tokens)) (hord' : Ordered (Cursor.start tokens')) :
    (∃ shape, parse tokens = .ok (shape.relocate (placeOf tokens)) ∧ parse tokens' = .ok (shape.relocate (placeOf tokens')) ∧
        Built (IsPlace (atIndices (tokens.map Token.word))) shape) ∨
      (∃ complaint complaint', parse tokens = .error (.complaint complaint) ∧ parse tokens' = .error (.complaint complaint') ∧
        SameComplaint tokens tokens' complaint complaint') ∨
      ∃ t t', parse tokens = .error (.unreadable t) ∧ parse tokens' = .error (.unreadable t') := by
  set said := atIndices (tokens.map Token.word) with hsaid
  have hplaced : tokens = said.map (Token.relocate (placeOf tokens)) := (atIndices_placed tokens).symm
  have hplaced' : tokens' = said.map (Token.relocate (placeOf tokens')) := by
    rw [hsaid, h]
    exact (atIndices_placed tokens').symm
  -- one reply to the words at their indices, beside itself and beside the replies to both token lists
  have hself := wholeInput_corresponds predictive_gathers (built (IsPlace said)) (Cursor.start said) (Cursor.start said)
    (List.forall₂_same.2 fun t ht => ⟨rfl, Or.inl ⟨t, ht, rfl⟩⟩) trivial
  have halike := wholeInput_corresponds predictive_gathers (relocated (placeOf tokens)) (Cursor.start said)
    (Cursor.start tokens) ((forall₂_map_iff _).2 hplaced) trivial
  have halike' := wholeInput_corresponds predictive_gathers (relocated (placeOf tokens')) (Cursor.start said)
    (Cursor.start tokens') ((forall₂_map_iff _).2 hplaced') trivial
  have hparse := parse_eq_verdict hord
  have hparse' := parse_eq_verdict hord'
  generalize wholeInput predictive (Cursor.start said) = reply at hself halike halike'
  generalize wholeInput predictive (Cursor.start tokens) = answer at halike hparse
  generalize wholeInput predictive (Cursor.start tokens') = answer' at halike' hparse'
  cases halike with
  | ok result =>
    cases halike' with
    | ok result' =>
      cases hself with
      | ok whole =>
        obtain ⟨p, p', body, body', rfl, -, hbody⟩ := whole
        have htree := parse_placed hparse result
        have htree' := parse_placed hparse' result'
        refine Or.inl ⟨.statements 0 (.text "") body, htree ▸ hparse, htree' ▸ hparse', ?_⟩
        have hroot := isPlace_programStart said
        rw [hsaid, programStart_atIndices] at hroot
        exact built_of hroot (Or.inl rfl) (forall₂_diagonal hbody).2
  | fail same =>
    cases halike' with
    | fail same' =>
      cases hself with
      | fail hsame =>
        exact Or.inr (Or.inl ⟨_, _, hparse, hparse', sameComplaint_of_placed h hsame same same'⟩)
  | unreadable related =>
    cases halike' with
    | unreadable related' => exact Or.inr (Or.inr ⟨_, _, hparse, hparse'⟩)

/-! ## Running -/

/-- positions that a function keeps may be put through it -/
theorem relocate_of_built {P : Int → Prop} {f : Int → Int} (hf : ∀ p, P p → f p = p) {node : Node} (h : Built P node) :
    node.relocate f = node := by
  induction node using Node.inductionOnChildren with
  | step node ih =>
    obtain ⟨⟨hposition, hplain⟩, hchildren⟩ := built_iff.1 h
    have hself := hf _ hposition
    have hall : ∀ child ∈ node.children, child.relocate f = child := fun child hchild =>
      ih child hchild (hchildren child hchild)
    have hmap : node.children.map (·.relocate f) = node.children := (List.map_congr_left hall).trans (List.map_id _)
    cases node with
    | statements position mode nodes => simp_all only [Node.position, Node.children, Node.relocate, Node.relocateAll_eq]
    | call position name args => simp_all only [Node.position, Node.children, Node.relocate, Node.relocateAll_eq]
    | literal position value =>
      obtain ⟨digits, n, -, rfl⟩ := hplain
      simp_all only [Node.position, Node.relocate, Value.relocate]
    | _ => simp_all [Node.position, Node.children, Node.relocate]

namespace Session

/-- a run from nothing ends in other places as it ends, with the places changed -/
theorem execute_start_relocate (f : Int → Int) (level : ℕ) (channels : Channels) (node : Node) :
    (start level channels).execute (.tree (node.relocate f)) =
      Result.relocate f ((start level channels).execute (.tree node)) := by
  rcases hrun : evaluate (start level channels).tracing (start level channels).budget node ⟨.empty, []⟩ with ⟨outcome, machine⟩
  have hmoves := evaluate_moves f [] (start level channels).tracing (start level channels).budget node ⟨.empty, []⟩
  rw [hrun] at hmoves
  rw [execute_tree (start level channels) hrun, execute_tree (start level channels) hmoves, Machine.moved, List.append_nil]
  cases outcome with
  | ok value => rfl
  | error stop => rfl

/-- a program fails where one of its parts stands -/
theorem fault_of_built {P : Int → Prop} {node : Node} (h : Built P node) {level : ℕ} {channels : Channels} {fault : Fault}
    (hfault : ((start level channels).execute (.tree node)).1 = .error (.stop (.fault fault))) : P fault.position := by
  classical
  -- all other positions are put where the program stands, which changes nothing
  let f : Int → Int := fun p => if P p then p else node.position
  have hkept : ∀ p, P p → f p = p := fun p hp => if_pos hp
  have hreached : ∀ p, P (f p) := by
    intro p
    by_cases hp : P p
    · rwa [hkept p hp]
    · simpa only [f, if_neg hp] using h.position
  have hmoved := execute_start_relocate f level channels node
  rw [relocate_of_built hkept h] at hmoved
  generalize (start level channels).execute (.tree node) = result at hfault hmoved
  obtain ⟨outcome, shown, next⟩ := result
  cases hfault
  have hsame : fault = fault.relocate f := by
    injection hmoved with houtcome
    injection houtcome with hfailure
    injection hfailure with hstop
    injection hstop
  have hposition : fault.position = f fault.position := by
    conv_lhs => rw [hsame]
    cases fault <;> rfl
  rw [hposition]
  exact hreached _

/-- two runs end alike: in values that differ only in the places of function bodies, in faults of one kind and message at tokens
with one index, or at the same stop that is no fault -/
inductive SameEnd (tokens tokens' : List Token) : Except Failure Value → Except Failure Value → Prop where
  | value {value value' : Value} (same : value'.relocate (fun _ => 0) = value.relocate fun _ => 0) :
      SameEnd tokens tokens' (.ok value) (.ok value')
  | fault {fault fault' : Fault} (kind : fault'.kind = fault.kind) (message : fault'.message = fault.message)
      (place : SamePlace tokens tokens' fault.position fault'.position) :
      SameEnd tokens tokens' (.error (.stop (.fault fault))) (.error (.stop (.fault fault')))
  | stop {stop : Stop} (other : ∀ fault, stop ≠ .fault fault) :
      SameEnd tokens tokens' (.error (.stop stop)) (.error (.stop stop))

/-- one tree in the places of two texts that say the same runs alike, and shows the same -/
theorem execute_alike {tokens tokens' : List Token} (h : tokens.map Token.word = tokens'.map Token.word) {shape : Node}
    (hshape : Built (IsPlace (atIndices (tokens.map Token.word))) shape) (level : ℕ) (channels : Channels) :
    let run := (start level channels).execute (.tree (shape.relocate (placeOf tokens)))
    let run' := (start level channels).execute (.tree (shape.relocate (placeOf tokens')))
    run'.2.1 = run.2.1 ∧ SameEnd tokens tokens' run.1 run'.1 := by
  simp only [execute_start_relocate]
  rcases hrun : evaluate (start level channels).tracing (start level channels).budget shape ⟨.empty, []⟩ with ⟨outcome, machine⟩
  have hexecute := execute_tree (start level channels) hrun
  have hfault : ∀ fault, ((start level channels).execute (.tree shape)).1 = .error (.stop (.fault fault)) →
      IsPlace (atIndices (tokens.map Token.word)) fault.position := fun fault => fault_of_built hshape
  rw [hexecute] at hfault ⊢
  cases outcome with
  | ok value =>
    simp only [Except.mapError, Result.relocate]
    refine ⟨trivial, .value ?_⟩
    rw [Value.relocate_relocate, Value.relocate_relocate]
    rfl
  | error stop =>
    simp only [Except.mapError, Result.relocate, Failure.relocate]
    refine ⟨trivial, ?_⟩
    cases stop with
    | fault fault =>
      have hplace := samePlace_of_isPlace h (hfault fault rfl)
      have hdiagnostic := fun f => Fault.diagnostic_relocate f fault
      simp only [Fault.diagnostic, Diagnostic.mk.injEq] at hdiagnostic
      refine .fault ?_ ?_ ?_
      · rw [(hdiagnostic _).1, (hdiagnostic _).1]
      · rw [(hdiagnostic _).2.1, (hdiagnostic _).2.1]
      · rwa [(hdiagnostic _).2.2, (hdiagnostic _).2.2]
    | abort abort => exact .stop nofun
    | exhausted => exact .stop nofun

/-- **Layout does not matter.** Two source texts that say the same both parse, to trees that are equal without their positions
and stand, part by part, at tokens with one index, and run from nothing they show the same and end alike; or both fail with the
same complaint at tokens with one index or at the end; or both stop at a number that cannot be read. -/
theorem layout_irrelevant {a b : String} (h : words a = words b) :
    (∃ tree tree', parseSource a = .ok tree ∧ parseSource b = .ok tree' ∧
        tree'.relocate (fun _ => 0) = tree.relocate (fun _ => 0) ∧
        Aligned (Token.tokenize a) (Token.tokenize b) tree tree' ∧
        ∀ level channels,
          let run := (start level channels).runSource a
          let run' := (start level channels).runSource b
          run'.2.1 = run.2.1 ∧ SameEnd (Token.tokenize a) (Token.tokenize b) run.1 run'.1) ∨
      (∃ complaint complaint', parseSource a = .error (.complaint complaint) ∧ parseSource b = .error (.complaint complaint') ∧
        SameComplaint (Token.tokenize a) (Token.tokenize b) complaint complaint') ∨
      ∃ t t', parseSource a = .error (.unreadable t) ∧ parseSource b = .error (.unreadable t') := by
  rcases parse_alike h (tokenize_ordered a) (tokenize_ordered b) with ⟨shape, ha, hb, hshape⟩ | hcomplaint | hunreadable
  · refine Or.inl ⟨_, _, ha, hb, ?_, ?_, fun level channels => ?_⟩
    · rw [Node.relocate_relocate, Node.relocate_relocate]
      rfl
    · exact ⟨shape, _, _, rfl, rfl, fun part hpart => samePlace_of_isPlace h (hshape part hpart).1⟩
    · simp only [runSource_of_ok _ ha, runSource_of_ok _ hb]
      exact execute_alike h hshape level channels
  · exact Or.inr (Or.inl hcomplaint)
  · exact Or.inr (Or.inr hunreadable)

/-- an operand that is not bound, without blanks and behind a comment: the third token, at two and at eleven -/
theorem layout_irrelevant_comment :
    words "1+y" = words "1 + -- and\ny" ∧
      ((start 0 plainChannels).runSource "1+y").1 = .error (.stop (.fault (.unbound (.text "y") 2))) ∧
      SameEnd [⟨.number, "1", 0⟩, ⟨.operator, "+", 1⟩, ⟨.identifier, "y", 2⟩]
        [⟨.number, "1", 0⟩, ⟨.operator, "+", 2⟩, ⟨.identifier, "y", 11⟩]
        ((start 0 plainChannels).runSource "1+y").1 ((start 0 plainChannels).runSource "1 + -- and\ny").1 := by
  have htokens : Token.tokenize "1+y" = [⟨.number, "1", 0⟩, ⟨.operator, "+", 1⟩, ⟨.identifier, "y", 2⟩] := by decide
  have htokens' : Token.tokenize "1 + -- and\ny" = [⟨.number, "1", 0⟩, ⟨.operator, "+", 2⟩, ⟨.identifier, "y", 11⟩] := by
    decide
  have hwords : words "1+y" = words "1 + -- and\ny" := by rw [words, words, htokens, htokens']; rfl
  have hparse : parseSource "1+y" = .ok (.statements 0 (.text "")
      [.operation 1 (.text "+") (.literal 0 (.int 1)) (.reference 2 (.text "y"))]) := by
    rw [parseSource, htokens]
    rfl
  refine ⟨hwords, by rw [runSource_of_ok _ hparse]; rfl, ?_⟩
  rcases layout_irrelevant hwords with ⟨tree, tree', -, -, -, -, hruns⟩ | ⟨complaint, complaint', hfails, -⟩ | ⟨t, t', hfails, -⟩
  · rw [← htokens, ← htokens']
    exact (hruns 0 plainChannels).2
  · rw [hparse] at hfails
    cases hfails
  · rw [hparse] at hfails
    cases hfails

end Session

end LetScript
