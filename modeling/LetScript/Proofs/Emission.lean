/-
Running an emitted tree is running the program.

The tree of a program is written beside it as an indented document. All integers of a parsed tree have few enough digits to be
read again, so the document is exact (`written_exact`); it is read back as itself, and as the same tree. Running that tree from
its file prints, traces and ends as running the program does, and only the rendering of a runtime diagnostic differs, for want
of the source: `emitted_tree_runs_alike`. The one thing that may keep the tree from being written is the name of its file.
-/
import LetScript.Command
import LetScript.Proofs.Directory
import LetScript.Proofs.Interchange
import LetScript.Proofs.Json
import LetScript.Proofs.Lexing.Spans

namespace LetScript

/-! ## Numbers that were read -/

namespace Numeral

theorem digitValue?_lt {c : Char} {d : ℕ} (h : digitValue? c = some d) : d < 10 := by
  unfold digitValue? at h
  split_ifs at h with hascii
  · cases h
    have hle : c.toNat ≤ '9'.toNat := hascii.2
    have hnine : '9'.toNat = 0x39 := rfl
    omega
  · obtain ⟨first, hfirst, rfl⟩ := Option.map_eq_some_iff.1 h
    have hrange := List.find?_some hfirst
    simp only [Bool.and_eq_true, decide_eq_true_eq] at hrange
    omega

theorem digitRun?_lt {afterDigit : Bool} {chars : List Char} {digits : List ℕ} (h : digitRun? afterDigit chars = some digits) :
    ∀ d ∈ digits, d < 10 := by
  induction chars generalizing afterDigit digits with
  | nil =>
    unfold digitRun? at h
    split_ifs at h
    cases h
    simp
  | cons c rest ih =>
    rw [digitRun?] at h
    split_ifs at h
    · exact ih h
    · cases hvalue : digitValue? c with
      | none => rw [hvalue] at h; cases h
      | some d =>
        rw [hvalue] at h
        obtain ⟨others, hothers, rfl⟩ := Option.map_eq_some_iff.1 h
        exact List.forall_mem_cons.2 ⟨digitValue?_lt hvalue, ih hothers⟩

theorem ofDigits_lt {digits : List ℕ} (h : ∀ d ∈ digits, d < 10) : ofDigits digits < 10 ^ digits.length := by
  have hfold : ∀ (digits : List ℕ) (start : ℕ), (∀ d ∈ digits, d < 10) →
      digits.foldl (fun acc d => 10 * acc + d) start < (start + 1) * 10 ^ digits.length := by
    intro digits
    induction digits with
    | nil => intro start _; simp
    | cons d digits ih =>
      intro start hdigits
      obtain ⟨hd, hdigits⟩ := List.forall_mem_cons.1 hdigits
      calc digits.foldl (fun acc d => 10 * acc + d) (10 * start + d)
          < (10 * start + d + 1) * 10 ^ digits.length := ih _ hdigits
        _ ≤ ((start + 1) * 10) * 10 ^ digits.length := Nat.mul_le_mul_right _ (by omega)
        _ = (start + 1) * 10 ^ (digits.length + 1) := by ring
  simpa [ofDigits] using hfold digits 0 h

/-- a number that was read has no more digits than are read -/
theorem read_natAbs_lt {text : String} {n : Int} (h : read text = some n) : n.natAbs < 10 ^ digitLimit := by
  simp only [read] at h
  split at h
  · cases h
  · rename_i digits hdigits
    split_ifs at h with hlength hnegative
    all_goals
      cases h
      have hlt := (ofDigits_lt (digitRun?_lt hdigits)).trans_le (Nat.pow_le_pow_right (by decide) hlength)
      simpa using hlt

end Numeral

/-! ## Documents of parsed trees -/

namespace Interchange

theorem payload_exact {node : Node} (h : Parsing.Plain node) {payload : Json} (hpayload : payload? node = some payload) :
    Json.Exact payload := by
  cases node with
  | statements position mode nodes =>
    cases hpayload
    rcases h with rfl | rfl
    · exact .text _
    · exact .text _
  | literal position value =>
    obtain ⟨digits, n, hread, rfl⟩ := h
    cases hpayload
    exact .int (Numeral.read_natAbs_lt hread)
  | lambda position params body =>
    cases hpayload
    refine .list fun param hparam => ?_
    obtain ⟨word, rfl⟩ := h param hparam
    exact .text word
  | conditional position condition consequent alternative =>
    cases hpayload
    exact .null
  | blank position => exact h.elim
  | _ =>
    cases hpayload
    obtain ⟨word, rfl⟩ := h
    exact .text word

theorem nodeObject_exact {kind : NodeKind} {position : Int} {payload : Json} {nodes : List Json}
    (hposition : position.natAbs < 10 ^ Numeral.digitLimit) (hpayload : Json.Exact payload)
    (hnodes : ∀ node ∈ nodes, Json.Exact node) : Json.Exact (nodeObject kind position payload nodes) := by
  refine .object (by simp) ?_
  simp only [List.forall_mem_cons]
  exact ⟨.text _, .int hposition, hpayload, .list hnodes, nofun⟩

/-- the documents of trees are exact when the trees' own documents are -/
theorem writeAll_exact {nodes : List Node} (h : ∀ node ∈ nodes, ∀ written, write node = .ok written → Json.Exact written)
    {documents : List Json} (hwritten : writeAll nodes = .ok documents) : ∀ document ∈ documents, Json.Exact document := by
  induction nodes generalizing documents with
  | nil =>
    rw [writeAll_nil] at hwritten
    cases hwritten
    simp
  | cons node rest ih =>
    obtain ⟨hnode, hrest⟩ := List.forall_mem_cons.1 h
    obtain ⟨first, others, hfirst, hothers, rfl⟩ := (writeAll_cons_eq_ok_iff _ _ _).1 hwritten
    exact List.forall_mem_cons.2 ⟨hnode first hfirst, ih hrest hothers⟩

/-- **The document of a tree as the parser makes it is exact**, as long as its positions can be read. -/
theorem written_exact {P : Int → Prop} (hP : ∀ p, P p → p.natAbs < 10 ^ Numeral.digitLimit) {node : Node}
    (h : Parsing.Built P node) {written : Json} (hwritten : write node = .ok written) : Json.Exact written := by
  induction node using Node.inductionOnChildren generalizing written with
  | step node ih =>
    obtain ⟨⟨hposition, hplain⟩, hchildren⟩ := Parsing.built_iff.1 h
    obtain ⟨kind, payload, nodes, -, hpayload, hnodes, rfl⟩ := (write_eq_ok_iff node written).1 hwritten
    refine nodeObject_exact (hP _ hposition) (payload_exact hplain hpayload) (writeAll_exact ?_ hnodes)
    exact fun child hchild document hdocument => ih child hchild (hchildren child hchild) hdocument

/-- **The tree of a source text survives as text.** -/
theorem read_emitted {source : String} (hlength : source.length < 10 ^ Numeral.digitLimit) {tree : Node}
    (h : Parsing.parseSource source = .ok tree) :
    ∃ document, write tree = .ok document ∧ '\r' ∉ document.indented.toList ∧
      Json.read document.indented = .ok document ∧ read document = .ok tree := by
  obtain ⟨document, hwritten, hread⟩ := read_parsed h
  have hplaces : ∀ p, Parsing.IsPlace (Token.tokenize source) p → p.natAbs < 10 ^ Numeral.digitLimit := by
    rintro p (⟨t, ht, rfl⟩ | ⟨-, rfl⟩)
    · obtain ⟨before, after, htext, hposition, -⟩ := Token.tokenize_at source ht
      have hinside := congrArg List.length htext
      simp only [String.length_toList, List.length_append] at hinside
      omega
    · exact Nat.pow_pos (by decide)
  have hexact := written_exact hplaces (Parsing.parse_built h) hwritten
  refine ⟨document, hwritten, ?_, Json.read_indented hexact, hread⟩
  rw [Json.indented, String.toList_ofList]
  exact Json.return_not_in_indented hexact 0

end Interchange

namespace Command

/-! ## Arguments -/

/-- arguments behind a number of flags for verbosity -/
def verbosely (count : ℕ) (args : List String) : List String := List.replicate count "-v" ++ args

/-- the flag for verbosity, sorted -/
def verboseWord : Word := .option .verbose "-v" none

theorem classify_plain {name : String} (h : IsPlainName name) : classify name = .ok (.plain name) := by
  have hhyphen := h.noHyphen
  unfold classify
  split
  · simp_all
  · rfl

theorem ne_marker {name : String} (h : IsPlainName name) : name ≠ "--" := by
  rintro rfl
  exact h.noHyphen rfl

theorem classifyAll_plain {name : String} (h : IsPlainName name) : classifyAll [name] = .ok [.plain name] := by
  rw [classifyAll, if_neg (ne_marker h), classify_plain h]
  rfl

theorem classifyAll_verbosely (count : ℕ) {args : List String} {words : List Word} (h : classifyAll args = .ok words) :
    classifyAll (verbosely count args) = .ok (List.replicate count verboseWord ++ words) := by
  induction count with
  | zero => exact h
  | succ count ih =>
    have hflag : classify "-v" = .ok verboseWord := by decide
    rw [verbosely, List.replicate_succ, List.cons_append, classifyAll, if_neg (by decide), hflag]
    change (classifyAll (verbosely count args)).map _ = _
    rw [ih]
    rfl

theorem take_verbosely (count : ℕ) (options : Options) (words : List Word) :
    take ⟨options, false, []⟩ (List.replicate count verboseWord ++ words) =
      take ⟨{ options with verbosity := options.verbosity + count }, false, []⟩ words := by
  induction count generalizing options with
  | zero => rfl
  | succ count ih =>
    rw [List.replicate_succ, List.cons_append]
    refine (ih { options with verbosity := options.verbosity + 1 }).trans ?_
    simp only [Nat.add_assoc, Nat.add_comm 1]

/-- the flags count, and the other arguments are taken as without them -/
theorem request_verbosely (count : ℕ) {args : List String} {words : List Word} {options : Options} {named : Bool}
    (hwords : classifyAll args = .ok words)
    (htake : take ⟨{ Options.initial with verbosity := count }, false, []⟩ words = .ok ⟨options, named, []⟩) :
    request (verbosely count args) = .go options := by
  have hcount : take ⟨.initial, false, []⟩ (List.replicate count verboseWord ++ words) = .ok ⟨options, named, []⟩ := by
    rw [take_verbosely, ← htake]
    simp [Options.initial]
  rw [request, classifyAll_verbosely count hwords]
  simp [hcount]

/-- a program is asked for by its name -/
theorem request_program (count : ℕ) {name : String} (h : IsPlainName name) :
    request (verbosely count [name]) = .go ⟨count, true, none, none, none, some name⟩ :=
  request_verbosely count (classifyAll_plain h) rfl

/-- a tree is asked for by the name of its file -/
theorem request_tree (count : ℕ) {name : String} (h : IsPlainName name) :
    request (verbosely count ["--ast", name]) = .go ⟨count, true, none, some name, none, none⟩ := by
  have hwords : classifyAll ["--ast", name] = .ok [.option .runTree "--ast" none, .plain name] := by
    rw [classifyAll, if_neg (by decide), classifyAll_plain h]
    rfl
  exact request_verbosely count hwords rfl

/-- a tree is written for the program that is named -/
theorem request_emission {name : String} (h : IsPlainName name) :
    request ["--emit-ast", name] = .go ⟨0, true, some name, none, none, none⟩ := by
  have hwords : classifyAll ["--emit-ast", name] = .ok [.option .emitTree "--emit-ast" none, .plain name] := by
    rw [classifyAll, if_neg (by decide), classifyAll_plain h]
    rfl
  exact request_verbosely 0 hwords rfl

/-! ## What is done -/

section

variable (paint : String → String) (count : ℕ) {name : String} (h : IsPlainName name) (directory : Directory)

include h

theorem run_program : run (verbosely count [name]) directory paint =
    runProgram paint (.plain name) ⟨count, true, none, none, none, some name⟩ directory := by
  rw [run, request_program count h]
  simp [perform, given?, h.nonempty, Path.ofText_plain h]

theorem run_tree : run (verbosely count ["--ast", name]) directory paint =
    runTree paint (.plain name) ⟨count, true, none, some name, none, none⟩ directory := by
  rw [run, request_tree count h]
  simp [perform, given?, h.nonempty, Path.ofText_plain h]

theorem run_emission : run ["--emit-ast", name] directory paint = emitTree paint (.plain name) true directory := by
  rw [run, request_emission h]
  simp [perform, given?, h.nonempty, Path.ofText_plain h]

end

/-- the name of the file that the tree of a program is written to -/
def treeName (name : String) : String := name ++ ".ast.json"

/-- two commands end alike, write the same output and leave the same trace and the same files but the named one; their error
outputs differ only where a runtime diagnostic is rendered, with the source and without it -/
structure SameRun (paint : String → String) (name source : String) (report report' : Report) : Prop where
  ending : report'.ending = report.ending
  output : report'.output = report.output
  trace : report'.directory.get? "debug.txt" = report.directory.get? "debug.txt"
  files : ∀ file, file ≠ name → report'.directory.get? file = report.directory.get? file
  errors : report'.errors = report.errors ∨ report.ending = .exit 1 ∧ ∃ diagnostic : Diagnostic,
    report.errors = diagnostic.report source true paint ∧ report'.errors = diagnostic.report "" true paint

/-- the trace is written, or not, whether or not another file was put -/
theorem withTrace_put {name : String} (hslash : '/' ∉ name.toList) (hname : "debug.txt" ≠ name) (contents : ByteArray)
    (level : ℕ) (trace : String) (directory : Directory) :
    (∃ error, directory.withTrace level trace = .error error ∧
        (directory.put name contents).withTrace level trace = .error error) ∨
      ∃ after after', directory.withTrace level trace = .ok after ∧
        (directory.put name contents).withTrace level trace = .ok after' ∧
        ∀ file, file ≠ name → after'.get? file = after.get? file := by
  unfold Directory.withTrace
  split_ifs
  · exact Directory.writeText_put hslash (by decide) hname contents trace directory
  · refine Or.inr ⟨_, _, rfl, rfl, fun file hfile => ?_⟩
    rw [Directory.get?_put, if_neg hfile]

/-- **A tree is run alike with its source and without it**, whether or not another file was put. -/
theorem execute_alike (paint : String → String) {name : String} (hslash : '/' ∉ name.toList) (hname : "debug.txt" ≠ name) (contents : ByteArray)
    (tree : Node) (source : String) {options options' : Options} (hverbosity : options'.verbosity = options.verbosity)
    (hcolor : options.color = true) (hcolor' : options'.color = true) (directory : Directory) :
    SameRun paint name source (execute paint tree source options directory)
      (execute paint tree "" options' (directory.put name contents)) := by
  unfold execute
  rw [hverbosity, hcolor, hcolor']
  rcases (Session.start options.verbosity plainChannels).run tree with ⟨outcome, shown, next⟩
  dsimp only
  rcases withTrace_put hslash hname contents options.verbosity shown.trace directory with
    ⟨error, hfails, hfails'⟩ | ⟨after, after', hwritten, hwritten', hfiles⟩
  · rw [hfails, hfails']
    have hfiles : ∀ file, file ≠ name → (directory.put name contents).get? file = directory.get? file := fun file hfile => by
      rw [Directory.get?_put, if_neg hfile]
    exact ⟨rfl, rfl, hfiles _ hname, hfiles, Or.inl rfl⟩
  · rw [hwritten, hwritten']
    cases outcome with
    | ok value => exact ⟨rfl, rfl, hfiles _ hname, hfiles, Or.inl rfl⟩
    | error stop =>
      cases stop with
      | fault fault => exact ⟨rfl, rfl, hfiles _ hname, hfiles, Or.inr ⟨rfl, fault.diagnostic, rfl, rfl⟩⟩
      | abort abort => exact ⟨rfl, rfl, hfiles _ hname, hfiles, Or.inl rfl⟩
      | exhausted => exact ⟨rfl, rfl, hfiles _ hname, hfiles, Or.inl rfl⟩

/-! ## Emission -/

section

variable {name : String} (h : IsPlainName name)

include h

theorem treeName_plain : IsPlainName (treeName name) := h.append (by decide) (by decide)

theorem treeName_long : 9 < (treeName name).toList.length := by
  have hpos : 0 < name.toList.length := List.length_pos_iff.2 (by simpa using h.nonempty)
  have hending : ".ast.json".toList.length = 9 := rfl
  rw [treeName, String.toList_append, List.length_append, hending]
  omega

theorem treeName_ne {other : String} (hother : other.toList.length ≤ 9) : other ≠ treeName name := by
  rintro rfl
  exact absurd (treeName_long h) (Nat.not_lt.2 hother)

theorem treeName_usable (husable : (Path.plain name).isUsable = true) : (Path.plain (treeName name)).isUsable = true := by
  have hending : Text.isEncodable ".ast.json" = true := by decide
  have hnull : Char.ofNat 0 ∉ ".ast.json".toList := by decide
  simp only [Path.isUsable, Path.text_plain h.nonempty, Path.text_plain (treeName_plain h).nonempty] at husable ⊢
  simp_all [treeName]

/-- a tree that can be written is put beside its program -/
theorem emitTree_plain {directory : Directory} {source : String} (hread : directory.readText (.plain name) = .ok source)
    {tree : Node} (hparse : Parsing.parseSource source = .ok tree) {document : Json}
    (hwritten : Interchange.write tree = .ok document) (hshort : (treeName name).utf8ByteSize ≤ Path.partLimit)
    (hfolder : directory.isFolder [treeName name] = false) (paint : String → String) :
    emitTree paint (.plain name) true directory =
      ⟨.exit 0, treeName name ++ "\n", "", directory.put (treeName name) document.indented.toUTF8⟩ := by
  have hplain := treeName_plain h
  have hfile : directory.writeText (treeFile (.plain name)) document.indented =
      .ok (directory.put (treeName name) document.indented.toUTF8) :=
    Directory.writeText_plain hplain.nonempty (treeName_ne h (by decide)).symm
      (treeName_usable h (Directory.isUsable_of_readText hread)) hshort hfolder _
  have htext : (treeFile (.plain name)).text = treeName name := Path.text_plain hplain.nonempty
  simp only [emitTree, withFile, hread, withTree, hparse, hwritten, hfile, htext]

end

/-- **Running an emitted tree is running the program.** For a program file with a plain name and any number of flags for
verbosity: if the program parses, its tree is written, provided that the name of its file is not too long and not that of a
folder, and running it ends, prints and traces as running the program does; only the rendering of a runtime diagnostic differs.
If the program does not parse, emitting its tree and running it report the same and write nothing. This is so however diagnostics
are painted. -/
theorem emitted_tree_runs_alike {directory : Directory} {name source : String} (hname : IsPlainName name)
    (hread : directory.readText (.ofText name) = .ok source) (count : ℕ) (paint : String → String) :
    (∀ tree, Parsing.parseSource source = .ok tree → source.length < 10 ^ Numeral.digitLimit →
      (treeName name).utf8ByteSize ≤ Path.partLimit → directory.isFolder [treeName name] = false →
        ∃ after, run ["--emit-ast", name] directory paint = ⟨.exit 0, treeName name ++ "\n", "", after⟩ ∧
          SameRun paint (treeName name) source (run (verbosely count [name]) directory paint)
            (run (verbosely count ["--ast", treeName name]) after paint)) ∧
    ∀ complaint, Parsing.parseSource source = .error (.complaint complaint) →
      run ["--emit-ast", name] directory paint = ⟨.exit 1, "", complaint.diagnostic.report source true paint, directory⟩ ∧
      run (verbosely count [name]) directory paint =
        ⟨.exit 1, "", complaint.diagnostic.report source true paint, directory⟩ := by
  rw [Path.ofText_plain hname] at hread
  rw [run_emission paint hname, run_program paint count hname]
  refine ⟨fun tree hparse hlength hshort hfolder => ?_, fun complaint hparse => ?_⟩
  · obtain ⟨document, hwritten, hbreaks, hdocument, htree⟩ := Interchange.read_emitted hlength hparse
    have hplain := treeName_plain hname
    have hfile : (directory.put (treeName name) document.indented.toUTF8).readText (.plain (treeName name)) =
        .ok document.indented :=
      Directory.readText_put hplain.nonempty (treeName_usable hname (Directory.isUsable_of_readText hread))
        (hshort.trans_lt (by decide)) hbreaks directory
    refine ⟨_, emitTree_plain hname hread hparse hwritten hshort hfolder paint, ?_⟩
    rw [run_tree paint count hplain]
    simp only [runProgram, runTree, withFile, hread, withTree, hparse, hfile, hdocument, htree]
    refine execute_alike paint hplain.noSlash (treeName_ne hname (by decide)) _ tree source ?_ ?_ ?_ directory
    all_goals rfl
  · simp only [emitTree, runProgram, withFile, hread, withTree, hparse]
    exact ⟨rfl, rfl⟩

/-- a directory with one file -/
def holding (name source : String) : Directory := Directory.put name source.toUTF8 []

theorem holding_read {name source : String} (h : IsPlainName name) (husable : (Path.plain name).isUsable = true)
    (hshort : name.utf8ByteSize < Path.lengthLimit) (hbreaks : '\r' ∉ source.toList) :
    (holding name source).readText (.ofText name) = .ok source := by
  rw [Path.ofText_plain h]
  exact Directory.readText_put h.nonempty husable hshort hbreaks []

theorem program_plain : IsPlainName "p.let" := ⟨by decide, by decide, by decide, by decide⟩

/-- a program that fails after it has printed, run with a trace, and one that does not parse -/
theorem emitted_tree_runs_alike_unbound :
    (∃ after, run ["--emit-ast", "p.let"] (holding "p.let" "print 1; x") = ⟨.exit 0, "p.let.ast.json\n", "", after⟩ ∧
      SameRun Diagnostic.emphasised "p.let.ast.json" "print 1; x" (run ["-v", "p.let"] (holding "p.let" "print 1; x"))
        (run ["-v", "--ast", "p.let.ast.json"] after)) ∧
    ∃ errors, run ["--emit-ast", "p.let"] (holding "p.let" "(") = ⟨.exit 1, "", errors, holding "p.let" "("⟩ ∧
      run ["-v", "p.let"] (holding "p.let" "(") = ⟨.exit 1, "", errors, holding "p.let" "("⟩ := by
  have hread := fun source => @holding_read _ source program_plain (by decide) (by decide)
  constructor
  · have htokens : Token.tokenize "print 1; x" =
        [⟨.identifier, "print", 0⟩, ⟨.number, "1", 6⟩, ⟨.symbol, ";", 7⟩, ⟨.identifier, "x", 9⟩] := by decide
    have hparse : Parsing.parseSource "print 1; x" = .ok (.statements 0 (.text "")
        [.call 0 (.text "print") [.literal 6 (.int 1)], .reference 9 (.text "x")]) := by
      rw [Parsing.parseSource, htokens]
      rfl
    have hlength : "print 1; x".length < 10 ^ Numeral.digitLimit :=
      Nat.lt_of_lt_of_le (show _ < 10 ^ 2 by decide) (Nat.pow_le_pow_right (by decide) (by decide))
    exact (emitted_tree_runs_alike program_plain (hread "print 1; x" (by decide)) 1 _).1 _ hparse hlength (by decide) (by decide)
  · have htokens : Token.tokenize "(" = [⟨.paren, "(", 0⟩] := by decide
    have hparse : Parsing.parseSource "(" = .error (.complaint ⟨none, .kind .number, 1⟩) := by
      rw [Parsing.parseSource, htokens]
      rfl
    exact ⟨_, (emitted_tree_runs_alike program_plain (hread "(" (by decide)) 1 _).2 _ hparse⟩

/-! ## Names that cannot be extended -/

/-- a name of a number of letters -/
def letters (count : ℕ) : String := String.ofList (List.replicate count 'a')

theorem toList_letters (count : ℕ) : (letters count).toList = List.replicate count 'a' := String.toList_ofList

theorem size_letters (count : ℕ) : (letters count).utf8ByteSize = count := by
  induction count with
  | zero => rfl
  | succ count ih =>
    have hsize : 'a'.utf8Size = 1 := rfl
    rw [letters] at ih ⊢
    rw [List.replicate_succ, String.ofList_cons, String.utf8ByteSize_append, String.utf8ByteSize_singleton, ih, hsize,
      Nat.add_comm]

section

variable {count : ℕ} (h : 1 < count)

include h

theorem letters_plain : IsPlainName (letters count) := by
  have hne : ∀ other : String, other.toList.length ≤ 1 → letters count ≠ other := by
    rintro _ hother rfl
    rw [toList_letters, List.length_replicate] at hother
    omega
  refine ⟨hne _ (by decide), hne _ (by decide), ?_, ?_⟩
  · simp [toList_letters, List.mem_replicate]
  · simp [toList_letters, List.head?_replicate]

theorem letters_usable : (Path.plain (letters count)).isUsable = true := by
  have hletter : (Text.half? 'a').isNone = true := rfl
  rw [Path.isUsable, Path.text_plain (letters_plain h).nonempty, Text.isEncodable, toList_letters, Bool.and_eq_true]
  refine ⟨by simp [hletter], by simp⟩

/-- the tree of a program with a name that only just fits is not written -/
theorem emitTree_letters (hlong : Path.partLimit < count + 9) (hlimit : count < Path.lengthLimit) {source : String}
    (hbreaks : '\r' ∉ source.toList) {tree : Node} (hparse : Parsing.parseSource source = .ok tree) (paint : String → String) :
    (holding (letters count) source).readText (.ofText (letters count)) = .ok source ∧
      run ["--emit-ast", letters count] (holding (letters count) source) paint =
        .broken (.file .nameTooLong) (holding (letters count) source) := by
  have hplain := letters_plain h
  have husable := letters_usable h
  have hread : (holding (letters count) source).readText (.ofText (letters count)) = .ok source :=
    holding_read hplain husable (by rwa [size_letters]) hbreaks
  have hsize : (treeName (letters count)).utf8ByteSize = count + 9 := by
    rw [treeName, String.utf8ByteSize_append, size_letters]
    rfl
  have hget : (holding (letters count) source).get? (treeName (letters count)) = none := by
    have hne : treeName (letters count) ≠ letters count := by
      intro heq
      rw [heq, size_letters] at hsize
      omega
    rw [holding, Directory.get?_put, if_neg hne]
    rfl
  have hfile : ∀ text, (holding (letters count) source).writeText (treeFile (.plain (letters count))) text =
      .error .nameTooLong :=
    Directory.writeText_tooLong (treeName_plain hplain).nonempty (treeName_ne hplain (by decide)).symm
      (treeName_usable hplain husable) (by rwa [hsize]) hget
  refine ⟨hread, ?_⟩
  rw [Path.ofText_plain hplain] at hread
  obtain ⟨document, hwritten, -⟩ := Interchange.read_parsed hparse
  simp only [run_emission paint hplain, emitTree, withFile, hread, withTree, hparse, hwritten, hfile]

end

/-- a program, and beside it a folder where its tree would be written -/
def besideFolder : Directory := ("p.let.ast.json/x", "".toUTF8) :: holding "p.let" "1"

/-- **A tree is not always written.** The program is there and parses, but the name of its tree is longer than names can be, or
it is that of a folder. -/
theorem tree_not_always_emitted :
    Parsing.parseSource "1" = .ok (.statements 0 (.text "") [.literal 0 (.int 1)]) ∧
      (IsPlainName (letters 250) ∧ (holding (letters 250) "1").readText (.ofText (letters 250)) = .ok "1" ∧
        run ["--emit-ast", letters 250] (holding (letters 250) "1") =
          .broken (.file .nameTooLong) (holding (letters 250) "1")) ∧
      IsPlainName "p.let" ∧ besideFolder.readText (.ofText "p.let") = .ok "1" ∧
        run ["--emit-ast", "p.let"] besideFolder = .broken (.file .isFolder) besideFolder := by
  have htokens : Token.tokenize "1" = [⟨.number, "1", 0⟩] := by decide
  have hparse : Parsing.parseSource "1" = .ok (.statements 0 (.text "") [.literal 0 (.int 1)]) := by
    rw [Parsing.parseSource, htokens]
    rfl
  obtain ⟨hread, hrun⟩ := emitTree_letters (show 1 < 250 by decide) (by decide) (by decide) (by decide) hparse Diagnostic.emphasised
  refine ⟨hparse, ⟨letters_plain (by decide), hread, hrun⟩, program_plain, ?_⟩
  have hfolder : ∀ text, besideFolder.writeText (treeFile (.plain "p.let")) text = .error .isFolder :=
    Directory.writeText_folder (by decide) (by decide) (by decide) (by decide) rfl (by decide)
  have hsource : besideFolder.readText (.plain "p.let") = .ok "1" :=
    Directory.readText_plain (by decide) (by decide) (by decide) rfl (by decide)
  refine ⟨by rwa [Path.ofText_plain program_plain], ?_⟩
  obtain ⟨document, hwritten, -⟩ := Interchange.read_parsed hparse
  simp only [run_emission _ program_plain, emitTree, withFile, hsource, withTree, hparse, hwritten, hfolder]

end Command

end LetScript
