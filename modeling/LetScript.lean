import LetScript.Arithmetic
import LetScript.Binary64
import LetScript.Binary64.Decimal
import LetScript.Command
import LetScript.Command.Arguments
import LetScript.Diagnostic
import LetScript.Directory
import LetScript.Evaluation
import LetScript.Fault
import LetScript.Json
import LetScript.Json.Reader
import LetScript.Json.Writer
import LetScript.Main
import LetScript.Numeral
import LetScript.Parsing
import LetScript.Parsing.Cursor
import LetScript.Parsing.Grammar
import LetScript.Path
import LetScript.Scope
import LetScript.Session
import LetScript.Text.Printable
import LetScript.Text.Quoted
import LetScript.Text.Split
import LetScript.Text.Surrogate
import LetScript.Token
import LetScript.Token.Lexer
import LetScript.Tree
import LetScript.Tree.Interchange
import LetScript.Value
import LetScript.Proofs.Parsing.Lookahead
import LetScript.Proofs.Parsing.Speculation
import LetScript.Proofs.Parsing.Language
import LetScript.Proofs.Parsing.Soundness
import LetScript.Proofs.Parsing.Completeness
import LetScript.Proofs.Parsing.Complaints
import LetScript.Proofs.Evaluation.Environment
import LetScript.Proofs.Evaluation.Frames
import LetScript.Proofs.Evaluation.Refinement
import LetScript.Proofs.Evaluation.Composition
import LetScript.Proofs.Encoding
import LetScript.Proofs.Arithmetic
import LetScript.Proofs.Session.Scopes
import LetScript.Proofs.Evaluation.WellFormed
import LetScript.Proofs.Parsing.Correspondence
import LetScript.Proofs.Session.Safety
import LetScript.Proofs.Session.Pinpointing
import LetScript.Proofs.Evaluation.Silence
import LetScript.Proofs.Session.Transparency
import LetScript.Proofs.Evaluation.Relocation
import LetScript.Proofs.Evaluation.Throughout
import LetScript.Proofs.Evaluation.Irrelevance
import LetScript.Proofs.Lexing.Lines
import LetScript.Proofs.Lexing.Spans
import LetScript.Proofs.Lexing.Respacing
import LetScript.Proofs.Tree
import LetScript.Proofs.Interchange
import LetScript.Proofs.Parsing.Closing
import LetScript.Proofs.Parsing.Joining
import LetScript.Proofs.Session.Batches
import LetScript.Proofs.Parsing.Construction
import LetScript.Proofs.Parsing.Places
import LetScript.Proofs.Layout
import LetScript.Proofs.Json
import LetScript.Proofs.Directory
import LetScript.Proofs.Emission
import LetScript.Proofs.Diagnostic
import LetScript.Proofs.Binary64
import LetScript.Proofs.Evaluation.Division
import LetScript.Proofs.Evaluation.Texts
import LetScript.Proofs.Evaluation.Containment
import LetScript.Proofs.Session.Documents
import LetScript.Proofs.Parsing.Rendering
import LetScript.Proofs.Diagnostic.Coordinates
import LetScript.Proofs.Evaluation.Nesting
import LetScript.Proofs.Session.Traces
import LetScript.Proofs.Parsing.Respelling
import LetScript.Proofs.Parsing.Recursion
import LetScript.Proofs.Parsing.Progress
import LetScript.Proofs.Evaluation.Budget
import LetScript.Proofs.Session.Budgets
import LetScript.Proofs.History
