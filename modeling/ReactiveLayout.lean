import ReactiveLayout.Affine
import ReactiveLayout.Blank
import ReactiveLayout.Compilation
import ReactiveLayout.CompileError
import ReactiveLayout.Constraint
import ReactiveLayout.Decimal.Binary
import ReactiveLayout.Decimal.Numeral
import ReactiveLayout.Decimal.Shortest
import ReactiveLayout.Document.Blueprint
import ReactiveLayout.Document.Character
import ReactiveLayout.Document.Node
import ReactiveLayout.Document.Reading
import ReactiveLayout.Document.Toml
import ReactiveLayout.Document.Toml.Number
import ReactiveLayout.Document.Toml.Table
import ReactiveLayout.Document.Toml.Text
import ReactiveLayout.Document.Yaml
import ReactiveLayout.Document.Yaml.Lexeme
import ReactiveLayout.Document.Yaml.Located
import ReactiveLayout.Document.Yaml.Scalar
import ReactiveLayout.Engine
import ReactiveLayout.Formula
import ReactiveLayout.Layout
import ReactiveLayout.Minimizer
import ReactiveLayout.Model
import ReactiveLayout.NameTable
import ReactiveLayout.Plan
import ReactiveLayout.Producer
import ReactiveLayout.Proofs.BareValue
import ReactiveLayout.Proofs.Brackets
import ReactiveLayout.Proofs.BuildCalls
import ReactiveLayout.Proofs.BuildOrder
import ReactiveLayout.Proofs.ByteOrder
import ReactiveLayout.Proofs.Closure
import ReactiveLayout.Proofs.Coherence
import ReactiveLayout.Proofs.Commands
import ReactiveLayout.Proofs.Construction
import ReactiveLayout.Proofs.DocumentForm
import ReactiveLayout.Proofs.Eagerness
import ReactiveLayout.Proofs.Engine
import ReactiveLayout.Proofs.Evaluation
import ReactiveLayout.Proofs.ExpressionAlgebra
import ReactiveLayout.Proofs.Failure
import ReactiveLayout.Proofs.Firmness
import ReactiveLayout.Proofs.Finiteness
import ReactiveLayout.Proofs.FirstOccurrence
import ReactiveLayout.Proofs.FormulaGrammar
import ReactiveLayout.Proofs.Growth
import ReactiveLayout.Proofs.Indifference
import ReactiveLayout.Proofs.IndexedTable
import ReactiveLayout.Proofs.Inlining
import ReactiveLayout.Proofs.Insertion
import ReactiveLayout.Proofs.Ledger
import ReactiveLayout.Proofs.Lowering
import ReactiveLayout.Proofs.Meaning
import ReactiveLayout.Proofs.Minimizer
import ReactiveLayout.Proofs.Mirror
import ReactiveLayout.Proofs.MissingReference
import ReactiveLayout.Proofs.NameTable
import ReactiveLayout.Proofs.Noninterference
import ReactiveLayout.Proofs.NormalForm
import ReactiveLayout.Proofs.Numbering
import ReactiveLayout.Proofs.Overflow
import ReactiveLayout.Proofs.Overheard
import ReactiveLayout.Proofs.PieceShape
import ReactiveLayout.Proofs.QuantityTable
import ReactiveLayout.Proofs.Queue
import ReactiveLayout.Proofs.ReadingOrder
import ReactiveLayout.Proofs.Rebuild
import ReactiveLayout.Proofs.Recorder
import ReactiveLayout.Proofs.ReferenceGraph
import ReactiveLayout.Proofs.References
import ReactiveLayout.Proofs.Refusal
import ReactiveLayout.Proofs.RefusedRegistration
import ReactiveLayout.Proofs.Registration
import ReactiveLayout.Proofs.Renumbering
import ReactiveLayout.Proofs.Report
import ReactiveLayout.Proofs.Resolution
import ReactiveLayout.Proofs.Retention
import ReactiveLayout.Proofs.Rewriting
import ReactiveLayout.Proofs.RuleGrammar
import ReactiveLayout.Proofs.Settlement
import ReactiveLayout.Proofs.Shadowing
import ReactiveLayout.Proofs.StandIn
import ReactiveLayout.Proofs.Stillness
import ReactiveLayout.Proofs.Tick
import ReactiveLayout.Proofs.TickCalls
import ReactiveLayout.Proofs.TickCount
import ReactiveLayout.Proofs.Tolerance
import ReactiveLayout.Proofs.Traversal
import ReactiveLayout.Proofs.Upkeep
import ReactiveLayout.QuantityTable
import ReactiveLayout.Recorder
import ReactiveLayout.Rule
import ReactiveLayout.Sample
import ReactiveLayout.Scalar
import ReactiveLayout.Scheduler
import ReactiveLayout.Scope
import ReactiveLayout.Settings
import ReactiveLayout.Simplex
import ReactiveLayout.Solver
import ReactiveLayout.Specification
import ReactiveLayout.Term
import ReactiveLayout.Token
