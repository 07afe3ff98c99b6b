import HdlExpr.Tag.Spelling
import HdlExpr.Tree.Build
import HdlExpr.Ir.Doc
import HdlExpr.Ir.Graph
import HdlExpr.Fold
import HdlExpr.Scope.Graph
import HdlExpr.Log.Logger
import HdlExpr.Batch
import HdlExpr.Files.Host
import HdlExpr.Json.Reader
import HdlExpr.Output.Data
import HdlExpr.Output.Drawing
import HdlExpr.Tag.Style
import HdlExpr.Cli.Run
import HdlExpr.Main
import HdlExpr.Proofs.Agreement
import HdlExpr.Proofs.Fold.Effects
import HdlExpr.Proofs.Fold.Strictness
import HdlExpr.Proofs.Lower.Substitution
import HdlExpr.Proofs.Tree.Outline
import HdlExpr.Proofs.Reading
import HdlExpr.Proofs.Term
import HdlExpr.Proofs.Lower.Numbering
import HdlExpr.Proofs.Lower.Parents
import HdlExpr.Proofs.Scope.Snapshot
import HdlExpr.Proofs.Below
import HdlExpr.Proofs.Depth
import HdlExpr.Proofs.Document.Building
import HdlExpr.Proofs.Batch.Tallies
import HdlExpr.Proofs.Document.Readers
import HdlExpr.Proofs.Value.Fields
import HdlExpr.Proofs.Batch.Workers
import HdlExpr.Proofs.Value.Arithmetic
import HdlExpr.Proofs.Value.Power
import HdlExpr.Proofs.Fold.Selects
import HdlExpr.Evaluator
import HdlExpr.Proofs.Observation
import HdlExpr.Proofs.Value.Shifts
import HdlExpr.Proofs.Numeral.Based
import HdlExpr.Proofs.Numeral.Decimal
import HdlExpr.Proofs.Value.Comparison
import HdlExpr.Proofs.Value.Bitwise
import HdlExpr.Proofs.Value.Inverses
import HdlExpr.Proofs.Fold.Nested
import HdlExpr.Proofs.Value.Printing
import HdlExpr.Proofs.Events
import HdlExpr.Proofs.Wrapping
import HdlExpr.Proofs.Hollow
import HdlExpr.Proofs.Literal
import HdlExpr.Proofs.Tag.Spelling
import HdlExpr.Proofs.Document.Levels
import HdlExpr.Proofs.Cli.Settings
import HdlExpr.Proofs.Log.Handlers
import HdlExpr.Proofs.Names
import HdlExpr.Proofs.Numeral.Real
import HdlExpr.Proofs.Tracing
import HdlExpr.Proofs.Descent
import HdlExpr.Proofs.Lower.Frames
