import Packrat.Analysis.AlwaysMatch
import Packrat.Analysis.Basic
import Packrat.Analysis.Event
import Packrat.Analysis.FailureReports
import Packrat.CharClass.Basic
import Packrat.CharClass.Bracket
import Packrat.CharClass.Merge
import Packrat.CharClass.Reduced
import Packrat.Compile.Actions
import Packrat.Compile.Basic
import Packrat.Compile.Variant
import Packrat.Expectation.Basic
import Packrat.Expectation.Collect
import Packrat.Expectation.Table
import Packrat.Grammar.Basic
import Packrat.Grammar.Draft
import Packrat.Grammar.Expr
import Packrat.Grammar.Tour
import Packrat.Grammar.Tree
import Packrat.JavaScript.Expectation
import Packrat.JavaScript.Plan
import Packrat.JavaScript.Rule
import Packrat.Order.Ascending
import Packrat.Order.StableSort
import Packrat.Parse.Error
import Packrat.Parse.Script
import Packrat.Parse.Session
import Packrat.Parse.Stream
import Packrat.Parse.Tracker
import Packrat.Parse.Value
import Packrat.Plan.Basic
import Packrat.Plan.Class
import Packrat.Plan.Exec
import Packrat.Plan.Fault
import Packrat.Plan.Literal
import Packrat.Report.Annotation
import Packrat.Report.Basic
import Packrat.Source.Catalog
import Packrat.Source.Span
import Packrat.Text.Bytes
import Packrat.Text.CaseMap
import Packrat.Text.CaseTable
import Packrat.Text.CellWidth
import Packrat.Text.CodeRange
import Packrat.Text.Escape
import Packrat.Text.Utf16
import Packrat.Proofs.Memo.RuleSet
import Packrat.Proofs.Tracker.Record
import Packrat.Proofs.Memo.Cells
import Packrat.Proofs.Memo.Meaning
import Packrat.Proofs.Memo.Transparent
import Packrat.Proofs.Analysis.Certain
import Packrat.Proofs.Analysis.MaskedReach
import Packrat.Proofs.CharClass.Merge
import Packrat.Proofs.CharClass.Reduced
import Packrat.Proofs.Plan.Class
import Packrat.Proofs.Plan.ClassStrategy
import Packrat.Proofs.Plan.Literal
import Packrat.Proofs.Parse.Course
import Packrat.Proofs.Parse.Boundary
import Packrat.Proofs.Memo.PrintedKey
import Packrat.Proofs.Analysis.Exact
import Packrat.Proofs.Analysis.SelfReference
import Packrat.Proofs.Analysis.Straight
import Packrat.Proofs.Analysis.Consistent
import Packrat.Proofs.Grammar.Redeclare
import Packrat.Proofs.Analysis.Visits
import Packrat.Proofs.Analysis.Solution
import Packrat.Proofs.Tracker.Furthest
import Packrat.Proofs.Parse.Outcome
import Packrat.Proofs.Parse.Returns
import Packrat.Proofs.Memo.Replay
import Packrat.Proofs.JavaScript.StringLiteral
import Packrat.Proofs.Text.CaseMap
import Packrat.Proofs.Plan.Width
import Packrat.Proofs.Grammar.Complete
import Packrat.Proofs.Grammar.Preorder
import Packrat.Proofs.Compile.Plans
import Packrat.Proofs.Compile.Parts
import Packrat.Proofs.Compile.Agreement
import Packrat.Proofs.Plan.LiteralText
import Packrat.Proofs.Plan.Complement
import Packrat.Proofs.Text.CaseForm
import Packrat.Proofs.Plan.Titlecase
import Packrat.Proofs.Grammar.Walk
import Packrat.Proofs.Expectation.Numbering
import Packrat.Proofs.Report.Severity
import Packrat.Proofs.Compile.Hoisting
import Packrat.Proofs.Compile.ActionScope
import Packrat.Proofs.Memo.Sharing
import Packrat.Proofs.CharClass.Canonical
import Packrat.Proofs.Parse.Stream
import Packrat.Proofs.CharClass.Bracket
import Packrat.Proofs.Source.Lines
import Packrat.Proofs.Source.Location
import Packrat.Proofs.Report.Runs
import Packrat.Proofs.Analysis.RuleBody
import Packrat.Proofs.Analysis.AnswerEvents
import Packrat.Proofs.Analysis.SpreadEvents
import Packrat.Proofs.Grammar.Tour
