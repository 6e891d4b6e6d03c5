import Primer.Grammar.Named
import Primer.Main
import Primer.Proofs.Paths
import Primer.Proofs.Initialized
import Primer.Proofs.KnownValues
import Primer.Proofs.FlowPlace
import Primer.Proofs.FlowTrace
import Primer.Proofs.FlowShape
import Primer.Proofs.Decisions
import Primer.Proofs.RuleDepth
import Primer.Proofs.RuleTakes
import Primer.Proofs.DirectRules
import Primer.Proofs.TreeShape
import Primer.Proofs.Outcomes
import Primer.Proofs.ScoreRoom
import Primer.Proofs.Words
import Primer.Proofs.RuleChoice
import Primer.Proofs.Spelling
import Primer.Proofs.Codec
import Primer.Proofs.Layout
import Primer.Proofs.AlikeRules
import Primer.Proofs.BuiltExpressions
import Primer.Proofs.BuiltTrees
import Primer.Proofs.AcceptedExpression
import Primer.Proofs.AcceptedProgram
import Primer.Proofs.Declared
import Primer.Proofs.Trails
import Primer.Proofs.SinglePass
import Primer.Proofs.FailFast
import Primer.Proofs.TextShapes
import Primer.Proofs.FoundShapes
import Primer.Proofs.ReadShapes
import Primer.Proofs.ReadStatementShapes
import Primer.Proofs.ProgramShapes
import Primer.Proofs.SpelledShapes
import Primer.Proofs.SyntaxFault
import Primer.Proofs.Places
import Primer.Proofs.Locations
import Primer.Proofs.Relocation
import Primer.Proofs.StatementText
import Primer.Proofs.StatementList
import Primer.Proofs.MainWrapper
import Primer.Proofs.TokenText
import Primer.Proofs.Passes
import Primer.Proofs.Offenders
import Primer.Proofs.StatementViews
import Primer.Proofs.Unplaced
import Primer.Proofs.TreeFaults
import Primer.Proofs.Addresses
import Primer.Proofs.LexicalScope
import Primer.Proofs.Stores
import Primer.Proofs.WrappedRoot
import Primer.Proofs.Utf8
import Primer.Proofs.JsonNumbers
import Primer.Proofs.Answers
import Primer.Proofs.ExitCodes
import Primer.Proofs.StrictOperands
import Primer.Proofs.ZeroDivisions
import Primer.Proofs.NestingSearch
import Primer.Proofs.FlatPrograms
import Primer.Proofs.Bindings
import Primer.Proofs.ScopeHistory
import Primer.Proofs.DeclaredTypes
import Primer.Proofs.FlowDegrees
import Primer.Proofs.SideBySide
import Primer.Proofs.Diamonds
import Primer.Proofs.ExpressionText
import Primer.Proofs.FailedStatements
import Primer.Proofs.MoreNames
import Primer.Proofs.InnermostScope
import Primer.Proofs.LeafTypes
import Primer.Proofs.LineStarts
import Primer.Proofs.WordRules
