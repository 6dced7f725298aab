import Llama.Analysis.Expr
import Llama.Analysis.Program
import Llama.Analysis.Walk
import Llama.Binary64.Basic
import Llama.Binary64.Reading
import Llama.Binary64.Shortest
import Llama.Binary64.Text
import Llama.Command
import Llama.Compilation
import Llama.Grammar.Deeper
import Llama.Grammar.Expr
import Llama.Grammar.Let
import Llama.Grammar.Operator
import Llama.Grammar.Pattern
import Llama.Grammar.Program
import Llama.Grammar.Type
import Llama.Inference.Basic
import Llama.Inference.Constraint
import Llama.Inference.Slots
import Llama.Inference.Term
import Llama.Main
import Llama.Parser.Basic
import Llama.Parser.Constant
import Llama.Parser.Error
import Llama.Report
import Llama.Scope.Library
import Llama.Scope.Symbol
import Llama.Scope.Table
import Llama.Sink
import Llama.Span
import Llama.Text.Alphanumeric
import Llama.Text.CodePoints
import Llama.Text.Graphic
import Llama.Text.Numeral
import Llama.Text.Quoted
import Llama.Token.Basic
import Llama.Token.Comment
import Llama.Token.Kind
import Llama.Token.Lexeme
import Llama.Token.Lexer
import Llama.Token.Literal
import Llama.Tree.Basic
import Llama.Tree.Const
import Llama.Tree.Node
import Llama.Tree.Operator
import Llama.Tree.Printer
import Llama.Ty.Basic
import Llama.Ty.Error
import Llama.TypeTable
import Llama.Proofs.TokenReading
import Llama.Proofs.TreeInduction
import Llama.Proofs.Unparsing
import Llama.Proofs.BareTree
import Llama.Proofs.TypeReading
import Llama.Proofs.PatternReading
import Llama.Proofs.PartReading
import Llama.Proofs.ExprReading
import Llama.Proofs.ProgramReading
import Llama.Proofs.Elaboration
import Llama.Proofs.ScopeSimulation
import Llama.Proofs.ScopeBalance
import Llama.Proofs.PlainSteps
import Llama.Proofs.Resolution
import Llama.Proofs.LexicalScoping
import Llama.Proofs.Satisfaction
import Llama.Proofs.ConstraintSoundness
import Llama.Proofs.ConstraintCompleteness
import Llama.Proofs.TypingConstraints
import Llama.Proofs.PrefilledTypes
import Llama.Proofs.TableRepresentation
import Llama.Proofs.PostOrder
import Llama.Proofs.Numbering
import Llama.Proofs.Placeholders
import Llama.Proofs.AnalysisCompleteness
import Llama.Proofs.LexemeMatching
import Llama.Proofs.OnePassScan
import Llama.Proofs.Renumbering
import Llama.Proofs.ParseOnly
import Llama.Proofs.RecordedTypes
import Llama.Proofs.Concatenation
import Llama.Proofs.SyntaxErrors
import Llama.Proofs.StorageTypes
import Llama.Proofs.TokenTiling
import Llama.Proofs.NestingLimit
import Llama.Proofs.RecursionDepth
import Llama.Proofs.Termination
import Llama.Proofs.OperatorTrees
import Llama.Proofs.PrecedenceClimbing
import Llama.Proofs.LexemeCutting
import Llama.Proofs.TypeText
import Llama.Proofs.NestedLists
import Llama.Proofs.TreeText
import Llama.Proofs.DumpedTrees
import Llama.Proofs.ParserResults
import Llama.Proofs.ParsedNames
import Llama.Proofs.DumpedPrograms
import Llama.Proofs.TokenStretches
import Llama.Proofs.TreeLayout
import Llama.Proofs.SpanNesting
import Llama.Proofs.TreeContents
import Llama.Proofs.TypeShift
import Llama.Proofs.AnnotationErrors
import Llama.Proofs.Conclusion
import Llama.Proofs.CommentBlanking
import Llama.Proofs.TypeValidity
import Llama.Proofs.DefinitionOrder
import Llama.Proofs.ScopeHistory
import Llama.Proofs.ScopeIndex
import Llama.Proofs.WordSpacing
import Llama.Proofs.PatternParsing
import Llama.Proofs.SignedNumerals
import Llama.Proofs.DanglingElse
import Llama.Proofs.LiteralDecoding
import Llama.Proofs.ShownConstants
import Llama.Proofs.FunctionAnnotations
import Llama.Proofs.TypesAsTerms
import Llama.Proofs.FurthestErrors
import Llama.Proofs.PatternVariables
