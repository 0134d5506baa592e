import Lossless.Anomaly
import Lossless.Build
import Lossless.Build.Layout
import Lossless.Calculator
import Lossless.Calculator.Kind
import Lossless.Command
import Lossless.Config
import Lossless.Config.Check
import Lossless.Config.Json
import Lossless.Config.Load
import Lossless.Config.Yaml
import Lossless.Diagnostic
import Lossless.Event
import Lossless.Expression
import Lossless.Json.Reader
import Lossless.Json.Writer
import Lossless.Lexer
import Lossless.Lexer.Code
import Lossless.Lexer.Lexeme
import Lossless.Lexer.Number
import Lossless.Lexer.Plain
import Lossless.Lexer.Rules
import Lossless.Lines
import Lossless.Main
import Lossless.Marker
import Lossless.Operators
import Lossless.Proofs.Actions
import Lossless.Proofs.AppendOrder
import Lossless.Proofs.Assembly
import Lossless.Proofs.Bytes
import Lossless.Proofs.Completeness
import Lossless.Proofs.Consistency
import Lossless.Proofs.Coverage
import Lossless.Proofs.Cursor
import Lossless.Proofs.Cuts
import Lossless.Proofs.Derivation
import Lossless.Proofs.Diagnosis
import Lossless.Proofs.Discipline
import Lossless.Proofs.Headway
import Lossless.Proofs.Layout
import Lossless.Proofs.Lookahead
import Lossless.Proofs.Losslessness
import Lossless.Proofs.Nesting
import Lossless.Proofs.Phrase
import Lossless.Proofs.Placement
import Lossless.Proofs.Precedence
import Lossless.Proofs.Reading
import Lossless.Proofs.Replay
import Lossless.Proofs.Rollback
import Lossless.Proofs.Screening
import Lossless.Proofs.Soundness
import Lossless.Proofs.StringNesting
import Lossless.Proofs.TokenStream
import Lossless.Registry
import Lossless.Session
import Lossless.Session.Script
import Lossless.Span
import Lossless.Text.Blank
import Lossless.Text.Bytes
import Lossless.Text.CodeSet
import Lossless.Text.Hidden
import Lossless.Text.Letters
import Lossless.Text.Lowercase
import Lossless.Text.Quoted
import Lossless.Token
import Lossless.Token.Json
import Lossless.Token.Kind
import Lossless.Tree
import Lossless.Tree.Check
import Lossless.Tree.Outline
import Lossless.Yaml.Cursor
import Lossless.Yaml.Node
import Lossless.Yaml.Reader
import Lossless.Yaml.Scalar
import Lossless.Yaml.Scan
import Lossless.Yaml.Token
import Lossless.Proofs.StringGrammar
import Lossless.Proofs.Separation
import Lossless.Proofs.Writing
import Lossless.Proofs.Grouping
import Lossless.Proofs.RoundTrip
import Lossless.Proofs.Forest
import Lossless.Proofs.Growth
import Lossless.Proofs.CleanNesting
import Lossless.Proofs.InPlace
import Lossless.Proofs.Lockstep
import Lossless.Proofs.ProgramLockstep
import Lossless.Proofs.LineIndependence
import Lossless.Proofs.Thinning
import Lossless.Proofs.TriviaBlindness
import Lossless.Proofs.EventLog
import Lossless.Proofs.Resumption
import Lossless.Proofs.SpanNesting
import Lossless.Proofs.Walk
import Lossless.Proofs.ProgramWalk
import Lossless.Proofs.CleanEnding
import Lossless.Proofs.NestingLimit
import Lossless.Proofs.OneLine
import Lossless.Proofs.LineBounds
import Lossless.Proofs.BrokenLiterals
import Lossless.Proofs.ErrorPlacement
import Lossless.Proofs.RulePriority
import Lossless.Proofs.NumberLanguage
import Lossless.Proofs.BlockBraces
import Lossless.Proofs.MarkedKeywords
import Lossless.Proofs.DeepestNode
import Lossless.Proofs.EntrySets
import Lossless.Proofs.Renumbering
import Lossless.Proofs.LexemeOrigins
import Lossless.Proofs.ErrorShapes
import Lossless.Proofs.LineStarts
import Lossless.Proofs.Positions
import Lossless.Proofs.TokenLines
import Lossless.Proofs.Retention
import Lossless.Proofs.Digits
import Lossless.Proofs.JsonRoundTrip
import Lossless.Proofs.ConfigRoundTrip
import Lossless.Proofs.TokenRoundTrip
import Lossless.Proofs.Preorder
import Lossless.Proofs.QuotedText
import Lossless.Proofs.Outlines
import Lossless.Proofs.Peeking
