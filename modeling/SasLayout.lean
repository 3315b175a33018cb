import SasLayout.Bisect
import SasLayout.Block
import SasLayout.Block.Locate
import SasLayout.Block.Navigate
import SasLayout.Block.Pattern
import SasLayout.Block.Search
import SasLayout.Byte
import SasLayout.CommandLine
import SasLayout.CommandLine.Arguments
import SasLayout.CommandLine.Position
import SasLayout.Configuration
import SasLayout.Configuration.Toml
import SasLayout.Dict
import SasLayout.Editor
import SasLayout.Event
import SasLayout.Event.Code
import SasLayout.Event.Json
import SasLayout.EventLog
import SasLayout.Face
import SasLayout.Grammar
import SasLayout.Grammar.Builtin
import SasLayout.Grammar.Levels
import SasLayout.Grammar.Relation
import SasLayout.Grammar.Rules
import SasLayout.Grammar.Table
import SasLayout.Grammar.UnionFind
import SasLayout.Indent
import SasLayout.Indent.Region
import SasLayout.Indent.Rule
import SasLayout.Indent.Walk
import SasLayout.Json
import SasLayout.Keyword
import SasLayout.Limits
import SasLayout.Logged
import SasLayout.Logging
import SasLayout.LogicalToken
import SasLayout.Main
import SasLayout.Settings
import SasLayout.Source
import SasLayout.Source.Report
import SasLayout.SourceFile
import SasLayout.SpanMap
import SasLayout.Statement
import SasLayout.Terminal
import SasLayout.Text
import SasLayout.Text.Escape
import SasLayout.Text.Line
import SasLayout.Text.LineMap
import SasLayout.Text.Printable
import SasLayout.Text.Search
import SasLayout.Text.WhiteSpace
import SasLayout.Text.Word
import SasLayout.Token
import SasLayout.Token.Lexer
import SasLayout.Token.Lookup
import SasLayout.Toml
import SasLayout.Toml.Date
import SasLayout.Toml.Number
import SasLayout.Toml.Reader
import SasLayout.Proofs.BalancedGroups
import SasLayout.Proofs.BareCommas
import SasLayout.Proofs.Bisection
import SasLayout.Proofs.BlockEnds
import SasLayout.Proofs.BlockHeaders
import SasLayout.Proofs.BracketDepth
import SasLayout.Proofs.Bytes
import SasLayout.Proofs.CaseBlind
import SasLayout.Proofs.ClassTops
import SasLayout.Proofs.ColumnBounds
import SasLayout.Proofs.CommentBlocks
import SasLayout.Proofs.CommentEdit
import SasLayout.Proofs.CommentWords
import SasLayout.Proofs.CountedLayers
import SasLayout.Proofs.DepthIndent
import SasLayout.Proofs.Dictionary
import SasLayout.Proofs.EarlierLines
import SasLayout.Proofs.EdgeRounds
import SasLayout.Proofs.EdgeSets
import SasLayout.Proofs.Footing
import SasLayout.Proofs.Idempotence
import SasLayout.Proofs.KeywordTokens
import SasLayout.Proofs.LastOccurrence
import SasLayout.Proofs.Layering
import SasLayout.Proofs.Layout
import SasLayout.Proofs.LetterCase
import SasLayout.Proofs.Lexeme
import SasLayout.Proofs.LineMaps
import SasLayout.Proofs.Lines
import SasLayout.Proofs.LocatedBlocks
import SasLayout.Proofs.LogicalBoundaries
import SasLayout.Proofs.LogicalTokens
import SasLayout.Proofs.LogicalWalk
import SasLayout.Proofs.MacroPairs
import SasLayout.Proofs.MovedLines
import SasLayout.Proofs.Names
import SasLayout.Proofs.NearestOpener
import SasLayout.Proofs.Nesting
import SasLayout.Proofs.Overflow
import SasLayout.Proofs.Partners
import SasLayout.Proofs.Parts
import SasLayout.Proofs.Placement
import SasLayout.Proofs.PlainCode
import SasLayout.Proofs.PlainSearch
import SasLayout.Proofs.Positions
import SasLayout.Proofs.Precedences
import SasLayout.Proofs.Programs
import SasLayout.Proofs.RegionLines
import SasLayout.Proofs.Relaid
import SasLayout.Proofs.Resolution
import SasLayout.Proofs.Seams
import SasLayout.Proofs.SearchLimits
import SasLayout.Proofs.SearchReach
import SasLayout.Proofs.Sentences
import SasLayout.Proofs.SharedColumns
import SasLayout.Proofs.SiblingSearch
import SasLayout.Proofs.SolvedLevels
import SasLayout.Proofs.SpanForms
import SasLayout.Proofs.SpanPass
import SasLayout.Proofs.StandardLevels
import SasLayout.Proofs.StatementRanges
import SasLayout.Proofs.StatementScan
import SasLayout.Proofs.StatementSplit
import SasLayout.Proofs.StatementStarts
import SasLayout.Proofs.Statements
import SasLayout.Proofs.Tiling
import SasLayout.Proofs.TokenLookup
import SasLayout.Proofs.Window
import SasLayout.Proofs.WordTokens
import SasLayout.Proofs.Words
