import VarCensus.Command
import VarCensus.Command.Arguments
import VarCensus.Command.Help
import VarCensus.Command.Report
import VarCensus.Command.Run
import VarCensus.Command.Task
import VarCensus.Config
import VarCensus.Config.Toml
import VarCensus.Cue
import VarCensus.Dialect
import VarCensus.Dialect.Declaration
import VarCensus.Dialect.Declarator
import VarCensus.Dialect.TypeHead
import VarCensus.Error
import VarCensus.Extraction
import VarCensus.Files
import VarCensus.Finding
import VarCensus.Ignore.Glob
import VarCensus.Ignore.Rule
import VarCensus.Ignore.Walk
import VarCensus.Json
import VarCensus.Json.Config
import VarCensus.Json.Record
import VarCensus.Kind
import VarCensus.Language
import VarCensus.Lexicon
import VarCensus.Location
import VarCensus.Main
import VarCensus.Path
import VarCensus.Proofs.AbandonedDeclarators
import VarCensus.Proofs.AssignedValues
import VarCensus.Proofs.AttributeTargets
import VarCensus.Proofs.BlockReads
import VarCensus.Proofs.ClosedStatements
import VarCensus.Proofs.Collapse
import VarCensus.Proofs.CollectedTasks
import VarCensus.Proofs.CommentBodies
import VarCensus.Proofs.CommentedDeclarations
import VarCensus.Proofs.ConfigRoundTrip
import VarCensus.Proofs.ConfigWriting
import VarCensus.Proofs.DestructuredWrites
import VarCensus.Proofs.EncodedLiterals
import VarCensus.Proofs.EscapedQuotes
import VarCensus.Proofs.ExtensionOverrides
import VarCensus.Proofs.FaithfulValues
import VarCensus.Proofs.Findings
import VarCensus.Proofs.FirstFault
import VarCensus.Proofs.GroupMatching
import VarCensus.Proofs.Identifiers
import VarCensus.Proofs.InertComments
import VarCensus.Proofs.Initializers
import VarCensus.Proofs.JoinedTexts
import VarCensus.Proofs.KindTexts
import VarCensus.Proofs.LeftmostMatch
import VarCensus.Proofs.LexicalReads
import VarCensus.Proofs.LexicalScope
import VarCensus.Proofs.Lexing
import VarCensus.Proofs.LineRecovery
import VarCensus.Proofs.LineStarts
import VarCensus.Proofs.LocationOrder
import VarCensus.Proofs.Lookahead
import VarCensus.Proofs.Loop
import VarCensus.Proofs.NameResolver
import VarCensus.Proofs.OversizedDeclarations
import VarCensus.Proofs.PlacedText
import VarCensus.Proofs.PlainReading
import VarCensus.Proofs.PrintedAssignments
import VarCensus.Proofs.PrintedDeclarations
import VarCensus.Proofs.Progress
import VarCensus.Proofs.PythonFindings
import VarCensus.Proofs.ReadOrder
import VarCensus.Proofs.ReadingValues
import VarCensus.Proofs.RecordOrigins
import VarCensus.Proofs.ScannedRecords
import VarCensus.Proofs.Schedules
import VarCensus.Proofs.ScopeGraph
import VarCensus.Proofs.ScopeRuns
import VarCensus.Proofs.SearchReach
import VarCensus.Proofs.SimpleDeclarations
import VarCensus.Proofs.SourceParts
import VarCensus.Proofs.Standing
import VarCensus.Proofs.SuggestionGroups
import VarCensus.Proofs.SurveyInvariant
import VarCensus.Proofs.SurveyPass
import VarCensus.Proofs.TemplateValues
import VarCensus.Proofs.TomlStrings
import VarCensus.Proofs.TrimmedTexts
import VarCensus.Proofs.TypedFindings
import VarCensus.Proofs.UnclosedGroups
import VarCensus.Proofs.ValueBoundaries
import VarCensus.Proofs.ValueCues
import VarCensus.Proofs.WrittenFiles
import VarCensus.Proofs.WrittenValues
import VarCensus.Python
import VarCensus.Record
import VarCensus.Scope.Graph
import VarCensus.Scope.Resolver
import VarCensus.Source
import VarCensus.Source.CodeText
import VarCensus.Source.Group
import VarCensus.Source.Piece
import VarCensus.Source.Trivia
import VarCensus.Source.ValueScan
import VarCensus.Suggestion
import VarCensus.Table
import VarCensus.Table.View
import VarCensus.Text.Blank
import VarCensus.Text.CodeRange
import VarCensus.Text.Decoding
import VarCensus.Text.Digit
import VarCensus.Text.Quoted
import VarCensus.Text.Upper
import VarCensus.Text.Width
import VarCensus.Text.Word
import VarCensus.Theme
import VarCensus.Toml.Reader
import VarCensus.Toml.Scalar
import VarCensus.Toml.Value
import VarCensus.Toml.Writer
import VarCensus.Tree
import VarCensus.Tree.Pattern
import VarCensus.Tree.Reads
import VarCensus.Tree.Survey
import VarCensus.Tree.Value
import VarCensus.Workers
