import BuildPipeline.Number.Total
import BuildPipeline.Number.Decimal
import BuildPipeline.Text.Blank
import BuildPipeline.Text.Letters
import BuildPipeline.Text.Casing
import BuildPipeline.Text.Quoted
import BuildPipeline.Text.Search
import BuildPipeline.Table
import BuildPipeline.Json
import BuildPipeline.Status
import BuildPipeline.Expression.Token
import BuildPipeline.Expression.Parser
import BuildPipeline.Expression.Substitution
import BuildPipeline.Yaml.Fault
import BuildPipeline.Yaml.Cursor
import BuildPipeline.Yaml.Lexeme
import BuildPipeline.Yaml.Token
import BuildPipeline.Yaml.Outline
import BuildPipeline.Yaml.Node
import BuildPipeline.Yaml.Value
import BuildPipeline.Yaml.Scalar
import BuildPipeline.Yaml.Reader
import BuildPipeline.Expression.Document
import BuildPipeline.Pipeline.Basic
import BuildPipeline.Pipeline.Writing
import BuildPipeline.Pipeline.Reading
import BuildPipeline.Pipeline.DocumentError
import BuildPipeline.Pipeline.Validation
import BuildPipeline.Files.Path
import BuildPipeline.Files.Tree
import BuildPipeline.Yaml.Identity
import BuildPipeline.Template.Error
import BuildPipeline.Template.Binding
import BuildPipeline.Template.Directive
import BuildPipeline.Template.Evaluation
import BuildPipeline.Template.Expansion
import BuildPipeline.Template.Engine
import BuildPipeline.Graph.Precedence
import BuildPipeline.Graph.Basic
import BuildPipeline.Graph.Order
import BuildPipeline.Plan
import BuildPipeline.Files.Change
import BuildPipeline.Artifact.Ledger
import BuildPipeline.Artifact.Store
import BuildPipeline.Run.Environment
import BuildPipeline.Run.Outcome
import BuildPipeline.Run.Result
import BuildPipeline.Run.Event
import BuildPipeline.Run.Schedule
import BuildPipeline.Run.Step
import BuildPipeline.Run.Job
import BuildPipeline.Run.Stage
import BuildPipeline.Run.State
import BuildPipeline.Run.Clock
import BuildPipeline.Run.Script
import BuildPipeline.Run.Execution
import BuildPipeline.Run.Report
import BuildPipeline.Shell.Token
import BuildPipeline.Shell.Command
import BuildPipeline.Shell.Session
import BuildPipeline.Shell.Builtin
import BuildPipeline.Shell.Interpreter
import BuildPipeline.Shell.Processes
import BuildPipeline.Yaml.Style
import BuildPipeline.Yaml.Writing
import BuildPipeline.Yaml.Codec
import BuildPipeline.Yaml.Json
import BuildPipeline.CommandLine.Arguments
import BuildPipeline.CommandLine.Terminal
import BuildPipeline.CommandLine.Program
import BuildPipeline.Main
import BuildPipeline.Proofs.Outcomes
import BuildPipeline.Proofs.Graph.Acyclicity
import BuildPipeline.Proofs.Graph.Names
import BuildPipeline.Proofs.Schedule.Results
import BuildPipeline.Proofs.Schedule.Coherence
import BuildPipeline.Proofs.Schedule.Gathering
import BuildPipeline.Proofs.Status
import BuildPipeline.Proofs.Run.Moves
import BuildPipeline.Proofs.Run.ResultTree
import BuildPipeline.Proofs.Run.CanceledRuns
import BuildPipeline.Proofs.Run.TruthfulStatus
import BuildPipeline.Proofs.Schedule.Trace
import BuildPipeline.Proofs.Run.ScheduleOrder
import BuildPipeline.Proofs.Run.JobCourse
import BuildPipeline.Proofs.Run.StageCourse
import BuildPipeline.Proofs.Run.Listings
import BuildPipeline.Proofs.Run.Interleaving
import BuildPipeline.Proofs.Artifact.Publications
import BuildPipeline.Proofs.Artifact.Downloads
import BuildPipeline.Proofs.Template.ExpansionStack
import BuildPipeline.Proofs.Template.Inclusion
import BuildPipeline.Proofs.Graph.Cycles
import BuildPipeline.Proofs.Graph.Order
import BuildPipeline.Proofs.Graph.Ancestors
import BuildPipeline.Proofs.Expression.Spans
import BuildPipeline.Proofs.Expression.Documents
import BuildPipeline.Proofs.Expression.PropertyReference
import BuildPipeline.Proofs.Template.Interpolation
import BuildPipeline.Proofs.Template.StructuredParameters
import BuildPipeline.Proofs.Pipeline.NormalForm
import BuildPipeline.Proofs.Expression.Grammar
import BuildPipeline.Proofs.Expression.Lexemes
import BuildPipeline.Proofs.Expression.Embedding
import BuildPipeline.Proofs.Template.Transparency
import BuildPipeline.Proofs.Template.Resolution
import BuildPipeline.Proofs.Yaml.Records
import BuildPipeline.Proofs.Pipeline.Concreteness
import BuildPipeline.Proofs.Run.DefaultCondition
import BuildPipeline.Proofs.Schedule.Records
import BuildPipeline.Proofs.Run.JobRecord
import BuildPipeline.Proofs.Run.RunRecord
import BuildPipeline.Proofs.Run.ProgressStream
import BuildPipeline.Proofs.Run.StepEndings
import BuildPipeline.Proofs.Run.FailurePropagation
import BuildPipeline.Proofs.Run.Agents
import BuildPipeline.Proofs.Run.DeadlockFreedom
import BuildPipeline.Proofs.Run.CutOff
import BuildPipeline.Proofs.Run.Cancellation
import BuildPipeline.Proofs.Yaml.Readback
import BuildPipeline.Proofs.Pipeline.Readback
import BuildPipeline.Proofs.Pipeline.Readable
import BuildPipeline.Proofs.Files.Trees
import BuildPipeline.Proofs.Files.PathTexts
import BuildPipeline.Proofs.Files.Ways
import BuildPipeline.Proofs.Files.Copies
import BuildPipeline.Proofs.Files.PathCopies
import BuildPipeline.Proofs.Artifact.DirectoryStore
import BuildPipeline.Proofs.Artifact.RoundTrip
import BuildPipeline.Proofs.Template.Reuse
import BuildPipeline.Proofs.Run.ReadonlyVariables
import BuildPipeline.Proofs.Run.JobInvariants
import BuildPipeline.Proofs.Run.MaskedFailures
import BuildPipeline.Proofs.Run.JobLog
import BuildPipeline.Proofs.Run.StepCourse
import BuildPipeline.Proofs.Run.StepPlaces
import BuildPipeline.Proofs.Run.StepExecution
import BuildPipeline.Proofs.Template.Collections
import BuildPipeline.Proofs.Template.Conditionals
import BuildPipeline.Proofs.Expression.Verbatim
import BuildPipeline.Proofs.Expression.Placeholders
import BuildPipeline.Proofs.Template.BoundParameters
import BuildPipeline.Proofs.Template.SinglePass
import BuildPipeline.Proofs.Yaml.DistinctKeys
import BuildPipeline.Proofs.Template.ConcreteDocuments
import BuildPipeline.Proofs.Template.EntrySetting
import BuildPipeline.Proofs.Template.LiteralVariables
import BuildPipeline.Proofs.Pipeline.VariableSections
import BuildPipeline.Proofs.Run.Declarations
import BuildPipeline.Proofs.Pipeline.VariableAgreement
import BuildPipeline.Proofs.Run.OutputVariables
import BuildPipeline.Proofs.Artifact.ArtifactNames
import BuildPipeline.Proofs.Files.FailedCopies
import BuildPipeline.Proofs.Artifact.FailedPublications
import BuildPipeline.Proofs.Run.StepMoves
import BuildPipeline.Proofs.Run.PublicationGate
import BuildPipeline.Proofs.Run.Attempts
import BuildPipeline.Proofs.Run.Retries
import BuildPipeline.Proofs.Text.Casing
import BuildPipeline.Proofs.Number.Closeness
import BuildPipeline.Proofs.Number.Reading
import BuildPipeline.Proofs.Expression.EvaluationTrace
import BuildPipeline.Proofs.Expression.OperatorForms
import BuildPipeline.Proofs.Expression.LooseEquality
import BuildPipeline.Proofs.Expression.TextOrder
import BuildPipeline.Proofs.Number.RationalValue
import BuildPipeline.Proofs.Expression.RoundTrip
import BuildPipeline.Proofs.Expression.ReferencePaths
import BuildPipeline.Proofs.Template.Visits
import BuildPipeline.Proofs.Template.LoopVariables
import BuildPipeline.Proofs.Text.Lines
import BuildPipeline.Proofs.Run.LoggingCommands
import BuildPipeline.Proofs.Run.StatusTree
import BuildPipeline.Proofs.Expression.PrintedTokens
import BuildPipeline.Proofs.Expression.ViablePrefixes
import BuildPipeline.Proofs.Expression.Segmentation
import BuildPipeline.Proofs.Run.FlattenedVariables
import BuildPipeline.Proofs.Pipeline.SourceContext
import BuildPipeline.Proofs.Yaml.PlainScalars
import BuildPipeline.Proofs.Number.Shortest
import BuildPipeline.Proofs.Yaml.ScalarTexts
import BuildPipeline.Proofs.Template.TextOverrides
