import Flowscript.Assoc
import Flowscript.Command.Arguments
import Flowscript.Command.FileSystem
import Flowscript.Command.Program
import Flowscript.Command.Session
import Flowscript.Conversion.Convert
import Flowscript.Conversion.Outcome
import Flowscript.Conversion.Report
import Flowscript.Conversion.Tracing
import Flowscript.Converter.Basic
import Flowscript.Converter.Chain
import Flowscript.Converter.Change
import Flowscript.Converter.Memory
import Flowscript.Converter.Model
import Flowscript.Converter.Prompt
import Flowscript.Converter.Registry
import Flowscript.Converter.Tool
import Flowscript.Format.Code
import Flowscript.Format.Line
import Flowscript.Format.Segment
import Flowscript.Format.Style
import Flowscript.Fragment.Assembly
import Flowscript.Fragment.Basic
import Flowscript.Import.Block
import Flowscript.Import.Spec
import Flowscript.Import.Statement
import Flowscript.Json.Reader
import Flowscript.Json.Writer
import Flowscript.Log.Basic
import Flowscript.Naming.Identifier
import Flowscript.Naming.Words
import Flowscript.Number.Decimal
import Flowscript.Number.Double
import Flowscript.Number.Shortest
import Flowscript.Project.Basic
import Flowscript.Project.Configuration
import Flowscript.Project.File
import Flowscript.Project.Interface
import Flowscript.Project.Manifest
import Flowscript.Script.Literal
import Flowscript.Script.Shape
import Flowscript.Settings.Basic
import Flowscript.Settings.Context
import Flowscript.Settings.Dotenv
import Flowscript.Settings.Field
import Flowscript.Template.Basic
import Flowscript.Template.Library
import Flowscript.Text.Basic
import Flowscript.Text.Blank
import Flowscript.Text.Digit
import Flowscript.Text.LowerCase
import Flowscript.Text.Printable
import Flowscript.Text.Range
import Flowscript.Text.UpperCase
import Flowscript.Text.Word
import Flowscript.Value.Basic
import Flowscript.Value.Display
import Flowscript.Value.Scalar
import Flowscript.Workflow.Analysis
import Flowscript.Workflow.Cycle
import Flowscript.Workflow.Diagram
import Flowscript.Workflow.Document
import Flowscript.Workflow.Graph
import Flowscript.Workflow.Order
import Flowscript.Workflow.Parameter
import Flowscript.Workflow.Refusal
import Flowscript.Workflow.Source
import Flowscript.Yaml.Block
import Flowscript.Yaml.Lexer
import Flowscript.Yaml.Merge
import Flowscript.Yaml.Node
import Flowscript.Yaml.Place
import Flowscript.Yaml.Plain
import Flowscript.Yaml.Problem
import Flowscript.Yaml.Quoted
import Flowscript.Yaml.Reader
import Flowscript.Yaml.Scalar
import Flowscript.Yaml.Tag
import Flowscript.Yaml.Timestamp
import Flowscript.Yaml.Token
import Flowscript.Main
import Flowscript.Proofs.Precedence
import Flowscript.Proofs.CycleSearch
import Flowscript.Proofs.ReportedCycles
import Flowscript.Proofs.ClosingConnections
import Flowscript.Proofs.LeadingPaths
import Flowscript.Proofs.DepthFirst
import Flowscript.Proofs.ExecutionOrder
import Flowscript.Proofs.PostOrder
import Flowscript.Proofs.Depth
import Flowscript.Proofs.CriticalPath
import Flowscript.Proofs.Assembly
import Flowscript.Proofs.RegistryChanges
import Flowscript.Proofs.Validity
import Flowscript.Proofs.Draft
import Flowscript.Proofs.ProjectFiles
import Flowscript.Proofs.Conversion
import Flowscript.Proofs.Trimming
import Flowscript.Proofs.Reading
import Flowscript.Proofs.Retouching
import Flowscript.Proofs.CodeEnd
import Flowscript.Proofs.LineEdits
import Flowscript.Proofs.Indentation
import Flowscript.Proofs.OutputLines
import Flowscript.Proofs.ProgramText
import Flowscript.Proofs.TemplateText
import Flowscript.Proofs.LineStart
import Flowscript.Proofs.BracketStack
import Flowscript.Proofs.EditRules
import Flowscript.Proofs.SecondPass
import Flowscript.Proofs.Idempotence
import Flowscript.Proofs.Identifiers
import Flowscript.Proofs.VariableNames
import Flowscript.Proofs.UniqueNames
import Flowscript.Proofs.Wiring
import Flowscript.Proofs.DeclaredVariables
import Flowscript.Proofs.ChainInputs
import Flowscript.Proofs.Sorting
import Flowscript.Proofs.ImportSpecs
import Flowscript.Proofs.ImportOrder
import Flowscript.Proofs.ImportStatements
import Flowscript.Proofs.ImportBlock
import Flowscript.Proofs.StrategyIndependence
import Flowscript.Proofs.Words
import Flowscript.Proofs.Literals
import Flowscript.Proofs.SealedText
import Flowscript.Proofs.TemplateStatement
import Flowscript.Proofs.PlainImports
import Flowscript.Proofs.DeclarationText
import Flowscript.Proofs.MainModule
import Flowscript.Proofs.PromptText
import Flowscript.Proofs.Aliases
import Flowscript.Proofs.PlainValues
import Flowscript.Proofs.DocumentFlaws
import Flowscript.Proofs.GatheredParameters
import Flowscript.Proofs.LoadedConversion
import Flowscript.Proofs.Concealment
import Flowscript.Proofs.Secrets
import Flowscript.Proofs.PlainForm
import Flowscript.Proofs.TypesModule
import Flowscript.Proofs.HeaderComments
import Flowscript.Proofs.DeclaredInterfaces
import Flowscript.Proofs.PascalCase
import Flowscript.Proofs.TypesExports
import Flowscript.Proofs.JsonReading
import Flowscript.Proofs.SharedDocuments
import Flowscript.Proofs.CommentedNodes
import Flowscript.Proofs.EnvironmentVariables
import Flowscript.Proofs.Dependencies
import Flowscript.Proofs.Sessions
import Flowscript.Proofs.WrittenFiles
import Flowscript.Proofs.LiteralReading
import Flowscript.Proofs.NodeByNode
import Flowscript.Proofs.TemplateLiterals
import Flowscript.Proofs.ValueLiterals
import Flowscript.Proofs.SettledParameters
import Flowscript.Proofs.NormalForm
import Flowscript.Proofs.StatementEnds
import Flowscript.Proofs.NumberLiterals
import Flowscript.Proofs.LaidOutObjects
import Flowscript.Proofs.ScannedLiterals
import Flowscript.Proofs.NameBoundaries
import Flowscript.Proofs.EnvironmentKeys
import Flowscript.Proofs.CamelCase
import Flowscript.Proofs.EnvironmentTable
import Flowscript.Proofs.TypeReading
import Flowscript.Proofs.ValueTypes
import Flowscript.Proofs.Requoting
import Flowscript.Proofs.NameLetters
