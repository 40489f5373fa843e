import TagTemplate.CommandLine.Error
import TagTemplate.CommandLine.Flag
import TagTemplate.CommandLine.Invocation
import TagTemplate.CommandLine.Program
import TagTemplate.Config.Journal
import TagTemplate.Config.Load
import TagTemplate.Config.Schema
import TagTemplate.Config.Settings
import TagTemplate.Evaluation.Bindings
import TagTemplate.Evaluation.Builtin
import TagTemplate.Evaluation.Error
import TagTemplate.Evaluation.Eval
import TagTemplate.Evaluation.Journal
import TagTemplate.Evaluation.Session
import TagTemplate.Evaluation.World
import TagTemplate.Files.FileSystem
import TagTemplate.Files.Path
import TagTemplate.Host.Raise
import TagTemplate.Host.Scripted
import TagTemplate.Main
import TagTemplate.Number.Basic
import TagTemplate.Number.Dyadic
import TagTemplate.Number.FloatText
import TagTemplate.Number.Numeral
import TagTemplate.Number.Power
import TagTemplate.Number.Shortest
import TagTemplate.Proofs.CommandLine.Precedence
import TagTemplate.Proofs.CommandLine.Rendering
import TagTemplate.Proofs.CommandLine.Sources
import TagTemplate.Proofs.CommandLine.Spelling
import TagTemplate.Proofs.Config.Documents
import TagTemplate.Proofs.Config.Dumping
import TagTemplate.Proofs.Config.Keys
import TagTemplate.Proofs.Config.Loading
import TagTemplate.Proofs.Config.Matching
import TagTemplate.Proofs.Config.Misfits
import TagTemplate.Proofs.Config.Parts
import TagTemplate.Proofs.Config.Reloading
import TagTemplate.Proofs.Evaluation.Accumulation
import TagTemplate.Proofs.Evaluation.Acting
import TagTemplate.Proofs.Evaluation.Bindings
import TagTemplate.Proofs.Evaluation.Builtins
import TagTemplate.Proofs.Evaluation.Calling
import TagTemplate.Proofs.Evaluation.Clock
import TagTemplate.Proofs.Evaluation.Congruence
import TagTemplate.Proofs.Evaluation.Constants
import TagTemplate.Proofs.Evaluation.Course
import TagTemplate.Proofs.Evaluation.Deadline
import TagTemplate.Proofs.Evaluation.Declarations
import TagTemplate.Proofs.Evaluation.Failing
import TagTemplate.Proofs.Evaluation.Layout
import TagTemplate.Proofs.Evaluation.Literals
import TagTemplate.Proofs.Evaluation.Order
import TagTemplate.Proofs.Evaluation.Progress
import TagTemplate.Proofs.Evaluation.Raising
import TagTemplate.Proofs.Evaluation.Reaching
import TagTemplate.Proofs.Evaluation.Resolution
import TagTemplate.Proofs.Evaluation.Sessions
import TagTemplate.Proofs.Evaluation.Silent
import TagTemplate.Proofs.Evaluation.Simplification
import TagTemplate.Proofs.Evaluation.Visits
import TagTemplate.Proofs.Host.Scripted
import TagTemplate.Proofs.Number.Draws
import TagTemplate.Proofs.Number.Packing
import TagTemplate.Proofs.Number.Product
import TagTemplate.Proofs.Number.Rounding
import TagTemplate.Proofs.Random.Generator
import TagTemplate.Proofs.Scan.Outcome
import TagTemplate.Proofs.Scan.Passes
import TagTemplate.Proofs.Scan.Reached
import TagTemplate.Proofs.Shell.Lines
import TagTemplate.Proofs.Source.Caret
import TagTemplate.Proofs.Source.Columns
import TagTemplate.Proofs.Source.Lines
import TagTemplate.Proofs.Template.Begun
import TagTemplate.Proofs.Template.Behind
import TagTemplate.Proofs.Template.Concatenation
import TagTemplate.Proofs.Template.Derived
import TagTemplate.Proofs.Template.Documents
import TagTemplate.Proofs.Template.Earliest
import TagTemplate.Proofs.Template.Following
import TagTemplate.Proofs.Template.Frames
import TagTemplate.Proofs.Template.Grammar
import TagTemplate.Proofs.Template.Handlers
import TagTemplate.Proofs.Template.Joining
import TagTemplate.Proofs.Template.Layout
import TagTemplate.Proofs.Template.Moves
import TagTemplate.Proofs.Template.Nesting
import TagTemplate.Proofs.Template.Places
import TagTemplate.Proofs.Template.Printer
import TagTemplate.Proofs.Template.Productions
import TagTemplate.Proofs.Template.Quoting
import TagTemplate.Proofs.Template.Refusals
import TagTemplate.Proofs.Template.Run
import TagTemplate.Proofs.Template.Shape
import TagTemplate.Proofs.Template.Simplification
import TagTemplate.Proofs.Template.Slices
import TagTemplate.Proofs.Template.Spans
import TagTemplate.Proofs.Template.TagState
import TagTemplate.Proofs.Template.TextRuns
import TagTemplate.Proofs.Template.Tree
import TagTemplate.Proofs.Text.Utf8
import TagTemplate.Random.Generator
import TagTemplate.Random.MersenneTwister
import TagTemplate.Scan.Chain
import TagTemplate.Scan.Outcome
import TagTemplate.Scan.Rule
import TagTemplate.Shell
import TagTemplate.Source.Caret
import TagTemplate.Source.Place
import TagTemplate.Template.Alphabet
import TagTemplate.Template.Compile
import TagTemplate.Template.Error
import TagTemplate.Template.Handlers
import TagTemplate.Template.Journal
import TagTemplate.Template.Node
import TagTemplate.Template.Reader
import TagTemplate.Text.Blank
import TagTemplate.Text.Digit
import TagTemplate.Text.Lower
import TagTemplate.Text.Octets
import TagTemplate.Text.Quoted
import TagTemplate.Text.Shown
import TagTemplate.Text.Utf8
import TagTemplate.Value.Basic
import TagTemplate.Value.Moment
import TagTemplate.Value.Order
import TagTemplate.Version
import TagTemplate.Yaml.Building
import TagTemplate.Yaml.Cursor
import TagTemplate.Yaml.Error
import TagTemplate.Yaml.Lexer
import TagTemplate.Yaml.Load
import TagTemplate.Yaml.Merge
import TagTemplate.Yaml.Node
import TagTemplate.Yaml.Plain
import TagTemplate.Yaml.Scalar
import TagTemplate.Yaml.Tag
import TagTemplate.Yaml.TextValue
import TagTemplate.Yaml.Token
