import SourceLoom.Conventions
import SourceLoom.Datum
import SourceLoom.Decimal.Binary64
import SourceLoom.Decimal.Shortest
import SourceLoom.Document
import SourceLoom.Files.Edit
import SourceLoom.Files.Fault
import SourceLoom.Files.Lookup
import SourceLoom.Files.System
import SourceLoom.Files.Tree
import SourceLoom.Glob
import SourceLoom.Graph
import SourceLoom.Graph.Report
import SourceLoom.Json.Basic
import SourceLoom.Json.Reader
import SourceLoom.Json.Writer
import SourceLoom.Main
import SourceLoom.Minify
import SourceLoom.Minify.Comments
import SourceLoom.Minify.Space
import SourceLoom.Options
import SourceLoom.Options.Fault
import SourceLoom.Options.Help
import SourceLoom.Options.Switch
import SourceLoom.Options.Word
import SourceLoom.Outline
import SourceLoom.Path
import SourceLoom.Pattern.Basic
import SourceLoom.Pattern.CharSet
import SourceLoom.Pattern.Fault
import SourceLoom.Pattern.Match
import SourceLoom.Pattern.Reader
import SourceLoom.Pattern.Reading
import SourceLoom.Pattern.Source
import SourceLoom.Pattern.Width
import SourceLoom.Proofs.Distinct
import SourceLoom.Proofs.Document.Layout
import SourceLoom.Proofs.Document.Savings
import SourceLoom.Proofs.Document.Sections
import SourceLoom.Proofs.Document.Unweaving
import SourceLoom.Proofs.Files.Entries
import SourceLoom.Proofs.Files.Following
import SourceLoom.Proofs.Files.Frame
import SourceLoom.Proofs.Files.Places
import SourceLoom.Proofs.Files.Spelling
import SourceLoom.Proofs.Files.Writing
import SourceLoom.Proofs.Graph.Building
import SourceLoom.Proofs.Graph.Nodes
import SourceLoom.Proofs.Graph.Recording
import SourceLoom.Proofs.Graph.Telling
import SourceLoom.Proofs.Json.Ascii
import SourceLoom.Proofs.Json.Grammar
import SourceLoom.Proofs.Json.Growth
import SourceLoom.Proofs.Json.Limit
import SourceLoom.Proofs.Json.Outside
import SourceLoom.Proofs.Json.Reading
import SourceLoom.Proofs.Json.Spelling
import SourceLoom.Proofs.Json.Strings
import SourceLoom.Proofs.Json.Tokens
import SourceLoom.Proofs.Json.Writing
import SourceLoom.Proofs.Minify.Collapsing
import SourceLoom.Proofs.Minify.Comments
import SourceLoom.Proofs.Minify.Data
import SourceLoom.Proofs.Minify.Levels
import SourceLoom.Proofs.Minify.Literals
import SourceLoom.Proofs.Minify.Outcome
import SourceLoom.Proofs.Minify.Removal
import SourceLoom.Proofs.Minify.Script
import SourceLoom.Proofs.Minify.Size
import SourceLoom.Proofs.Minify.Space
import SourceLoom.Proofs.Options.Uses
import SourceLoom.Proofs.Outline.Branches
import SourceLoom.Proofs.Outline.Files
import SourceLoom.Proofs.Outline.Reading
import SourceLoom.Proofs.Path.Displayed
import SourceLoom.Proofs.Path.Normal
import SourceLoom.Proofs.Path.Pieces
import SourceLoom.Proofs.Path.Slashes
import SourceLoom.Proofs.Path.Ways
import SourceLoom.Proofs.Pattern.Language
import SourceLoom.Proofs.Pattern.Pieces
import SourceLoom.Proofs.Pattern.Search
import SourceLoom.Proofs.Reference.Aliases
import SourceLoom.Proofs.Reference.Breaks
import SourceLoom.Proofs.Reference.Candidates
import SourceLoom.Proofs.Reference.Code
import SourceLoom.Proofs.Reference.Enclosed
import SourceLoom.Proofs.Reference.Forms
import SourceLoom.Proofs.Reference.Identifiers
import SourceLoom.Proofs.Reference.Layout
import SourceLoom.Proofs.Reference.Literals
import SourceLoom.Proofs.Reference.Modules
import SourceLoom.Proofs.Reference.Naming
import SourceLoom.Proofs.Reference.Openings
import SourceLoom.Proofs.Reference.Overlap
import SourceLoom.Proofs.Reference.Roots
import SourceLoom.Proofs.Reference.Sole
import SourceLoom.Proofs.Reference.Statements
import SourceLoom.Proofs.Run.Alike
import SourceLoom.Proofs.Run.Asking
import SourceLoom.Proofs.Run.Exit
import SourceLoom.Proofs.Run.Looking
import SourceLoom.Proofs.Run.Repeating
import SourceLoom.Proofs.Scan.CommonBase
import SourceLoom.Proofs.Scan.Descent
import SourceLoom.Proofs.Scan.Exactness
import SourceLoom.Proofs.Scan.Frozen
import SourceLoom.Proofs.Scan.Gathering
import SourceLoom.Proofs.Scan.Rescan
import SourceLoom.Proofs.Settings.Tables
import SourceLoom.Proofs.Settings.Validity
import SourceLoom.Proofs.Survey.Exactness
import SourceLoom.Proofs.Survey.Visible
import SourceLoom.Proofs.Text.InOrder
import SourceLoom.Proofs.Text.Lines
import SourceLoom.Proofs.Text.Order
import SourceLoom.Proofs.Text.Solid
import SourceLoom.Proofs.Text.Words
import SourceLoom.Proofs.Traversal.Aliases
import SourceLoom.Proofs.Traversal.Books
import SourceLoom.Proofs.Traversal.BreadthFirst
import SourceLoom.Proofs.Traversal.Calls
import SourceLoom.Proofs.Traversal.Deepening
import SourceLoom.Proofs.Traversal.Dependence
import SourceLoom.Proofs.Traversal.Depths
import SourceLoom.Proofs.Traversal.Disk
import SourceLoom.Proofs.Traversal.Distance
import SourceLoom.Proofs.Traversal.Identity
import SourceLoom.Proofs.Traversal.Ledger
import SourceLoom.Proofs.Traversal.Lookups
import SourceLoom.Proofs.Traversal.Merging
import SourceLoom.Proofs.Traversal.Questions
import SourceLoom.Proofs.Traversal.Refusals
import SourceLoom.Proofs.Traversal.Runs
import SourceLoom.Proofs.Traversal.Sessions
import SourceLoom.Proofs.Traversal.Steps
import SourceLoom.Proofs.Traversal.Termination
import SourceLoom.Proofs.Traversal.Transcript
import SourceLoom.Proofs.Traversal.TreeDisk
import SourceLoom.Proofs.Traversal.World
import SourceLoom.Reference.Extraction
import SourceLoom.Reference.Locality
import SourceLoom.Reference.Resolution
import SourceLoom.Run
import SourceLoom.Run.Delivery
import SourceLoom.Run.Host
import SourceLoom.Run.Notice
import SourceLoom.Run.Rehearsal
import SourceLoom.Run.Selection
import SourceLoom.Scan
import SourceLoom.Settings
import SourceLoom.Settings.File
import SourceLoom.Survey
import SourceLoom.Text
import SourceLoom.Text.Blank
import SourceLoom.Text.CodePointSet
import SourceLoom.Text.Identifier
import SourceLoom.Text.LetterCase
import SourceLoom.Text.Numeral
import SourceLoom.Text.Quoted
import SourceLoom.Text.Utf8
import SourceLoom.Text.Visible
import SourceLoom.Text.Word
import SourceLoom.Toml
import SourceLoom.Toml.Scalar
import SourceLoom.Traversal
import SourceLoom.Yaml
import SourceLoom.Yaml.Layout
import SourceLoom.Yaml.Node
import SourceLoom.Yaml.Scalar
import SourceLoom.Yaml.Source
import SourceLoom.Yaml.Tag
import SourceLoom.Yaml.Token
import SourceLoom.Yaml.Value
