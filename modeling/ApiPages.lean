import ApiPages.Archive.Digest
import ApiPages.Archive.Frame
import ApiPages.Archive.Packing
import ApiPages.Archive.Store
import ApiPages.Command.Arguments
import ApiPages.Command.Execute
import ApiPages.Definition.Assignment
import ApiPages.Definition.Feature
import ApiPages.Definition.Form
import ApiPages.Definition.Link
import ApiPages.Definition.Pool
import ApiPages.Definition.Reader
import ApiPages.Definition.Rules
import ApiPages.Definition.Standard
import ApiPages.Definition.Symbol
import ApiPages.Definition.Token
import ApiPages.Definition.Tree
import ApiPages.Files.Glob
import ApiPages.Files.Tree
import ApiPages.FrontMatter
import ApiPages.Graph.Entry
import ApiPages.Graph.Index
import ApiPages.Graph.Link
import ApiPages.Graph.Tree
import ApiPages.Json.Basic
import ApiPages.Json.Reader
import ApiPages.Json.Record
import ApiPages.Main
import ApiPages.Markdown.Address
import ApiPages.Markdown.Block
import ApiPages.Markdown.Emphasis
import ApiPages.Markdown.Heading
import ApiPages.Markdown.Inline
import ApiPages.Markdown.Line
import ApiPages.Markdown.Links
import ApiPages.Markdown.Outline
import ApiPages.Markdown.Scan
import ApiPages.Markdown.Shell
import ApiPages.Markdown.Survey
import ApiPages.Page.Basic
import ApiPages.Page.Module
import ApiPages.Page.Schema
import ApiPages.Proofs.Archive.Digests
import ApiPages.Proofs.Archive.Frames
import ApiPages.Proofs.Archive.Layout
import ApiPages.Proofs.Archive.Reliability
import ApiPages.Proofs.Archive.Runs
import ApiPages.Proofs.Command.Exits
import ApiPages.Proofs.Files.Confinement
import ApiPages.Proofs.Files.Copies
import ApiPages.Proofs.Files.Frames
import ApiPages.Proofs.Files.Listing
import ApiPages.Proofs.Files.Paths
import ApiPages.Proofs.Files.Patterns
import ApiPages.Proofs.Files.Trees
import ApiPages.Proofs.Graph.Dangling
import ApiPages.Proofs.Graph.Layers
import ApiPages.Proofs.Graph.Loss
import ApiPages.Proofs.Graph.Ownership
import ApiPages.Proofs.Graph.Reachability
import ApiPages.Proofs.Graph.Walk
import ApiPages.Proofs.Json.Completeness
import ApiPages.Proofs.Json.Fields
import ApiPages.Proofs.Json.Grammar
import ApiPages.Proofs.Json.Parts
import ApiPages.Proofs.Markdown.Fences
import ApiPages.Proofs.Markdown.Framing
import ApiPages.Proofs.Markdown.Headings
import ApiPages.Proofs.Markdown.Lines
import ApiPages.Proofs.Markdown.Redirections
import ApiPages.Proofs.Markdown.Roles
import ApiPages.Proofs.Markdown.Shortcuts
import ApiPages.Proofs.Page.Completion
import ApiPages.Proofs.Page.Files
import ApiPages.Proofs.Page.Headers
import ApiPages.Proofs.Page.Links
import ApiPages.Proofs.Page.Names
import ApiPages.Proofs.Page.RoundTrip
import ApiPages.Proofs.Page.Tables
import ApiPages.Proofs.Run.Accounts
import ApiPages.Proofs.Run.Actions
import ApiPages.Proofs.Run.Addresses
import ApiPages.Proofs.Run.Confinement
import ApiPages.Proofs.Run.Discovery
import ApiPages.Proofs.Run.Endings
import ApiPages.Proofs.Run.Fallback
import ApiPages.Proofs.Run.Gathering
import ApiPages.Proofs.Run.Keeping
import ApiPages.Proofs.Run.Pages
import ApiPages.Proofs.Run.Replacement
import ApiPages.Proofs.Run.Turns
import ApiPages.Proofs.Schema.Agreement
import ApiPages.Proofs.Schema.Association
import ApiPages.Proofs.Schema.Boundaries
import ApiPages.Proofs.Schema.Closing
import ApiPages.Proofs.Schema.Concatenation
import ApiPages.Proofs.Schema.Indices
import ApiPages.Proofs.Schema.InlineComments
import ApiPages.Proofs.Schema.Layouts
import ApiPages.Proofs.Schema.Members
import ApiPages.Proofs.Schema.Nesting
import ApiPages.Proofs.Schema.Printer
import ApiPages.Proofs.Schema.Recognized
import ApiPages.Proofs.Schema.RoundTrip
import ApiPages.Proofs.Schema.Scanning
import ApiPages.Proofs.Schema.Splitting
import ApiPages.Proofs.Schema.Steps
import ApiPages.Proofs.Schema.Streams
import ApiPages.Proofs.Schema.Tails
import ApiPages.Proofs.Schema.Undocumented
import ApiPages.Proofs.Settings.Decoders
import ApiPages.Proofs.Settings.Modes
import ApiPages.Proofs.Settings.TargetLists
import ApiPages.Proofs.Text.Blank
import ApiPages.Proofs.Text.Bytes
import ApiPages.Proofs.Text.Endings
import ApiPages.Proofs.Text.Runs
import ApiPages.Proofs.Text.Substitution
import ApiPages.Proofs.Text.Utf8
import ApiPages.Proofs.Tool.Documents
import ApiPages.Proofs.Tool.Emission
import ApiPages.Proofs.Tool.Mirror
import ApiPages.Proofs.TypeExpr.Decoded
import ApiPages.Proofs.TypeExpr.Drift
import ApiPages.Proofs.TypeExpr.Encoding
import ApiPages.Proofs.TypeExpr.Nodes
import ApiPages.Proofs.TypeExpr.Placeholders
import ApiPages.Proofs.TypeExpr.Reading
import ApiPages.Proofs.TypeExpr.Records
import ApiPages.Proofs.TypeExpr.Sources
import ApiPages.Run.Cargo
import ApiPages.Run.Failure
import ApiPages.Run.Formats
import ApiPages.Run.Html
import ApiPages.Run.Proto
import ApiPages.Run.Report
import ApiPages.Run.Rustdoc
import ApiPages.Run.Standard
import ApiPages.Run.Workspace
import ApiPages.Schema.Basic
import ApiPages.Schema.Compare
import ApiPages.Schema.Reader
import ApiPages.Schema.Recognize
import ApiPages.Schema.Statement
import ApiPages.Schema.Stream
import ApiPages.Settings.Basic
import ApiPages.Settings.Crate
import ApiPages.Settings.Decode
import ApiPages.Settings.File
import ApiPages.Settings.Layer
import ApiPages.Settings.Load
import ApiPages.Settings.Target
import ApiPages.Settings.Value
import ApiPages.Settings.Weak
import ApiPages.Text.Base64
import ApiPages.Text.Blank
import ApiPages.Text.Bytes
import ApiPages.Text.Case
import ApiPages.Text.Decimal
import ApiPages.Text.Double
import ApiPages.Text.Numeral
import ApiPages.Text.Printable
import ApiPages.Text.Quoted
import ApiPages.Text.Search
import ApiPages.Text.SlashPath
import ApiPages.Text.Url
import ApiPages.Text.Utf8
import ApiPages.Toml.Reader
import ApiPages.Toml.Scalar
import ApiPages.Toml.Table
import ApiPages.Tool.Cargo
import ApiPages.Tool.Probe
import ApiPages.Tool.Program
import ApiPages.Tool.Protoc
import ApiPages.Tool.Registry
import ApiPages.TypeExpr.Basic
import ApiPages.TypeExpr.Decode
import ApiPages.TypeExpr.Format
import ApiPages.Yaml.Decode
import ApiPages.Yaml.Header
import ApiPages.Yaml.Node
import ApiPages.Yaml.Reader
import ApiPages.Yaml.Scalar
import ApiPages.Yaml.Scanner
import ApiPages.Yaml.Source
import ApiPages.Yaml.Token
import ApiPages.Yaml.Writer
