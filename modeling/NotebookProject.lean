import NotebookProject.Text.Blank
import NotebookProject.Text.Utf8
import NotebookProject.Text.Capital
import NotebookProject.Text.Alphanumeric
import NotebookProject.Number.Power
import NotebookProject.Number.Binary64
import NotebookProject.Tree.Basic
import NotebookProject.Tree.Json
import NotebookProject.Source.Quoted
import NotebookProject.Source.Name
import NotebookProject.Source.Literal
import NotebookProject.Markup.Escape
import NotebookProject.Document.Feature
import NotebookProject.Yaml.Token
import NotebookProject.Yaml.Token.Scalar
import NotebookProject.Yaml.Token.Property
import NotebookProject.Yaml.Token.Stream
import NotebookProject.Yaml.Event
import NotebookProject.Yaml.Node
import NotebookProject.Yaml.Resolve
import NotebookProject.Yaml.Decode
import NotebookProject.Document.Ingest
import NotebookProject.Calendar.Timestamp
import NotebookProject.Project.Basic
import NotebookProject.Schema.Project
import NotebookProject.Source.Notebook
import NotebookProject.Markup.Cell
import NotebookProject.Canonical
import NotebookProject.Yaml.Style
import NotebookProject.Yaml.Written
import NotebookProject.Project.Load
import NotebookProject.Project.Snapshot
import NotebookProject.Project.Edit
import NotebookProject.Source.Script
import NotebookProject.Markup.Project
import NotebookProject.Setting.Variables
import NotebookProject.Setting.Word
import NotebookProject.Setting.Limits
import NotebookProject.Setting.DotEnv
import NotebookProject.Schema.Dropped
import NotebookProject.Command.Files
import NotebookProject.Command.Line
import NotebookProject.Command.Log
import NotebookProject.Command.Run
import NotebookProject.Main
import NotebookProject.Proofs.Canonical
import NotebookProject.Proofs.RoundTrip
import NotebookProject.Proofs.Tree.Reading
import NotebookProject.Proofs.Schema.Conformance
import NotebookProject.Proofs.Edit
import NotebookProject.Proofs.Yaml.Strict
import NotebookProject.Proofs.Source.Skeleton
import NotebookProject.Proofs.Document.Reader.Token
import NotebookProject.Proofs.Output
import NotebookProject.Proofs.Source.Literal
import NotebookProject.Proofs.Load
import NotebookProject.Proofs.Document.Soundness
import NotebookProject.Proofs.Document.Encoding
import NotebookProject.Proofs.Command.Format
import NotebookProject.Proofs.Schema.Repeated
import NotebookProject.Proofs.Schema.Located
import NotebookProject.Proofs.Source.Reserved
import NotebookProject.Proofs.Source.Null
import NotebookProject.Proofs.Source.Call
import NotebookProject.Proofs.Source.Chart
import NotebookProject.Proofs.Source.DateRange
import NotebookProject.Proofs.Source.Expression
import NotebookProject.Proofs.Source.Prelude
import NotebookProject.Proofs.Source.Slider
import NotebookProject.Proofs.Markup.Strip
import NotebookProject.Proofs.Markup.Image
import NotebookProject.Proofs.Document.Content
import NotebookProject.Proofs.SortingKey
import NotebookProject.Proofs.Source.Identifier
import NotebookProject.Proofs.Source.Activation
import NotebookProject.Proofs.KeyOrder
import NotebookProject.Proofs.Document.Location
