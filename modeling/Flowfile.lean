import Flowfile.Completion
import Flowfile.Context.Basic
import Flowfile.Context.Edit
import Flowfile.Diagnostic
import Flowfile.Document
import Flowfile.Expr.Basic
import Flowfile.Expr.Calls
import Flowfile.Expr.Eval
import Flowfile.Expr.Function
import Flowfile.Expr.Parser
import Flowfile.Expr.Template
import Flowfile.Expr.Token
import Flowfile.Hover
import Flowfile.Http.Basic
import Flowfile.Http.Body
import Flowfile.Http.Encoding
import Flowfile.Http.Limit
import Flowfile.Http.Service
import Flowfile.Json.Reader
import Flowfile.Json.Writer
import Flowfile.Location
import Flowfile.Number.Basic
import Flowfile.Number.Decimal
import Flowfile.Number.Double
import Flowfile.Path
import Flowfile.Proofs.Completion.Accepted
import Flowfile.Proofs.Completion.Distinct
import Flowfile.Proofs.Completion.Exact
import Flowfile.Proofs.Completion.Narrowing
import Flowfile.Proofs.Context.Answer
import Flowfile.Proofs.Context.Composition
import Flowfile.Proofs.Context.Isolation
import Flowfile.Proofs.Context.Nesting
import Flowfile.Proofs.Expr.Access
import Flowfile.Proofs.Expr.Arity
import Flowfile.Proofs.Expr.Asked
import Flowfile.Proofs.Expr.Bounds
import Flowfile.Proofs.Expr.Chain
import Flowfile.Proofs.Expr.Completeness
import Flowfile.Proofs.Expr.Containment
import Flowfile.Proofs.Expr.Demand
import Flowfile.Proofs.Expr.Extent
import Flowfile.Proofs.Expr.Following
import Flowfile.Proofs.Expr.Format
import Flowfile.Proofs.Expr.Formation
import Flowfile.Proofs.Expr.Grammar
import Flowfile.Proofs.Expr.Layout
import Flowfile.Proofs.Expr.Lexing
import Flowfile.Proofs.Expr.Literal
import Flowfile.Proofs.Expr.Needed
import Flowfile.Proofs.Expr.Nesting
import Flowfile.Proofs.Expr.Numeral
import Flowfile.Proofs.Expr.Partition
import Flowfile.Proofs.Expr.Printing
import Flowfile.Proofs.Expr.Quoting
import Flowfile.Proofs.Expr.Rendering
import Flowfile.Proofs.Expr.RoundTrip
import Flowfile.Proofs.Expr.Scanning
import Flowfile.Proofs.Expr.Simulation
import Flowfile.Proofs.Expr.Soundness
import Flowfile.Proofs.Expr.Unambiguity
import Flowfile.Proofs.Hover.Failure
import Flowfile.Proofs.Hover.Quoted
import Flowfile.Proofs.Http.Limit
import Flowfile.Proofs.Json.Numeral
import Flowfile.Proofs.Json.Quoted
import Flowfile.Proofs.Json.RoundTrip
import Flowfile.Proofs.Number.Exact
import Flowfile.Proofs.Number.Layout
import Flowfile.Proofs.Number.Range
import Flowfile.Proofs.Number.Reading
import Flowfile.Proofs.Number.Rounding
import Flowfile.Proofs.Number.Shortest
import Flowfile.Proofs.Number.Whole
import Flowfile.Proofs.Outcome
import Flowfile.Proofs.Path.Dotted
import Flowfile.Proofs.Recovery.Alias
import Flowfile.Proofs.Recovery.Repair
import Flowfile.Proofs.Recovery.Report
import Flowfile.Proofs.Recovery.Run
import Flowfile.Proofs.Schema.Acceptance
import Flowfile.Proofs.Schema.Coverage
import Flowfile.Proofs.Schema.Embedded
import Flowfile.Proofs.Schema.Ending
import Flowfile.Proofs.Schema.Index
import Flowfile.Proofs.Schema.Order
import Flowfile.Proofs.Schema.Report
import Flowfile.Proofs.Schema.Steady
import Flowfile.Proofs.Schema.Throughout
import Flowfile.Proofs.Schema.Visit
import Flowfile.Proofs.Text.Canonical
import Flowfile.Proofs.Text.Decimal
import Flowfile.Proofs.Text.Digits
import Flowfile.Proofs.Text.Integer
import Flowfile.Proofs.Text.Line
import Flowfile.Proofs.Text.Search
import Flowfile.Proofs.Text.Units
import Flowfile.Proofs.Tree.Alias
import Flowfile.Proofs.Tree.Coherence
import Flowfile.Proofs.Tree.Contents
import Flowfile.Proofs.Tree.Convert
import Flowfile.Proofs.Tree.Expansion
import Flowfile.Proofs.Tree.Faithful
import Flowfile.Proofs.Tree.Indentation
import Flowfile.Proofs.Tree.Landing
import Flowfile.Proofs.Tree.Limit
import Flowfile.Proofs.Tree.Locate
import Flowfile.Proofs.Tree.Merging
import Flowfile.Proofs.Tree.Place
import Flowfile.Proofs.Tree.Span
import Flowfile.Proofs.Tree.Unique
import Flowfile.Proofs.Value.Order
import Flowfile.Proofs.Workflow.Schema
import Flowfile.Proofs.Yaml.Closed
import Flowfile.Recovery
import Flowfile.Schema.Basic
import Flowfile.Schema.Resolution
import Flowfile.Settings
import Flowfile.Text.Basic
import Flowfile.Text.Blank
import Flowfile.Text.Casefold
import Flowfile.Text.Glob
import Flowfile.Text.Integer
import Flowfile.Text.Line
import Flowfile.Text.Printable
import Flowfile.Text.Similar
import Flowfile.Text.Units
import Flowfile.Text.Utf8
import Flowfile.Tree.Basic
import Flowfile.Tree.Build
import Flowfile.Tree.Projection
import Flowfile.Tree.Scalar
import Flowfile.Validation
import Flowfile.Value.Basic
import Flowfile.Value.Coercion
import Flowfile.Value.Integer
import Flowfile.Workflow.Event
import Flowfile.Workflow.Payload
import Flowfile.Workflow.Schema
import Flowfile.Yaml.Comment
import Flowfile.Yaml.Cursor
import Flowfile.Yaml.Error
import Flowfile.Yaml.Event
import Flowfile.Yaml.Graph
import Flowfile.Yaml.Token.Basic
import Flowfile.Yaml.Token.Property
import Flowfile.Yaml.Token.Scalar
import Flowfile.Yaml.Token.Stream
import Flowfile.Yaml.Version
