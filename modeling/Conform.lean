import Conform.Admission
import Conform.Calendar.Date
import Conform.Calendar.Field
import Conform.Calendar.Moment
import Conform.Channel
import Conform.Coercion
import Conform.CommandLine
import Conform.CommandLine.Arguments
import Conform.Compilation
import Conform.Decimal.Double
import Conform.Decimal.Numeral
import Conform.Decimal.Power
import Conform.Decimal.Shortest
import Conform.Decode
import Conform.Description
import Conform.Email
import Conform.Failure
import Conform.FieldPath
import Conform.Gate
import Conform.Http.Message
import Conform.Http.Route
import Conform.Json.Basic
import Conform.Json.Printer
import Conform.Json.Reader
import Conform.Lowering
import Conform.Main
import Conform.MediaType
import Conform.Node
import Conform.Pattern.Bracket
import Conform.Pattern.CharSet
import Conform.Pattern.Escape
import Conform.Pattern.Expr
import Conform.Pattern.Reader
import Conform.Pattern.Search
import Conform.Query
import Conform.Records
import Conform.Report
import Conform.Schema.Definition
import Conform.Schema.Document
import Conform.Schema.DocumentError
import Conform.Schema.Fields
import Conform.Schema.Operations
import Conform.Schema.Target
import Conform.Service
import Conform.Session
import Conform.Source
import Conform.Startup
import Conform.Store
import Conform.Table
import Conform.Text.Blank
import Conform.Text.Digit
import Conform.Text.Escaped
import Conform.Text.Utf8
import Conform.TypeName
import Conform.Unicode.CaseFold
import Conform.Unicode.Category
import Conform.Unicode.Direction
import Conform.Unicode.Property
import Conform.Unicode.Runs
import Conform.Unicode.Script
import Conform.Url
import Conform.Url.Direction
import Conform.Url.Domain
import Conform.Url.Host
import Conform.Users
import Conform.Uuid
import Conform.Validator
import Conform.Yaml.Node
import Conform.Yaml.Place
import Conform.Yaml.Reader
import Conform.Yaml.Scalar
import Conform.Yaml.Token
import Conform.Proofs.References
import Conform.Proofs.Simulation
import Conform.Proofs.Table
import Conform.Proofs.TypeGraph
import Conform.Proofs.Ideal
import Conform.Proofs.Pass
import Conform.Proofs.Coherence
import Conform.Proofs.Exactness
import Conform.Proofs.Depth
import Conform.Proofs.Hops
import Conform.Proofs.Runs
import Conform.Proofs.Nullability
import Conform.Proofs.Retracing
import Conform.Proofs.History
import Conform.Sharing
import Conform.Proofs.Alone
import Conform.Proofs.Interference
import Conform.Proofs.Sharing
import Conform.Proofs.Lowered
import Conform.Proofs.WarmUp
import Conform.Proofs.Built
import Conform.Proofs.Calendar
import Conform.Proofs.Coercion
import Conform.Proofs.Conformance
import Conform.Proofs.Resting
import Conform.Proofs.Ordered
import Conform.Proofs.Idempotence
import Conform.Proofs.NullAdmission
import Conform.Proofs.Reading
import Conform.Proofs.Loading
import Conform.Proofs.Fresh
import Conform.Proofs.Naming
import Conform.Proofs.Referring
import Conform.Proofs.Exclusion
import Conform.Proofs.Descent
import Conform.Proofs.Checking
import Conform.Proofs.Shape
import Conform.Proofs.Placement
import Conform.Proofs.Declaring
import Conform.Proofs.QueryForm
import Conform.Proofs.Readiness
import Conform.Proofs.Spelling
import Conform.Proofs.Release
import Conform.Proofs.Printing
import Conform.Proofs.Extent
import Conform.Proofs.BuiltIn
import Conform.Proofs.Needing
import Conform.Proofs.Admitting
import Conform.Proofs.Showing
import Conform.Proofs.Answering
import Conform.Proofs.Finding
import Conform.Proofs.Keeping
import Conform.Proofs.Ending
import Conform.Proofs.Siblings
import Conform.Proofs.Relaxing
import Conform.Proofs.Canonical
import Conform.Proofs.Alternatives
import Conform.Proofs.Decision
import Conform.Proofs.Filling
import Conform.Proofs.Limits
import Conform.Proofs.NullForms
import Conform.Proofs.Overriding
import Conform.Proofs.Responding
import Conform.Proofs.Bracketing
import Conform.Proofs.Gathering
import Conform.Proofs.Rounding
import Conform.Proofs.Bounds
import Conform.Proofs.Listing
import Conform.Proofs.Decoding
import Conform.Proofs.Fitting
import Conform.Proofs.Taking
import Conform.Proofs.Escapes
import Conform.Proofs.Brackets
import Conform.Proofs.Classes
import Conform.Proofs.Steps
import Conform.Proofs.Courses
import Conform.Proofs.Searching
import Conform.Proofs.Wrapping
import Conform.Proofs.Foretelling
import Conform.Proofs.ReportForm
import Conform.Proofs.Dotted
import Conform.Proofs.Reflecting
