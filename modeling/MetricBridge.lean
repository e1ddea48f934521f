import MetricBridge.Json.Printer
import MetricBridge.Json.Reader
import MetricBridge.Json.Plain
import MetricBridge.Text.Folding
import MetricBridge.Text.Percent
import MetricBridge.Text.Base64
import MetricBridge.Seconds
import MetricBridge.Formula.CalculatedField
import MetricBridge.Log.Basic
import MetricBridge.Dispatch.Retry
import MetricBridge.Dispatch.Request
import MetricBridge.Dispatch.Endpoint
import MetricBridge.Dispatch.Entry
import MetricBridge.Files
import MetricBridge.Store.Basic
import MetricBridge.Store.Memory
import MetricBridge.Store.Disk
import MetricBridge.Credential.Basic
import MetricBridge.Dispatch.World
import MetricBridge.Dispatch.Round
import MetricBridge.Dispatch.Basic
import MetricBridge.Json.Shape
import MetricBridge.Report.Basic
import MetricBridge.Report.Listing
import MetricBridge.Report.Processed
import MetricBridge.Report.Client
import MetricBridge.Settings
import MetricBridge.Credential.Dotenv
import MetricBridge.Credential.Source
import MetricBridge.Credential.Startup
import MetricBridge.Log.Redaction
import MetricBridge.Decimal.Placed
import MetricBridge.Text.Template
import MetricBridge.Timestamp
import MetricBridge.Log.Record
import MetricBridge.Log.Sink
import MetricBridge.Dispatch.Advice
import MetricBridge.Problem.Basic
import MetricBridge.Problem.Faults
import MetricBridge.Command.Switch
import MetricBridge.Command.Arguments
import MetricBridge.Command.Run
import MetricBridge.Dispatch.Transport
import MetricBridge.Package
import MetricBridge.Command.Surroundings
import MetricBridge.Main
import MetricBridge.Proofs.Formula.Soundness
import MetricBridge.Proofs.Formula.Completeness
import MetricBridge.Proofs.Formula.Faithful
import MetricBridge.Proofs.Formula.Translating
import MetricBridge.Proofs.Dispatch.Timing
import MetricBridge.Proofs.Dispatch.Wire
import MetricBridge.Proofs.Dispatch.Batching
import MetricBridge.Proofs.Formula.Reporting
import MetricBridge.Proofs.Formula.Naming
import MetricBridge.Proofs.Dispatch.Withstanding
import MetricBridge.Proofs.Dispatch.Strict
import MetricBridge.Proofs.Dispatch.Recalling
import MetricBridge.Proofs.Dispatch.Terminating
import MetricBridge.Proofs.Dispatch.Agreeing
import MetricBridge.Proofs.Store.Choice
import MetricBridge.Proofs.Dispatch.Committing
import MetricBridge.Proofs.Dispatch.Secrecy
import MetricBridge.Proofs.Credential.Resolving
import MetricBridge.Proofs.Report.Remembered
import MetricBridge.Proofs.Report.Histories
import MetricBridge.Proofs.Store.Alike
import MetricBridge.Proofs.Dispatch.UserInfo
import MetricBridge.Proofs.Formula.Columns
import MetricBridge.Proofs.Command.Limits
import MetricBridge.Proofs.Credential.Startup
import MetricBridge.Proofs.Formula.LexicalMetrics
import MetricBridge.Proofs.Formula.Layout
import MetricBridge.Proofs.Formula.RoundTrip
import MetricBridge.Proofs.Formula.Literals
import MetricBridge.Proofs.Formula.Slices
import MetricBridge.Proofs.Formula.Pointing
import MetricBridge.Proofs.Dispatch.Decoding
import MetricBridge.Proofs.Dispatch.Likeness
import MetricBridge.Proofs.Dispatch.Normalizing
import MetricBridge.Proofs.Store.Recency
import MetricBridge.Proofs.Store.Rewriting
import MetricBridge.Proofs.Store.Surviving
import MetricBridge.Proofs.Credential.Malformed
import MetricBridge.Proofs.Log.Hiding
import MetricBridge.Proofs.Log.Idempotent
import MetricBridge.Proofs.Dispatch.Classifying
import MetricBridge.Proofs.Store.Tables
import MetricBridge.Proofs.Formula.Chains
import MetricBridge.Proofs.Json.Inspecting
import MetricBridge.Proofs.Report.Keeping
import MetricBridge.Proofs.Formula.Preorder
