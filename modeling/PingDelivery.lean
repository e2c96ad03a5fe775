import PingDelivery.Assembly
import PingDelivery.Buffer
import PingDelivery.Bytes
import PingDelivery.ClientId
import PingDelivery.Configuration.Basic
import PingDelivery.Configuration.Error
import PingDelivery.Dict
import PingDelivery.Ended
import PingDelivery.Environment
import PingDelivery.Event
import PingDelivery.Json.Basic
import PingDelivery.Json.Reader
import PingDelivery.Json.Token
import PingDelivery.Json.Typed
import PingDelivery.Json.Writer
import PingDelivery.Lifecycle
import PingDelivery.Log.Entry
import PingDelivery.Log.Filter
import PingDelivery.Log.Level
import PingDelivery.Log.Output
import PingDelivery.Metadata
import PingDelivery.Metric
import PingDelivery.Notice
import PingDelivery.Ping
import PingDelivery.Proofs.Buffer
import PingDelivery.Proofs.Buffer.Coverage
import PingDelivery.Proofs.Buffer.Merging
import PingDelivery.Proofs.Buffer.Restoring
import PingDelivery.Proofs.Buffer.Timeline
import PingDelivery.Proofs.Buffer.Windows
import PingDelivery.Proofs.Client.Attempts
import PingDelivery.Proofs.Client.Calls
import PingDelivery.Proofs.Client.Delivery
import PingDelivery.Proofs.Client.Disposal
import PingDelivery.Proofs.Client.Headers
import PingDelivery.Proofs.Client.Keys
import PingDelivery.Proofs.Client.Ledger
import PingDelivery.Proofs.Client.Logging
import PingDelivery.Proofs.Client.Measurements
import PingDelivery.Proofs.Client.Order
import PingDelivery.Proofs.Client.Retention
import PingDelivery.Proofs.Client.Returns
import PingDelivery.Proofs.Client.Steps
import PingDelivery.Proofs.Client.World
import PingDelivery.Proofs.Dict
import PingDelivery.Proofs.Json.Compact
import PingDelivery.Proofs.Json.Reading
import PingDelivery.Proofs.Json.Replacing
import PingDelivery.Proofs.Payload
import PingDelivery.Proofs.Queue.AllOrNothing
import PingDelivery.Proofs.Queue.Answers
import PingDelivery.Proofs.Queue.Fence
import PingDelivery.Proofs.Queue.ForeignKeys
import PingDelivery.Proofs.Queue.Lobby
import PingDelivery.Proofs.Queue.Mirror
import PingDelivery.Proofs.Queue.Numbering
import PingDelivery.Proofs.Queue.Rehydration
import PingDelivery.Proofs.Queue.Reopening
import PingDelivery.Proofs.Queue.Resumption
import PingDelivery.Proofs.Queue.Salvage
import PingDelivery.Proofs.Queue.Serving
import PingDelivery.Proofs.Record.Delimited
import PingDelivery.Proofs.Record.RoundTrip
import PingDelivery.Proofs.Record.Spelling
import PingDelivery.Proofs.Settings.Agreement
import PingDelivery.Proofs.Settings.Decoding
import PingDelivery.Proofs.Settings.Precedence
import PingDelivery.Proofs.Store.Atomicity
import PingDelivery.Proofs.Store.Directory
import PingDelivery.Proofs.Store.Execution
import PingDelivery.Proofs.Store.FileSystem
import PingDelivery.Proofs.Store.Likeness
import PingDelivery.Proofs.Store.Media
import PingDelivery.Proofs.Store.Naming
import PingDelivery.Proofs.Submission
import PingDelivery.Proofs.Submission.Slug
import PingDelivery.Proofs.Text.Characters
import PingDelivery.Proofs.Text.Utf8
import PingDelivery.Proofs.Time.Calendar
import PingDelivery.Proofs.Time.Rfc3339
import PingDelivery.Proofs.Twin.Bond
import PingDelivery.Proofs.Twin.Client
import PingDelivery.Proofs.Twin.Debugging
import PingDelivery.Proofs.Twin.Queue
import PingDelivery.Proofs.Twin.Saga
import PingDelivery.Proofs.Twin.Secrecy
import PingDelivery.Proofs.Twin.Sight
import PingDelivery.Proofs.Upload.Bell
import PingDelivery.Proofs.Upload.Books
import PingDelivery.Proofs.Upload.Cancellation
import PingDelivery.Proofs.Upload.Conservation
import PingDelivery.Proofs.Upload.Consult
import PingDelivery.Proofs.Upload.Crew
import PingDelivery.Proofs.Upload.Delays
import PingDelivery.Proofs.Upload.Drain
import PingDelivery.Proofs.Upload.Rings
import PingDelivery.Proofs.Upload.Serial
import PingDelivery.Proofs.Upload.Sharing
import PingDelivery.Proofs.Upload.Shift
import PingDelivery.Proofs.Upload.Steps
import PingDelivery.Proofs.Upload.Suspension
import PingDelivery.Proofs.Upload.Turns
import PingDelivery.Proofs.Upload.View
import PingDelivery.Proofs.Upload.Vigil
import PingDelivery.Proofs.Upload.Waiting
import PingDelivery.Proofs.Upload.Windup
import PingDelivery.Proofs.Url.Canonical
import PingDelivery.Proofs.Url.Endpoint
import PingDelivery.Proofs.Url.Roundtrip
import PingDelivery.Proofs.Uuid
import PingDelivery.Queue.Basic
import PingDelivery.Queue.Error
import PingDelivery.Queue.Opening
import PingDelivery.Record
import PingDelivery.Session.Command
import PingDelivery.Session.Executor
import PingDelivery.Session.World
import PingDelivery.Settings.Basic
import PingDelivery.Settings.Decode
import PingDelivery.Settings.Sources
import PingDelivery.Snapshot
import PingDelivery.Span
import PingDelivery.Store.Call
import PingDelivery.Store.Directory
import PingDelivery.Store.Faulty
import PingDelivery.Store.FileSystem
import PingDelivery.Store.Memory
import PingDelivery.Store.Program
import PingDelivery.Store.Tree
import PingDelivery.Submission
import PingDelivery.Tag
import PingDelivery.Text.Blank
import PingDelivery.Text.Digits
import PingDelivery.Text.Reading
import PingDelivery.Time.Date
import PingDelivery.Time.Instant
import PingDelivery.Time.Rfc2822
import PingDelivery.Time.Rfc3339
import PingDelivery.Toml.Document
import PingDelivery.Toml.Lexeme
import PingDelivery.Unicode.Composition
import PingDelivery.Unicode.Direction
import PingDelivery.Unicode.Joining
import PingDelivery.Unicode.Marks
import PingDelivery.Unicode.Ranges
import PingDelivery.Upload.Backoff
import PingDelivery.Upload.Outcome
import PingDelivery.Upload.Plan
import PingDelivery.Upload.Request
import PingDelivery.Upload.Run
import PingDelivery.Upload.Scheduler
import PingDelivery.Upload.Stats
import PingDelivery.Upload.Summary
import PingDelivery.Upload.Wire
import PingDelivery.Upload.Worker
import PingDelivery.Url.Address
import PingDelivery.Url.Basic
import PingDelivery.Url.Domain
import PingDelivery.Url.DomainMapping
import PingDelivery.Url.Percent
import PingDelivery.Url.Punycode
import PingDelivery.Uuid
