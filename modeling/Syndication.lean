import Syndication.Api
import Syndication.ApiKey
import Syndication.Archive
import Syndication.CommandLine.Administration
import Syndication.CommandLine.Arguments
import Syndication.CommandLine.Daemon
import Syndication.CommandLine.Program
import Syndication.CommandLine.Server
import Syndication.Config.Basic
import Syndication.Config.Location
import Syndication.Config.Reader
import Syndication.Config.Writer
import Syndication.Digest.ConstantTime
import Syndication.Digest.Hmac
import Syndication.Digest.Sha256
import Syndication.Effect
import Syndication.Error
import Syndication.Http.Message
import Syndication.Http.Status
import Syndication.Http.Target
import Syndication.Identifier
import Syndication.Job.Basic
import Syndication.Job.Row
import Syndication.Job.Status
import Syndication.Job.Table
import Syndication.Json.Basic
import Syndication.Json.Members
import Syndication.Json.Reader
import Syndication.Json.Time
import Syndication.Json.Writer
import Syndication.Ledger
import Syndication.Logging
import Syndication.Main
import Syndication.Maintenance
import Syndication.Platform.Hook
import Syndication.Platform.Mock
import Syndication.Platform.Registry
import Syndication.Post
import Syndication.Proofs.ApiKey
import Syndication.Proofs.Config
import Syndication.Proofs.Digest
import Syndication.Proofs.Effect
import Syndication.Proofs.Identifier
import Syndication.Proofs.Job.Lease
import Syndication.Proofs.Job.Lifecycle
import Syndication.Proofs.Job.Payload
import Syndication.Proofs.Job.Row
import Syndication.Proofs.Job.Table
import Syndication.Proofs.Json.Grammar
import Syndication.Proofs.Json.Members
import Syndication.Proofs.Json.RoundTrip
import Syndication.Proofs.Ledger
import Syndication.Proofs.Maintenance
import Syndication.Proofs.Pipeline.AnyOrder
import Syndication.Proofs.Pipeline.Collection
import Syndication.Proofs.Pipeline.DueTime
import Syndication.Proofs.Pipeline.Footprint
import Syndication.Proofs.Pipeline.Growth
import Syndication.Proofs.Pipeline.NoJobLost
import Syndication.Proofs.Pipeline.Order
import Syndication.Proofs.Pipeline.Passes
import Syndication.Proofs.Pipeline.Preserved
import Syndication.Proofs.Pipeline.Records
import Syndication.Proofs.Pipeline.Run
import Syndication.Proofs.Pipeline.Tidy
import Syndication.Proofs.Platform.Delivery
import Syndication.Proofs.Platform.Own
import Syndication.Proofs.Platform.Registry
import Syndication.Proofs.Post
import Syndication.Proofs.Queue
import Syndication.Proofs.Queue.Counts
import Syndication.Proofs.Queue.Order
import Syndication.Proofs.Queue.Payload
import Syndication.Proofs.Queue.Takings
import Syndication.Proofs.Queue.Traffic
import Syndication.Proofs.RateWindow
import Syndication.Proofs.Retry
import Syndication.Proofs.Service
import Syndication.Proofs.Session.Crossing
import Syndication.Proofs.Session.Notebook
import Syndication.Proofs.Session.Registry
import Syndication.Proofs.Session.Usage
import Syndication.Proofs.Staging.Bundle
import Syndication.Proofs.Staging.Collect
import Syndication.Proofs.Staging.Confined
import Syndication.Proofs.Staging.Keys
import Syndication.Proofs.Staging.Shelf
import Syndication.Proofs.Store.Agreement
import Syndication.Proofs.Store.Alike
import Syndication.Proofs.Store.Flat
import Syndication.Proofs.Store.Objects
import Syndication.Proofs.Store.Tree
import Syndication.Proofs.Store.Walk
import Syndication.Proofs.Submission.AllOrNothing
import Syndication.Proofs.Submission.Checks
import Syndication.Proofs.Submission.FanOut
import Syndication.Proofs.Submission.Frame
import Syndication.Proofs.Submission.Parts
import Syndication.Proofs.Text.Hex
import Syndication.Proofs.Text.Pieces
import Syndication.Proofs.Text.Utf8
import Syndication.Proofs.Time.Calendar
import Syndication.Proofs.Time.Order
import Syndication.Proofs.Time.Stamp
import Syndication.Proofs.Trigger.Attempts
import Syndication.Proofs.Trigger.Diary
import Syndication.Proofs.Trigger.Firing
import Syndication.Proofs.Trigger.Gap
import Syndication.Proofs.Trigger.Interests
import Syndication.Proofs.Trigger.Logbook
import Syndication.Proofs.Trigger.Payload
import Syndication.Proofs.Trigger.Rendering
import Syndication.Proofs.Trigger.Turns
import Syndication.Proofs.Webhook.Ingest
import Syndication.Proofs.Webhook.Replay
import Syndication.Proofs.Webhook.Signature
import Syndication.Proofs.Worker.Attempts
import Syndication.Proofs.Worker.Batch
import Syndication.Proofs.Worker.Course
import Syndication.Proofs.Worker.Handling
import Syndication.Proofs.Worker.Own
import Syndication.Proofs.Worker.Parts
import Syndication.Proofs.Worker.Shift
import Syndication.Queue
import Syndication.RateWindow
import Syndication.Report
import Syndication.Retry
import Syndication.Secret
import Syndication.Service
import Syndication.Session
import Syndication.Staging
import Syndication.Store.Basic
import Syndication.Store.Flat
import Syndication.Store.Key
import Syndication.Store.Tree
import Syndication.Submission
import Syndication.Text.Ascii
import Syndication.Text.Blank
import Syndication.Text.Hex
import Syndication.Text.Shown
import Syndication.Text.Utf16
import Syndication.Text.Utf8
import Syndication.Time.Calendar
import Syndication.Time.Instant
import Syndication.Time.Phrase
import Syndication.Time.Span
import Syndication.Time.Stamp
import Syndication.Toml.Basic
import Syndication.Toml.Reader
import Syndication.Toml.Scalar
import Syndication.Trigger.Basic
import Syndication.Trigger.Firing
import Syndication.Trigger.Registration
import Syndication.Trigger.Rendering
import Syndication.Trigger.Table
import Syndication.Webhook.EventSub
import Syndication.Webhook.Ingest
import Syndication.Word
import Syndication.Worker
