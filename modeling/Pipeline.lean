import Pipeline.Action
import Pipeline.Backoff
import Pipeline.Blob
import Pipeline.Blob.Store
import Pipeline.Cache
import Pipeline.Calendar
import Pipeline.Check
import Pipeline.CommandLine.Arguments
import Pipeline.CommandLine.Command
import Pipeline.CommandLine.Display
import Pipeline.CommandLine.Outcome
import Pipeline.CommandLine.Run
import Pipeline.CommandLine.Workspace
import Pipeline.CommitId
import Pipeline.Credential
import Pipeline.Cron.Field
import Pipeline.Cron.Schedule
import Pipeline.Cron.Token
import Pipeline.Dependency
import Pipeline.Dispatch
import Pipeline.Duplicates
import Pipeline.Duration
import Pipeline.Event
import Pipeline.FieldPath
import Pipeline.Glob
import Pipeline.Glob.Match
import Pipeline.Glob.Pattern
import Pipeline.Graph
import Pipeline.Graph.Search
import Pipeline.Id
import Pipeline.Instant
import Pipeline.Interpolation
import Pipeline.Job
import Pipeline.Job.Draft
import Pipeline.Json
import Pipeline.Json.Reader
import Pipeline.Json.Token
import Pipeline.Json.Writer
import Pipeline.Main
import Pipeline.Param
import Pipeline.Proofs.Backoff
import Pipeline.Proofs.Blob.Agreement
import Pipeline.Proofs.Blob.Deletion
import Pipeline.Proofs.Blob.Sharing
import Pipeline.Proofs.Blob.Store
import Pipeline.Proofs.Calendar
import Pipeline.Proofs.Check.Attribution
import Pipeline.Proofs.Check.Beginnings
import Pipeline.Proofs.Check.Checked
import Pipeline.Proofs.Check.Extension
import Pipeline.Proofs.Check.Independence
import Pipeline.Proofs.Check.Messages
import Pipeline.Proofs.Check.MessagesAt
import Pipeline.Proofs.Check.Once
import Pipeline.Proofs.Check.Passing
import Pipeline.Proofs.Check.Places
import Pipeline.Proofs.Check.References
import Pipeline.Proofs.Check.Relocation
import Pipeline.Proofs.Check.Repetition
import Pipeline.Proofs.Check.Requirement
import Pipeline.Proofs.CommandLine.Agreement
import Pipeline.Proofs.CommandLine.Display
import Pipeline.Proofs.CommandLine.Settings
import Pipeline.Proofs.CommitId
import Pipeline.Proofs.CommitId.Spelling
import Pipeline.Proofs.Cron.Gaps
import Pipeline.Proofs.Cron.Readers
import Pipeline.Proofs.Cron.Search
import Pipeline.Proofs.Cron.Times
import Pipeline.Proofs.Cron.Values
import Pipeline.Proofs.Dispatch.Announcement
import Pipeline.Proofs.Dispatch.Cascade
import Pipeline.Proofs.Dispatch.ChangedFiles
import Pipeline.Proofs.Dispatch.Firing
import Pipeline.Proofs.Dispatch.FirstMatch
import Pipeline.Proofs.Dispatch.Kinds
import Pipeline.Proofs.Duplicates
import Pipeline.Proofs.FieldPath
import Pipeline.Proofs.Glob.Bytes
import Pipeline.Proofs.Glob.Crossing
import Pipeline.Proofs.Glob.Language
import Pipeline.Proofs.Glob.Lists
import Pipeline.Proofs.Glob.Reading
import Pipeline.Proofs.Glob.Segments
import Pipeline.Proofs.Graph.Adjacency
import Pipeline.Proofs.Graph.Cycle
import Pipeline.Proofs.Graph.Edges
import Pipeline.Proofs.Graph.Neighbours
import Pipeline.Proofs.Graph.Order
import Pipeline.Proofs.Graph.Run
import Pipeline.Proofs.Graph.Search
import Pipeline.Proofs.Id
import Pipeline.Proofs.Interpolation
import Pipeline.Proofs.Interpolation.Grammar
import Pipeline.Proofs.Job.Draft
import Pipeline.Proofs.Json.Place
import Pipeline.Proofs.Json.Quoted
import Pipeline.Proofs.Json.Texts
import Pipeline.Proofs.Quantity
import Pipeline.Proofs.Query
import Pipeline.Proofs.RoundTrip.Event
import Pipeline.Proofs.RoundTrip.Parts
import Pipeline.Proofs.RoundTrip.Source
import Pipeline.Proofs.RoundTrip.Spec
import Pipeline.Proofs.Selection
import Pipeline.Proofs.Spelling
import Pipeline.Proofs.Text.Number
import Pipeline.Proofs.Text.Split
import Pipeline.Proofs.Text.Trim
import Pipeline.Proofs.Text.Words
import Pipeline.Proofs.Upcoming
import Pipeline.Proofs.Uuid
import Pipeline.Proofs.WellFormed.Graph
import Pipeline.Proofs.WellFormed.Job
import Pipeline.Proofs.WellFormed.Parts
import Pipeline.Proofs.WellFormed.Reordering
import Pipeline.Proofs.WellFormed.Spec
import Pipeline.Proofs.Yaml.Block
import Pipeline.Proofs.Yaml.Layout
import Pipeline.Proofs.Yaml.Quoted
import Pipeline.Proofs.Yaml.Scalar
import Pipeline.Proofs.Yaml.Texts
import Pipeline.Proofs.Yaml.Unquoted
import Pipeline.Quantity
import Pipeline.Query
import Pipeline.Report
import Pipeline.Retry
import Pipeline.Schema
import Pipeline.Schema.Definitions
import Pipeline.Service
import Pipeline.Settings
import Pipeline.Source
import Pipeline.Spec
import Pipeline.Spec.Starter
import Pipeline.Text.Blank
import Pipeline.Text.Digit
import Pipeline.Text.Number
import Pipeline.Text.Shown
import Pipeline.Text.Split
import Pipeline.Trigger
import Pipeline.Upcoming
import Pipeline.Uuid
import Pipeline.Validation
import Pipeline.Violation
import Pipeline.Yaml.Character
import Pipeline.Yaml.Node
import Pipeline.Yaml.Plain
import Pipeline.Yaml.Token
import Pipeline.Yaml.Token.Layout
import Pipeline.Yaml.Token.Scalar
import Pipeline.Yaml.Token.Tag
import Pipeline.Yaml.Tree
import Pipeline.Yaml.Writer
