import GhciHost.Channel.Lane
import GhciHost.Channel.Query
import GhciHost.CommandLine.Form
import GhciHost.CommandLine.Layout
import GhciHost.CommandLine.Page
import GhciHost.CommandLine.Request
import GhciHost.CommandLine.Run
import GhciHost.Data.Keyed
import GhciHost.Data.Table
import GhciHost.Diagnostic.Basic
import GhciHost.Diagnostic.Block
import GhciHost.Diagnostic.Location
import GhciHost.Diagnostic.Report
import GhciHost.Event.Basic
import GhciHost.Event.Bus
import GhciHost.File.Resolve
import GhciHost.File.Tree
import GhciHost.Host.Basic
import GhciHost.Host.Fault
import GhciHost.Host.Lane
import GhciHost.Host.Query
import GhciHost.Host.Resume
import GhciHost.Host.Run
import GhciHost.Host.Session
import GhciHost.Host.Startup
import GhciHost.Host.Teardown
import GhciHost.Host.Tools
import GhciHost.Host.Waiting
import GhciHost.Host.Worker
import GhciHost.Install.Installer
import GhciHost.Install.Version
import GhciHost.Json.Access
import GhciHost.Json.Basic
import GhciHost.Json.Reader
import GhciHost.Json.Writer
import GhciHost.Loop.Basic
import GhciHost.Main
import GhciHost.Metrics.Basic
import GhciHost.Number.Binary64
import GhciHost.Number.Shortest
import GhciHost.Output.Announcement
import GhciHost.Output.LineEnds
import GhciHost.Output.Transcript
import GhciHost.Path.Lexical
import GhciHost.Path.Pathname
import GhciHost.Project.Root
import GhciHost.Proofs.Host.Effect
import GhciHost.Proofs.Host.Likeness
import GhciHost.Proofs.Host.Parts
import GhciHost.Proofs.Lane.Chunks
import GhciHost.Proofs.Lane.Delivery
import GhciHost.Proofs.Lane.Frames
import GhciHost.Proofs.Lane.History
import GhciHost.Proofs.Lane.Ledger
import GhciHost.Proofs.Lane.Order
import GhciHost.Proofs.Lane.Plan
import GhciHost.Proofs.Lane.Run
import GhciHost.Proofs.Loop.Cells
import GhciHost.Record.Check
import GhciHost.Record.Diagnostic
import GhciHost.Record.Host
import GhciHost.Record.Scalar
import GhciHost.Record.Script
import GhciHost.Record.Snapshot
import GhciHost.Session.Error
import GhciHost.Session.Phase
import GhciHost.Session.Session
import GhciHost.Session.Snapshot
import GhciHost.Settings.Assign
import GhciHost.Settings.Basic
import GhciHost.Settings.ItemText
import GhciHost.Settings.Reader
import GhciHost.Shell.Child
import GhciHost.Shell.Format
import GhciHost.Shell.Machine
import GhciHost.Shell.Reader
import GhciHost.Shell.Script
import GhciHost.Shell.Token
import GhciHost.Shell.Word
import GhciHost.Suggestion.Basic
import GhciHost.Suggestion.Quoted
import GhciHost.Suggestion.Rules
import GhciHost.Suggestion.Section
import GhciHost.Text.Blank
import GhciHost.Text.Digit
import GhciHost.Text.Lines
import GhciHost.Text.Printable
import GhciHost.Text.Quoted
import GhciHost.Text.Scan
import GhciHost.Text.Utf8
import GhciHost.Text.Word
import GhciHost.Worker.Arguments
import GhciHost.Worker.Command
import GhciHost.Worker.Launcher
import GhciHost.Worker.Process
import GhciHost.Proofs.Host.Ends
import GhciHost.Proofs.Host.Guard
import GhciHost.Proofs.Host.Guarding
import GhciHost.Proofs.Host.Proceed
import GhciHost.Proofs.Session.Cores
import GhciHost.Proofs.Session.Course
import GhciHost.Proofs.Session.Stages
import GhciHost.Proofs.Session.Stepping
import GhciHost.Proofs.Host.World
import GhciHost.Proofs.Session.InOrder
import GhciHost.Proofs.Session.Keeping
import GhciHost.Proofs.Session.Kept
import GhciHost.Proofs.Session.Seating
import GhciHost.Proofs.Session.Transitions
import GhciHost.Proofs.Host.Exits
import GhciHost.Proofs.Session.Accounting
import GhciHost.Proofs.Session.Startups
import GhciHost.Proofs.Loop.Moves
import GhciHost.Proofs.Session.Crowned
import GhciHost.Proofs.Session.Enrolled
import GhciHost.Proofs.Session.Onward
import GhciHost.Proofs.Session.Relay
import GhciHost.Proofs.Session.Resigned
import GhciHost.Proofs.Diagnostic.Kept
import GhciHost.Proofs.Loop.Notices
import GhciHost.Proofs.Session.Departed
import GhciHost.Proofs.Session.Destroyed
import GhciHost.Proofs.Session.Readers
import GhciHost.Proofs.Session.Traffic
import GhciHost.Proofs.Diagnostic.Placed
import GhciHost.Proofs.Diagnostic.Printed
import GhciHost.Proofs.Diagnostic.Reported
import GhciHost.Proofs.Event.Delivery
import GhciHost.Proofs.Session.Answers
import GhciHost.Proofs.Session.Relaunch
import GhciHost.Proofs.Session.Replay
import GhciHost.Proofs.Loop.Begun
import GhciHost.Proofs.Session.Spared
import GhciHost.Proofs.Text.Stream
import GhciHost.Proofs.Text.Tail
import GhciHost.Proofs.Session.Transcript
import GhciHost.Proofs.Session.Watched
import GhciHost.Proofs.Loop.Secluded
import GhciHost.Proofs.Host.Names
import GhciHost.Proofs.Session.Parked
import GhciHost.Proofs.Session.Recalled
import GhciHost.Proofs.Session.Sheltered
import GhciHost.Proofs.Session.Awaited
import GhciHost.Proofs.Session.Refused
import GhciHost.Proofs.Session.Attended
import GhciHost.Proofs.Session.Terminal
import GhciHost.Proofs.Lane.Intake
import GhciHost.Proofs.Lane.Commands
import GhciHost.Proofs.Lane.Admission
import GhciHost.Proofs.File.Written
import GhciHost.Proofs.Session.Scratch
import GhciHost.Proofs.Diagnostic.Joined
import GhciHost.Proofs.Text.Runs
import GhciHost.Proofs.Diagnostic.Readable
import GhciHost.Proofs.Session.Unusable
import GhciHost.Proofs.Session.Rejected
import GhciHost.Proofs.Suggestion.Proposed
import GhciHost.Proofs.Suggestion.Requoted
import GhciHost.Proofs.Suggestion.Constraints
import GhciHost.Proofs.Suggestion.Fields
import GhciHost.Proofs.Project.Accepted
import GhciHost.Proofs.Suggestion.Released
import GhciHost.Proofs.Suggestion.Candidates
import GhciHost.Proofs.Command.Recovered
import GhciHost.Proofs.Output.Announced
import GhciHost.Proofs.Output.Returns
import GhciHost.Proofs.Record.Dumped
import GhciHost.Proofs.Session.Readied
import GhciHost.Proofs.Json.Taken
import GhciHost.Proofs.Json.Values
import GhciHost.Proofs.Settings.Given
import GhciHost.Proofs.Install.Accepted
