import Gatekeeper.Config.Basic
import Gatekeeper.Config.Decode
import Gatekeeper.Config.Store
import Gatekeeper.Console.Arguments
import Gatekeeper.Console.Command
import Gatekeeper.Console.Program
import Gatekeeper.Console.Schedule
import Gatekeeper.Console.Terminal
import Gatekeeper.Decimal.Binary
import Gatekeeper.Decimal.Shortest
import Gatekeeper.Discovery
import Gatekeeper.Environment
import Gatekeeper.Frame
import Gatekeeper.Json.Basic
import Gatekeeper.Json.Number
import Gatekeeper.Json.Reader
import Gatekeeper.Json.Token
import Gatekeeper.Json.Writer
import Gatekeeper.Machine.Disk
import Gatekeeper.Machine.Interpreter
import Gatekeeper.Machine.IoError
import Gatekeeper.Machine.Shell
import Gatekeeper.Machine.World
import Gatekeeper.Main
import Gatekeeper.Message
import Gatekeeper.Path
import Gatekeeper.Probe.Output
import Gatekeeper.Probe.Script
import Gatekeeper.Probe.Verify
import Gatekeeper.Proofs.Automaton
import Gatekeeper.Proofs.Config.Failure
import Gatekeeper.Proofs.Config.Overwrite
import Gatekeeper.Proofs.Config.Persist
import Gatekeeper.Proofs.Config.Reload
import Gatekeeper.Proofs.Console.Course
import Gatekeeper.Proofs.Console.Input
import Gatekeeper.Proofs.Console.Order
import Gatekeeper.Proofs.Environment.Expansion
import Gatekeeper.Proofs.Frame.Cut
import Gatekeeper.Proofs.Frame.Grammar
import Gatekeeper.Proofs.Frame.Lines
import Gatekeeper.Proofs.Frame.Progress
import Gatekeeper.Proofs.Frame.RoundTrip
import Gatekeeper.Proofs.Frame.Stream
import Gatekeeper.Proofs.Json.Nesting
import Gatekeeper.Proofs.Machine.Ancestors
import Gatekeeper.Proofs.Machine.Directories
import Gatekeeper.Proofs.Machine.Disk
import Gatekeeper.Proofs.Machine.Install
import Gatekeeper.Proofs.Probe.Blame
import Gatekeeper.Proofs.Probe.Classification
import Gatekeeper.Proofs.Probe.Display
import Gatekeeper.Proofs.Probe.Quotation
import Gatekeeper.Proofs.Probe.Verification
import Gatekeeper.Proofs.Server.Accounts
import Gatekeeper.Proofs.Server.Answers
import Gatekeeper.Proofs.Server.Course
import Gatekeeper.Proofs.Server.Documents
import Gatekeeper.Proofs.Server.Drive
import Gatekeeper.Proofs.Server.Extension
import Gatekeeper.Proofs.Server.Incoming
import Gatekeeper.Proofs.Server.Lapse
import Gatekeeper.Proofs.Server.Lifetime
import Gatekeeper.Proofs.Server.Matching
import Gatekeeper.Proofs.Server.Reader
import Gatekeeper.Proofs.Server.Script
import Gatekeeper.Proofs.Server.Showing
import Gatekeeper.Proofs.Server.Shutdown
import Gatekeeper.Proofs.Server.Transport
import Gatekeeper.Proofs.Server.WireOrder
import Gatekeeper.Proofs.Session.Account
import Gatekeeper.Proofs.Session.Audience
import Gatekeeper.Proofs.Session.Candidate
import Gatekeeper.Proofs.Session.Chronicle
import Gatekeeper.Proofs.Session.Company
import Gatekeeper.Proofs.Session.Custody
import Gatekeeper.Proofs.Session.ExitReport
import Gatekeeper.Proofs.Session.FailedLaunch
import Gatekeeper.Proofs.Session.Notices
import Gatekeeper.Proofs.Session.Passage
import Gatekeeper.Proofs.Session.Performance
import Gatekeeper.Proofs.Session.Preference
import Gatekeeper.Proofs.Session.Rejection
import Gatekeeper.Proofs.Session.Relaunch
import Gatekeeper.Proofs.Session.Rest
import Gatekeeper.Proofs.Session.Showing
import Gatekeeper.Proofs.Session.Turn
import Gatekeeper.Proofs.Text.Blank
import Gatekeeper.Proofs.Text.Decimal
import Gatekeeper.Proofs.Text.Decode
import Gatekeeper.Proofs.Text.Find
import Gatekeeper.Proofs.Text.Offset
import Gatekeeper.Proofs.Text.Run
import Gatekeeper.Proofs.Text.Trim
import Gatekeeper.Proofs.Text.Utf8
import Gatekeeper.Proofs.Toml.Compose
import Gatekeeper.Proofs.Toml.Edit
import Gatekeeper.Proofs.Toml.Inline
import Gatekeeper.Proofs.Toml.Key
import Gatekeeper.Proofs.Toml.Layout
import Gatekeeper.Proofs.Toml.Lines
import Gatekeeper.Proofs.Toml.Overwrite
import Gatekeeper.Proofs.Toml.Put
import Gatekeeper.Proofs.Toml.Quote
import Gatekeeper.Proofs.Toml.Reader
import Gatekeeper.Proofs.Toml.Statement
import Gatekeeper.Proofs.Toml.Token
import Gatekeeper.Proofs.Version.Bracket
import Gatekeeper.Proofs.Version.Bytes
import Gatekeeper.Proofs.Version.Grammar
import Gatekeeper.Proofs.Version.Numeral
import Gatekeeper.Proofs.Version.Order
import Gatekeeper.Proofs.Version.Runs
import Gatekeeper.Proofs.Version.Spelling
import Gatekeeper.Proofs.Version.Written
import Gatekeeper.Requirement
import Gatekeeper.Server.Event
import Gatekeeper.Server.Exchange
import Gatekeeper.Server.Fleet
import Gatekeeper.Server.LaunchSpec
import Gatekeeper.Server.Link
import Gatekeeper.Server.Uri
import Gatekeeper.Server.Wire
import Gatekeeper.Session.Controller
import Gatekeeper.Session.Crowd
import Gatekeeper.Session.Event
import Gatekeeper.Session.Live
import Gatekeeper.Session.Mailbox
import Gatekeeper.Session.Rehearsal
import Gatekeeper.Session.Run
import Gatekeeper.Session.Status
import Gatekeeper.Text.Blank
import Gatekeeper.Text.Decimal
import Gatekeeper.Text.Find
import Gatekeeper.Text.Offset
import Gatekeeper.Text.Utf8
import Gatekeeper.Toml.Document
import Gatekeeper.Toml.Edit
import Gatekeeper.Toml.Outline
import Gatekeeper.Toml.Quote
import Gatekeeper.Toml.Reader
import Gatekeeper.Toml.Scalar
import Gatekeeper.Toml.Table
import Gatekeeper.Toml.Token
import Gatekeeper.Toml.Value
import Gatekeeper.Verdict
import Gatekeeper.Version.Basic
import Gatekeeper.Version.Bytes
import Gatekeeper.Version.Order
