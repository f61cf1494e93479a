import Statechart.Agenda
import Statechart.Check
import Statechart.Clock
import Statechart.Condition
import Statechart.Configuration
import Statechart.Definition
import Statechart.Describe
import Statechart.Document
import Statechart.Draft
import Statechart.Engine.Basic
import Statechart.Engine.Handler
import Statechart.Engine.Process
import Statechart.Engine.Schedule
import Statechart.Engine.Script
import Statechart.Engine.Triggers
import Statechart.Error
import Statechart.Event
import Statechart.FileTree
import Statechart.Form.Condition
import Statechart.Form.Definition
import Statechart.Form.Document
import Statechart.Form.Error
import Statechart.Form.Event
import Statechart.Form.History
import Statechart.Form.State
import Statechart.Hierarchy
import Statechart.History
import Statechart.Holding
import Statechart.Json.Number
import Statechart.Json.Problem
import Statechart.Json.Reader
import Statechart.Json.Record
import Statechart.Json.Skip
import Statechart.Json.Text
import Statechart.Json.Value
import Statechart.Machine
import Statechart.Mailbox
import Statechart.Proofs.Abreast
import Statechart.Proofs.Alternation
import Statechart.Proofs.Ancestry
import Statechart.Proofs.Archive
import Statechart.Proofs.Arrangement
import Statechart.Proofs.Attachments
import Statechart.Proofs.Calendar
import Statechart.Proofs.Calls
import Statechart.Proofs.Chronicle
import Statechart.Proofs.Circles
import Statechart.Proofs.Confirmation
import Statechart.Proofs.Consultation
import Statechart.Proofs.Course
import Statechart.Proofs.Decision
import Statechart.Proofs.Delivery
import Statechart.Proofs.Derivation
import Statechart.Proofs.Diagnosis
import Statechart.Proofs.Documents
import Statechart.Proofs.Edges
import Statechart.Proofs.Failure
import Statechart.Proofs.Filing
import Statechart.Proofs.Forest
import Statechart.Proofs.Frame
import Statechart.Proofs.Initialization
import Statechart.Proofs.Inspection
import Statechart.Proofs.Instants
import Statechart.Proofs.Lasting
import Statechart.Proofs.Lifecycle
import Statechart.Proofs.Lineages
import Statechart.Proofs.Loading
import Statechart.Proofs.Observer
import Statechart.Proofs.Paths
import Statechart.Proofs.Placement
import Statechart.Proofs.Places
import Statechart.Proofs.Protocol
import Statechart.Proofs.Quiescence
import Statechart.Proofs.Recovery
import Statechart.Proofs.Registration
import Statechart.Proofs.Rehousing
import Statechart.Proofs.Releases
import Statechart.Proofs.Reordering
import Statechart.Proofs.Resolution
import Statechart.Proofs.Restart
import Statechart.Proofs.Roster
import Statechart.Proofs.Script
import Statechart.Proofs.Session
import Statechart.Proofs.Setup
import Statechart.Proofs.Siblings
import Statechart.Proofs.Spells
import Statechart.Proofs.Steps
import Statechart.Proofs.Sustained
import Statechart.Proofs.Timeouts
import Statechart.Proofs.Tracking
import Statechart.Proofs.Transcription
import Statechart.Proofs.Updates
import Statechart.Proofs.Validity
import Statechart.Proofs.Watchdog
import Statechart.Proofs.Window
import Statechart.Proofs.Withdrawal
import Statechart.Registry
import Statechart.Rule
import Statechart.RuleIndex
import Statechart.Signal
import Statechart.Stage
import Statechart.State
import Statechart.Table
import Statechart.Text.Blank
import Statechart.Text.Hidden
import Statechart.Text.Quoted
import Statechart.Timestamp
import Statechart.Timestamp.Format
import Statechart.Validation
import Statechart.Violation
