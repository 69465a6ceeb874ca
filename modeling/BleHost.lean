import BleHost.Address
import BleHost.Advertising
import BleHost.Bench
import BleHost.Catalogue
import BleHost.Code.Advertiser
import BleHost.Code.Basic
import BleHost.Code.Mode
import BleHost.Code.Result
import BleHost.Code.StatusFlags
import BleHost.Command.Basic
import BleHost.Command.Instruction
import BleHost.Console.Arguments
import BleHost.Console.Basic
import BleHost.Console.Desk
import BleHost.Console.Options
import BleHost.Console.Report
import BleHost.Console.Usage
import BleHost.Devices
import BleHost.Error
import BleHost.Events.Broadcast
import BleHost.Events.Hub
import BleHost.Frame.Assembler
import BleHost.Frame.Basic
import BleHost.Identity
import BleHost.Link.Basic
import BleHost.Link.Port
import BleHost.Link.Scripted
import BleHost.Link.Timed
import BleHost.Main
import BleHost.Message.Basic
import BleHost.Message.Kind
import BleHost.Message.View
import BleHost.Session.Basic
import BleHost.Session.Call
import BleHost.Session.Clock
import BleHost.Session.Lifecycle
import BleHost.Session.Outbound
import BleHost.Session.Outstanding
import BleHost.Session.Pump
import BleHost.Session.Request
import BleHost.Session.Round
import BleHost.Text.Column
import BleHost.Text.Elapsed
import BleHost.Text.Hex
import BleHost.Text.Utf8
import BleHost.Wire.Cursor
import BleHost.Wire.LittleEndian
import BleHost.Wire.LittleEndianLaws
import BleHost.Wire.Type
import BleHost.Wire.Writer
import BleHost.Proofs.Frame.Assembly
import BleHost.Proofs.Frame.Segments
import BleHost.Proofs.Wire.Fields
import BleHost.Proofs.Wire.Payload
import BleHost.Proofs.Message.Layout
import BleHost.Proofs.Message.Standard
import BleHost.Proofs.Command.Framing
import BleHost.Proofs.Events.Readout
import BleHost.Proofs.Session.Effects
import BleHost.Proofs.Session.Moves
import BleHost.Proofs.Session.Steps
import BleHost.Proofs.Session.Life
import BleHost.Proofs.Session.Intake
import BleHost.Proofs.Session.Calls
import BleHost.Proofs.Session.Waiters
import BleHost.Proofs.Session.Correlation
import BleHost.Proofs.Session.Line
import BleHost.Proofs.Session.Queue
import BleHost.Proofs.Session.Awake
import BleHost.Proofs.Session.Closed
import BleHost.Proofs.Session.Ending
import BleHost.Proofs.Session.FailFast
import BleHost.Proofs.Session.LinkUse
import BleHost.Proofs.Session.Afterwards
import BleHost.Proofs.Session.Dialogue
import BleHost.Proofs.Session.Tickets
import BleHost.Proofs.Session.Deeds
import BleHost.Proofs.Session.Standing
import BleHost.Proofs.Session.Ranks
import BleHost.Proofs.Session.Pairing
import BleHost.Proofs.Session.Pipelined
import BleHost.Proofs.Session.Refused
import BleHost.Proofs.Session.Backlog
import BleHost.Proofs.Events.Delivery
import BleHost.Proofs.Session.Departure
import BleHost.Proofs.Session.Roster
import BleHost.Proofs.Session.Ledger
import BleHost.Proofs.Session.Passage
import BleHost.Proofs.Session.Sending
import BleHost.Proofs.Session.Deadlines
import BleHost.Proofs.Session.Exclusion
import BleHost.Proofs.Session.Handling
import BleHost.Proofs.Session.Rounds
import BleHost.Proofs.Session.Budget
import BleHost.Proofs.Session.Notices
import BleHost.Proofs.Session.Shutdown
import BleHost.Proofs.Session.BrokenOff
import BleHost.Proofs.Session.Reasons
import BleHost.Proofs.Advertising.Lookup
import BleHost.Proofs.Advertising.Grammar
import BleHost.Proofs.Advertising.Merging
import BleHost.Proofs.Devices.History
import BleHost.Proofs.Devices.Ranking
import BleHost.Proofs.Address.Spelling
import BleHost.Proofs.Events.Receivers
import BleHost.Proofs.Link.Stream
import BleHost.Proofs.Session.Posted
import BleHost.Proofs.Console.Printout
import BleHost.Proofs.Console.Scan
import BleHost.Proofs.Console.Stages
import BleHost.Proofs.Console.Course
import BleHost.Proofs.Frame.Recovery
import BleHost.Proofs.Wire.Bounds
