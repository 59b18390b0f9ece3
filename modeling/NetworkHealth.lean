import NetworkHealth.Library.Machine
import NetworkHealth.Widget.SharedStore
import NetworkHealth.Widget.Sharing
import NetworkHealth.Widget.AccidentalWipe
import NetworkHealth.Widget.Convergence
import NetworkHealth.Widget.SeenPayload
import NetworkHealth.Widget.EditLoss
import NetworkHealth.Widget.Backend
import NetworkHealth.Widget.DeadBackend
import NetworkHealth.Daemon.Text
import NetworkHealth.Library.Traverse
import NetworkHealth.Daemon.Health
import NetworkHealth.Library.Hysteresis
import NetworkHealth.Daemon.Prober
import NetworkHealth.Daemon.Monitor
import NetworkHealth.Daemon.Probing
import NetworkHealth.Daemon.Configuration
import NetworkHealth.Daemon.EventLoop
import NetworkHealth.Daemon.Frame
import NetworkHealth.Daemon.Rules
import NetworkHealth.Daemon.Sensitivity
import NetworkHealth.Daemon.Conservation
import NetworkHealth.Daemon.Spinning
import NetworkHealth.Daemon.Sleeping
import NetworkHealth.Daemon.Pacing
import NetworkHealth.Daemon.ProberLife
import NetworkHealth.Daemon.Punctual
import NetworkHealth.Daemon.AnsweredProbe
import NetworkHealth.Daemon.ProberInvariant
import NetworkHealth.Widget.SharedRevision
import NetworkHealth.Library.FileSystem
import NetworkHealth.Library.JsonText
import NetworkHealth.Library.Loop
import NetworkHealth.Library.CNumber
import NetworkHealth.Daemon.JsonText
import NetworkHealth.Daemon.Grammar
import NetworkHealth.Daemon.Utf8
import NetworkHealth.Daemon.JsonReading
import NetworkHealth.Daemon.JsonTokens
import NetworkHealth.Daemon.Accepts
import NetworkHealth.Daemon.RoundTrip
import NetworkHealth.Daemon.AsciiOnly
import NetworkHealth.Library.Binary64
import NetworkHealth.Library.Conversion
import NetworkHealth.Widget.Destinations
import NetworkHealth.Widget.Plasmoid
import NetworkHealth.Widget.GarbagePayload
import NetworkHealth.Widget.DestinationsPage
import NetworkHealth.Widget.Applied
import NetworkHealth.Widget.Rejoining
import NetworkHealth.Widget.Rows
import NetworkHealth.Joint.Handover
import NetworkHealth.Joint.Icon
import NetworkHealth.Widget.SharedFile
import NetworkHealth.Daemon.LostVerdict
import NetworkHealth.Daemon.ReplyTime
import NetworkHealth.Daemon.StateJson
import NetworkHealth.Daemon.Published
import NetworkHealth.Daemon.WallClock
import NetworkHealth.Daemon.Reload
import NetworkHealth.Daemon.CarryOver
import NetworkHealth.Daemon.ClientsDirectory
import NetworkHealth.Daemon.Resolver
import NetworkHealth.Daemon.Lookups
import NetworkHealth.Daemon.ClientNumbers
import NetworkHealth.Daemon.Packet
import NetworkHealth.Daemon.PeerTime
import NetworkHealth.Library.Sorting
import NetworkHealth.Widget.Canonical
import NetworkHealth.Library.Shell
import NetworkHealth.Widget.ShellQuote
import NetworkHealth.Daemon.AtomicWrite
import NetworkHealth.Library.JsonIndent
import NetworkHealth.Widget.ImportExport
import NetworkHealth.Daemon.StateFile
import NetworkHealth.Widget.JoinChoice
import NetworkHealth.Daemon.Checksum
import NetworkHealth.Daemon.StateIni
import NetworkHealth.Daemon.Dialect
import NetworkHealth.Daemon.Language
import NetworkHealth.Library.NumberText
import NetworkHealth.Library.JsonReads
import NetworkHealth.Library.Utf16
import NetworkHealth.Joint.Wire
import NetworkHealth.Joint.Polled
import NetworkHealth.Joint.StateFile
import NetworkHealth.Joint.Sent
import NetworkHealth.Library.FileLock
import NetworkHealth.Daemon.SingleInstance
import NetworkHealth.Daemon.Schedule
import NetworkHealth.Widget.Configured
import NetworkHealth.Widget.Appearance
import NetworkHealth.Widget.SharedLists
import NetworkHealth.Joint.Probed
import NetworkHealth.Daemon.Detection
