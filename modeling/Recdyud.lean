import Recdyud.Py
import Recdyud.Text
import Recdyud.Unicode
import Recdyud.Lib.Stage
import Recdyud.Lib.Machine
import Recdyud.Lib.Interleaved
import Recdyud.Lib.Ecb
import Recdyud.Lib.Crc
import Recdyud.Lib.Keeps
import Recdyud.Lib.CriticalSection
import Recdyud.Lib.Foreign
import Recdyud.Lib.JsonString
import Recdyud.Lib.Polling
import Recdyud.Lib.Chaining
import Recdyud.Ts.Sync
import Recdyud.Ts.Aligner
import Recdyud.Ts.Packet
import Recdyud.Ts.Resync
import Recdyud.Ts.AlignerOutput
import Recdyud.Ts.Analyzer
import Recdyud.Ts.Continuity
import Recdyud.Ts.CounterBounds
import Recdyud.Ts.SectionAssembler
import Recdyud.Ts.Packetisation
import Recdyud.Aribstr
import Recdyud.Aribstr.Units
import Recdyud.Aribstr.CodeExtension
import Recdyud.Aribstr.Transparent
import Recdyud.Ts.Tables
import Recdyud.Ts.SiCollector
import Recdyud.Ts.SiSafety
import Recdyud.Ts.TableOrder
import Recdyud.Ts.TableBuild
import Recdyud.Ts.Crc32
import Recdyud.Ts.AssemblerBounds
import Recdyud.Ts.TableDescription
import Recdyud.Ts.TableRoundTrip
import Recdyud.Ts.DescriptorCut
import Recdyud.Ts.CrcField
import Recdyud.Cli.DropNull
import Recdyud.Cli.NullCount
import Recdyud.Cli.Pipeline
import Recdyud.Cli.Fallback
import Recdyud.Cli.Closing
import Recdyud.Cli.StartTimeout
import Recdyud.Cli.Receive
import Recdyud.Cli.Stream
import Recdyud.Cli.Shutdown
import Recdyud.Cli.Output
import Recdyud.Protocol.Codec
import Recdyud.Protocol.Session
import Recdyud.Device.Commands
import Recdyud.Device.Pairing
import Recdyud.Device.Threads
import Recdyud.Device.Sequence
import Recdyud.Device.Lifecycle
import Recdyud.Device.KeySync
import Recdyud.Device.ReadTs
import Recdyud.Bcas.CardId
import Recdyud.Bcas.Card
import Recdyud.B25.Shim
import Recdyud.B25.Descrambler
import Recdyud.B25.Ecm
import Recdyud.B25.Setup
import Recdyud.B25.Multi2
import Recdyud.Device.Select
import Recdyud.Device.OpenDevice
import Recdyud.Device.Sessions
import Recdyud.Channels
import Recdyud.Channels.Frequency
import Recdyud.Channels.Members
import Recdyud.Channels.Names
import Recdyud.Channels.Reports
import Recdyud.Device.Status
import Recdyud.Cli.Prologue
import Recdyud.Diag.Monitor
import Recdyud.Diag.Reports
import Recdyud.Diag.Schedule
import Recdyud.Diag.Scan
import Recdyud.Diag.Mirakc
import Recdyud.Diag.Replay
