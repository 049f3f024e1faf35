import MiscVerilogCores.Library.Clocked
import MiscVerilogCores.Library.RingMemory
import MiscVerilogCores.Model.Skid
import MiscVerilogCores.Verification.Skid.Lossless
import MiscVerilogCores.Verification.PacketFifo.Frames
import MiscVerilogCores.Verification.PacketFifo.Replay
import MiscVerilogCores.Verification.SyncFifo.Correctness
import MiscVerilogCores.Verification.AxiPath.ReadIds
import MiscVerilogCores.Verification.AxiPath.WriteAddress
import MiscVerilogCores.Verification.AxiPath.WriteResponse
import MiscVerilogCores.Verification.AxisAfifo.Crossing
import MiscVerilogCores.Verification.BulkIn.Framing
import MiscVerilogCores.Verification.Control.FreshSetup
import MiscVerilogCores.Verification.Control.Leftovers
import MiscVerilogCores.Verification.Control.Unsupported
import MiscVerilogCores.Verification.Ddr3.Commands
import MiscVerilogCores.Verification.Ddr3.Ordering
import MiscVerilogCores.Verification.Ddr3.Refresh
import MiscVerilogCores.Verification.Ddr3.Spacing
import MiscVerilogCores.Verification.Usb.Grammar
import MiscVerilogCores.Verification.Usb.Handshakes
import MiscVerilogCores.Verification.Usb.HostCrc
import MiscVerilogCores.Model.OutPipe
import MiscVerilogCores.Verification.BulkOut.Edges
import MiscVerilogCores.Verification.BulkOut.Transactions
import MiscVerilogCores.Model.LineState
import MiscVerilogCores.Verification.AxiPath.Coverage
import MiscVerilogCores.Verification.LineState.HighSpeed
import MiscVerilogCores.Verification.LineState.Bringup
import MiscVerilogCores.Model.VpiUsb
import MiscVerilogCores.Verification.Ddr3.Unspecified
import MiscVerilogCores.Verification.Vpi.DataPackets
import MiscVerilogCores.Model.AxisClean
import MiscVerilogCores.Verification.SyncFifo.Draining
import MiscVerilogCores.Verification.AxisClean.Cleaning
import MiscVerilogCores.Verification.PacketFifo.Level
import MiscVerilogCores.Verification.BulkOut.Space
import MiscVerilogCores.Model.AxisChop
import MiscVerilogCores.Verification.AxisChop.Chopping
import MiscVerilogCores.Model.Memreq
import MiscVerilogCores.Verification.Memreq.Commands
import MiscVerilogCores.Verification.BulkOut.ExactlyOnce
import MiscVerilogCores.Verification.BulkOut.Recovery
import MiscVerilogCores.Model.AxisLogger
import MiscVerilogCores.Verification.AxisLogger.Framing
import MiscVerilogCores.Model.HexDump
import MiscVerilogCores.Verification.HexDump.Text
import MiscVerilogCores.Verification.HexDump.Dumping
import MiscVerilogCores.Model.VpiBulkIn
import MiscVerilogCores.Verification.Vpi.ReceiveBounds
import MiscVerilogCores.Library.Handshake
import MiscVerilogCores.Model.Uart
import MiscVerilogCores.Verification.Uart.Line
import MiscVerilogCores.Verification.Uart.Link
import MiscVerilogCores.Library.Components
import MiscVerilogCores.Library.Sdram
import MiscVerilogCores.Library.Segments
import MiscVerilogCores.Model.AxisAdapter
import MiscVerilogCores.Model.AxisFifo
import MiscVerilogCores.Model.AxisSwitch
import MiscVerilogCores.Model.UsbUlpiCore
import MiscVerilogCores.Verification.AxisAdapter.Downsizing
import MiscVerilogCores.Verification.AxisAdapter.RoundTrip
import MiscVerilogCores.Verification.AxisFifo.Frames
import MiscVerilogCores.Verification.AxisFifo.Marking
import MiscVerilogCores.Verification.AxisSwitch.Datapath
import MiscVerilogCores.Verification.AxisSwitch.Multiplexing
import MiscVerilogCores.Verification.AxisSwitch.Routing
import MiscVerilogCores.Verification.Ddr3.Memory
import MiscVerilogCores.Verification.HexDump.Starting
import MiscVerilogCores.Verification.Telemetry.Chain
import MiscVerilogCores.Verification.Telemetry.Printing
import MiscVerilogCores.Library.Text
import MiscVerilogCores.Model.Driver
import MiscVerilogCores.Model.TelemetryTool
import MiscVerilogCores.Verification.Telemetry.Driver
import MiscVerilogCores.Library.Stepping
import MiscVerilogCores.Model.VpiHost
import MiscVerilogCores.Verification.Usb.HostTokens
import MiscVerilogCores.Verification.Usb.Reports
import MiscVerilogCores.Verification.Vpi.BulkOut
