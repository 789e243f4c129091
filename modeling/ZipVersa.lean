import ZipVersa.Lib.BigEndian
import ZipVersa.Lib.Clocked
import ZipVersa.Lib.Crc
import ZipVersa.Lib.Dram
import ZipVersa.Lib.RefCount
import ZipVersa.Lib.RunLength
import ZipVersa.Lib.Ring
import ZipVersa.Lib.Queue
import ZipVersa.Lib.History
import ZipVersa.Lib.OnesComplement
import ZipVersa.Lib.Restoring
import ZipVersa.DebugBus.SixBit
import ZipVersa.DebugBus.Input
import ZipVersa.DebugBus.Decoder
import ZipVersa.DebugBus.Exec
import ZipVersa.DebugBus.Codewords
import ZipVersa.DebugBus.TtyBus
import ZipVersa.DebugBus.HostForms
import ZipVersa.DebugBus.ReadCommand
import ZipVersa.DebugBus.Executor
import ZipVersa.DebugBus.WritePath
import ZipVersa.DebugBus.Fifo
import ZipVersa.DebugBus.UFifo
import ZipVersa.DebugBus.ConsolePort
import ZipVersa.DebugBus.Multiplex
import ZipVersa.DebugBus.Netuart
import ZipVersa.DebugBus.IdleInt
import ZipVersa.DebugBus.Reader
import ZipVersa.DebugBus.FlowControl
import ZipVersa.DebugBus.Compress
import ZipVersa.DebugBus.Printer
import ZipVersa.DebugBus.Lines
import ZipVersa.DebugBus.ReadWord
import ZipVersa.DebugBus.ReadIdle
import ZipVersa.DebugBus.Replies
import ZipVersa.DebugBus.ReturnPath
import ZipVersa.DebugBus.Bursts
import ZipVersa.DebugBus.Recovery
import ZipVersa.DebugBus.Uart
import ZipVersa.DebugBus.UartFrames
import ZipVersa.DebugBus.SerialLink
import ZipVersa.Board.TfrValue
import ZipVersa.Board.PicoBridge
import ZipVersa.Board.Arbiter
import ZipVersa.Board.Isolation
import ZipVersa.Fft.Device
import ZipVersa.Fft.Positions
import ZipVersa.Fft.Wbfft
import ZipVersa.Fft.Results
import ZipVersa.Flash.QFlexpress
import ZipVersa.Flash.ReadPath
import ZipVersa.Flash.ConfigPort
import ZipVersa.Flash.Driver
import ZipVersa.Net.Packet
import ZipVersa.Net.Bounds
import ZipVersa.Net.Stack
import ZipVersa.Net.Checksum
import ZipVersa.Net.RoundTrip
import ZipVersa.Net.Echo
import ZipVersa.Net.MainLoop
import ZipVersa.Net.Ownership
import ZipVersa.Net.ArpTable
import ZipVersa.Net.ArpReply
import ZipVersa.Enet.RxeIpChk
import ZipVersa.Enet.Receiver
import ZipVersa.Enet.Stages
import ZipVersa.Enet.Frame
import ZipVersa.Enet.Mdio
import ZipVersa.Enet.Oversized
import ZipVersa.Enet.RxLength
import ZipVersa.Enet.Buffer
import ZipVersa.Enet.Transmitter
import ZipVersa.Enet.TxeSpeed
import ZipVersa.Enet.TxControl
import ZipVersa.Enet.TxBusy
import ZipVersa.Enet.TxStages
import ZipVersa.Enet.CrcPackets
import ZipVersa.Enet.Trimming
import ZipVersa.Enet.CrcSerial
import ZipVersa.Enet.NetDelay
import ZipVersa.Enet.Transmit
import ZipVersa.Ddr.Controller
import ZipVersa.Ddr.Commands
import ZipVersa.Ddr.Pipes
import ZipVersa.Ddr.Schedule
import ZipVersa.Ddr.Phases
import ZipVersa.Ddr.Run
import ZipVersa.Ddr.Idle
import ZipVersa.Ddr.Legality
import ZipVersa.Ddr.Masks
import ZipVersa.Ddr.Precharge
import ZipVersa.Zlib.Udiv
import ZipVersa.Zlib.Division
import ZipVersa.Scope.Capture
import ZipVersa.Scope.Compressed
import ZipVersa.Scope.Reader
import ZipVersa.Lib.Latch
import ZipVersa.Lib.MixedRadix
import ZipVersa.Lib.Pulses
import ZipVersa.Rtc.Bcd
import ZipVersa.Rtc.Bare
import ZipVersa.Lib.Carries
import ZipVersa.Rtc.Stopwatch
import ZipVersa.Rtc.Timer
import ZipVersa.Lib.Calendar
import ZipVersa.Rtc.Date
import ZipVersa.Lib.Enabled
import ZipVersa.Lib.Rounding
import ZipVersa.Fft.ConvRound
import ZipVersa.Fft.HwBfly
import ZipVersa.Fft.Butterfly
import ZipVersa.Fft.Stage
import ZipVersa.Fft.LastStages
import ZipVersa.Lib.Dif
import ZipVersa.Fft.Core
import ZipVersa.Fft.Transform
import ZipVersa.Lib.Twiddle
import ZipVersa.Fft.Tables
import ZipVersa.Fft.Deadline
import ZipVersa.Fft.Accuracy
import ZipVersa.Lib.CarrySave
import ZipVersa.Picorv.PcpiMul
import ZipVersa.Picorv.PcpiDiv
import ZipVersa.Picorv.Pcpi
import ZipVersa.Lib.Slices
import ZipVersa.Picorv.LoadStore
import ZipVersa.Picorv.Decoder
import ZipVersa.Board.Memdev
import ZipVersa.Board.HostInterrupt
import ZipVersa.Board.Interconnect
import ZipVersa.Board.Interrupts
import ZipVersa.Board.SharedRam
import ZipVersa.Ddr.Due
import ZipVersa.Ddr.Spacing
