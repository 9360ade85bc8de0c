import BbbXinu.Properties.ReadyCount
import BbbXinu.Properties.Delays
import BbbXinu.Properties.Killing
import BbbXinu.Properties.FirstCome
import BbbXinu.Properties.Accounting
import BbbXinu.Properties.CommandHistory
import BbbXinu.Properties.Checksums
import BbbXinu.Properties.IcmpQueues
import BbbXinu.Properties.IpOutput
import BbbXinu.Properties.TerminalOutput
import BbbXinu.Properties.UdpQueues
import BbbXinu.Properties.MalformedPackets
import BbbXinu.Properties.RemoteBuffers
import BbbXinu.Properties.RemoteRequests
import BbbXinu.Properties.RemoteBlocks
import BbbXinu.Properties.FreeTotal
import BbbXinu.Properties.FitPolicy
import BbbXinu.Properties.ClearedBlockers
import BbbXinu.Properties.ShellWaits
import BbbXinu.Properties.RawInput
import BbbXinu.Properties.AddressResolution
import BbbXinu.Properties.Downloads
import BbbXinu.Properties.Formatting
import BbbXinu.Properties.ShortestFirst
import BbbXinu.Properties.DebugMask
import BbbXinu.Properties.SetCommand
import BbbXinu.Properties.AccessModes
import BbbXinu.Properties.RemoteOpen
import BbbXinu.Properties.RequestNames
import BbbXinu.Properties.DottedDecimal
import BbbXinu.Properties.DnsAnswers
import BbbXinu.Properties.InitialNames
import BbbXinu.Properties.DhcpOptions
import BbbXinu.Properties.DhcpRelease
import BbbXinu.Properties.InterruptMasks
import BbbXinu.Properties.FailedCommands
import BbbXinu.Properties.CookedReads
import BbbXinu.Properties.Calendar
import BbbXinu.Properties.MarkedMemory
import BbbXinu.Properties.PortCapacity
import BbbXinu.Properties.FormatItems
import BbbXinu.Properties.Sorting
import BbbXinu.Properties.ScannedNumbers
import BbbXinu.Properties.ScanFormats
import BbbXinu.Properties.DeviceAttributes
import BbbXinu.Properties.DeltaQueue
import BbbXinu.Properties.QueueTable
import BbbXinu.Properties.PooledBuffers
import BbbXinu.Properties.PortRuns
