import Ns3.Lte.Asn1RoundTrip
import Ns3.Nr.GnbMac.SharedStatics
import Ns3.Nr.Phy.PacketBurst
import Ns3.Nr.Phy.TddPattern
import Ns3.Nr.Sched.HarqTable
import Ns3.Nr.Sched.HarqUl
import Ns3.Nr.Sched.Ofdma
import Ns3.Lib.Stack
import Ns3.Nr.Sched.Tdma
import Ns3.Nr.Sched.HarqUlCount
import Ns3.Nr.Sched.UlSlot
import Ns3.Nr.Sched.UlPhases
import Ns3.Nr.Sched.UlAccount
import Ns3.Nr.Sched.DlData
import Ns3.Nr.Sched.DlSlot
import Ns3.Nr.Sched.Lcg
import Ns3.Nr.Sched.Srs
import Ns3.Nr.RandomAccess
import Ns3.Nr.UeMac.Mac
import Ns3.Nr.UeMac.SrMachine
import Ns3.Lib.Rota
import Ns3.Lib.Family
import Ns3.Nr.UeMac.GrantPackets
import Ns3.Lib.Window
import Ns3.Network.Heap
import Ns3.Network.Buffer
import Ns3.Network.BufferBytes
import Ns3.Network.BufferGrow
import Ns3.Network.BufferOps
import Ns3.Network.BufferFamily
import Ns3.Lib.Bits
import Ns3.Lib.Reassembly
import Ns3.Lte.RlcHeader
import Ns3.Lte.Segmentation
import Ns3.Lte.SduReassembly
import Ns3.Lib.OrderedMap
import Ns3.Lte.RlcUm
import Ns3.Lte.RlcUmSender
import Ns3.Lte.RlcUmWindow
import Ns3.Lte.RlcUmReceiver
import Ns3.Lte.RlcUmDelivery
import Ns3.Core.Scheduler
import Ns3.Lib.BinaryHeap
import Ns3.Core.HeapScheduler
import Ns3.Lte.RlcUmReport
import Ns3.Core.ListScheduler
import Ns3.Core.DefaultSimulatorImpl
import Ns3.Core.SimulatorRun
import Ns3.Internet.TcpRxBuffer
import Ns3.Lib.Intervals
import Ns3.Internet.TcpRxSteps
import Ns3.Internet.TcpRxRun
import Ns3.Nr.Sched.AssignBytes
import Ns3.Nr.Sched.LcgAssigned
import Ns3.Nr.UeMac.ByteBudget
import Ns3.Nr.UeMac.TxOffers
import Ns3.Nr.Sched.TdmaPlacement
import Ns3.Nr.Sched.OfdmaDlPlacement
import Ns3.Wifi.BlockAckWindow
import Ns3.Wifi.RecipientBlockAck
import Ns3.Wifi.Scoreboard
import Ns3.Wifi.RecipientReorder
import Ns3.Wifi.RecipientRun
import Ns3.Wifi.RecipientFlush
import Ns3.Lib.FirstFit
import Ns3.Nr.Sched.DlHarqPlacement
import Ns3.Internet.CandidateQueue
import Ns3.Internet.GlobalRouteManager
import Ns3.Lib.ShortestPaths
import Ns3.Internet.NextHops
import Ns3.Internet.SpfCandidates
import Ns3.Internet.SpfTree
import Ns3.Internet.RootExits
import Ns3.Internet.ShortestPathFirst
import Ns3.Wifi.BlockAckFrame
import Ns3.Wifi.BlockAckMarks
import Ns3.Wifi.CompressedBlockAck
import Ns3.Wifi.Originator
import Ns3.Wifi.OriginatorWindow
import Ns3.Wifi.OriginatorSteps
import Ns3.Wifi.BlockAckExchange
import Ns3.Wifi.AcknowledgedReceived
import Ns3.Wifi.InFlightRun
import Ns3.Wifi.OriginatorCalls
import Ns3.Core.SchedulerAgreement
import Ns3.Core.SetScheduler
import Ns3.Core.CalendarScheduler
import Ns3.Core.CalendarQueue
import Ns3.Core.CalendarRun
import Ns3.Nr.Phy.TddTables
import Ns3.Nr.Sched.BufferStatus
import Ns3.Lte.RlcAmHeader
import Ns3.Lte.RlcAmStatus
import Ns3.Lte.RlcUmNumbers
import Ns3.Lte.DataFieldFits
import Ns3.Lte.RlcAm
import Ns3.Lte.InSequence
import Ns3.Lte.SegmentationFits
import Ns3.Lte.RlcAmSender
import Ns3.Nr.Sched.CgrRequests
import Ns3.Nr.Sched.RrFairness
import Ns3.Lib.Groups
import Ns3.Nr.Sched.ActiveUe
import Ns3.Nr.Sched.EmptyDemand
import Ns3.Internet.Ipv4Fragmentation
import Ns3.Internet.Ipv4Reassembly
import Ns3.Internet.Ipv4ReassemblyRun
import Ns3.Internet.TcpTxBuffer
import Ns3.Internet.TcpTxNextSeg
import Ns3.Internet.TcpTxItems
import Ns3.Internet.TcpTxCounts
import Ns3.Internet.TcpTxScoreboard
import Ns3.Internet.TcpTxDiscard
import Ns3.Internet.TcpTxRun
import Ns3.Internet.TcpTxPipe
import Ns3.Internet.TcpTxCopy
import Ns3.Internet.TcpTxHighest
import Ns3.Internet.TcpTxLost
import Ns3.Lib.MergedSpans
import Ns3.Internet.TcpRxSack
import Ns3.Lib.Words
import Ns3.Network.NixVector
import Ns3.Network.NixStack
import Ns3.Lib.NetworkOrder
import Ns3.Lib.OnesComplement
import Ns3.Internet.IpChecksum
import Ns3.Internet.Ipv4Header
import Ns3.Internet.TcpOption
import Ns3.Internet.TcpHeader
import Ns3.Internet.TcpHeaderRoundTrip
import Ns3.Internet.TcpOptionLoop
import Ns3.Network.BufferAccess
import Ns3.Network.BufferConfined
import Ns3.Network.BufferRange
import Ns3.Lib.LimitedWriter
import Ns3.Network.PacketSerialize
import Ns3.Network.PacketSerializeBounds
import Ns3.Lib.Leb128
import Ns3.Network.PacketMetadata
import Ns3.Network.PacketMetadataItems
import Ns3.Internet.Ipv4StaticRouting
import Ns3.Internet.Ipv4StaticLookup
import Ns3.Core.Int64x64
import Ns3.Core.Int64x64Mul
import Ns3.Lib.LongDivision
import Ns3.Core.Int64x64Div
import Ns3.Core.Int64x64Invert
import Ns3.Nr.Sched.UlSizing
import Ns3.Wifi.Defragmentation
import Ns3.Mpi.LocalSimulator
import Ns3.Mpi.DistributedSimulatorImpl
import Ns3.Mpi.TimeWindow
import Ns3.Mpi.GlobalFinish
import Ns3.Lib.Promises
import Ns3.Mpi.NullMessageSimulatorImpl
import Ns3.Mpi.NullMessageRank
import Ns3.Mpi.NullMessageTurns
import Ns3.Mpi.NullMessageEvents
import Ns3.Mpi.Guarantees
import Ns3.Mpi.NullMessageProgress
