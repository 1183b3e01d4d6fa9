import NtapiExamples.Lib.Run
import NtapiExamples.Lib.Bits
import NtapiExamples.Lib.LinkedSeg
import NtapiExamples.Lib.Count
import NtapiExamples.Ntnetflow.FlowKey
import NtapiExamples.Ntnetflow.FlowInfo
import NtapiExamples.Ntnetflow.FlowTable
import NtapiExamples.Ntnetflow.FlowTableSpec
import NtapiExamples.Ntnetflow.FlowTableSlots
import NtapiExamples.Ntnetflow.FlowTableChains
import NtapiExamples.Ntnetflow.FlowTableSteps
import NtapiExamples.Ntnetflow.FlowTableLive
import NtapiExamples.Ntnetflow.FlowTableLookup
import NtapiExamples.Ntnetflow.FlowTableInit
import NtapiExamples.Ntnetflow.FlowTableRuns
import NtapiExamples.Ntnetflow.FlowTableThreads
import NtapiExamples.Ntnetflow.FlowTableInterleave
import NtapiExamples.Ntnetflow.Rx
import NtapiExamples.Ntnetflow.TaggedFlow
import NtapiExamples.Ntnetflow.FlowLearn
import NtapiExamples.Ntnetflow.FlowLearnTable
import NtapiExamples.Ntnetflow.FlowLearnFlags
import NtapiExamples.Ntnetflow.FlowLearnInv
import NtapiExamples.Ntnetflow.FlowLearnRing
import NtapiExamples.Ntnetflow.PollList
import NtapiExamples.Ntnetflow.RefBalance
import NtapiExamples.Ntnetflow.Pending
import NtapiExamples.Ntnetflow.MissLearnt
import NtapiExamples.Ntnetflow.MpmcQueue
import NtapiExamples.Ntnetflow.MpmcWake
import NtapiExamples.FilterDaemon.IPAddress
import NtapiExamples.Lib.KeySet
import NtapiExamples.FilterDaemon.FileHandler
import NtapiExamples.FilterDaemon.InStep
import NtapiExamples.AddrswapReplay.Btree
import NtapiExamples.AddrswapReplay.SubstParse
import NtapiExamples.AddrswapReplay.SubstituteIP
import NtapiExamples.AddrswapReplay.Replay
import NtapiExamples.BoundaryReplay.FileData
import NtapiExamples.BoundaryReplay.ReplayData
import NtapiExamples.Ntapi.Usage
import NtapiExamples.BufferProfile.StreamStats
import NtapiExamples.BufferProfile.Alert
import NtapiExamples.BufferProfile.Backlog
import NtapiExamples.BufferProfile.BacklogRuns
import NtapiExamples.BufferProfile.OutputStats
import NtapiExamples.HbMonitor.StreamStats
import NtapiExamples.HbMonitor.Rows
import NtapiExamples.FilterDaemon.WatchFile
import NtapiExamples.Ntnetflow.FlowTableFailed
import NtapiExamples.Ntnetflow.FlowTableAccount
import NtapiExamples.Ntnetflow.BucketChain
import NtapiExamples.Ntnetflow.BucketFreeing
import NtapiExamples.Ntnetflow.BucketSteps
import NtapiExamples.Ntnetflow.BucketRuns
import NtapiExamples.Ntnetflow.BucketRemoves
import NtapiExamples.Ntnetflow.BucketProtocol
import NtapiExamples.Ntnetflow.FlowTableIntact
import NtapiExamples.Ntnetflow.FlowTableVisit
import NtapiExamples.Ntnetflow.SlotReuse
import NtapiExamples.Lib.RingTick
import NtapiExamples.Ntnetflow.PollTick
import NtapiExamples.Ntnetflow.CommandOnce
import NtapiExamples.Ntnetflow.SkipBalance
import NtapiExamples.Ntnetflow.MpmcWait
import NtapiExamples.Ntnetflow.FlowActivity
import NtapiExamples.Ntnetflow.FlowAccount
import NtapiExamples.Lib.Replace
import NtapiExamples.Ntnetflow.Ntpl
import NtapiExamples.Ntnetflow.NtplReplace
import NtapiExamples.Ntnetflow.NtplNames
import NtapiExamples.Lib.Gaps
import NtapiExamples.Ntnetflow.Info
import NtapiExamples.Ntnetflow.StreamsUnused
import NtapiExamples.FilterDaemon.Creations
import NtapiExamples.FilterDaemon.FilterLine
import NtapiExamples.AddrswapReplay.TransmitTime
import NtapiExamples.BoundaryReplay.StartTime
import NtapiExamples.BoundaryReplay.Await
import NtapiExamples.BoundaryReplay.FileLength
import NtapiExamples.AddrswapReplay.ChecksumOffsets
import NtapiExamples.AddrswapReplay.BtreeMap
import NtapiExamples.AddrswapReplay.HeaderWalk
import NtapiExamples.AddrswapReplay.SubstReject
import NtapiExamples.HbMonitor.StreamScan
import NtapiExamples.Ntapi.FillRange
import NtapiExamples.HbMonitor.FillLevels
import NtapiExamples.Lib.Snprintf
import NtapiExamples.Ntnetflow.StatsCsv
import NtapiExamples.BufferProfile.NullFile
import NtapiExamples.Lib.DueList
import NtapiExamples.Ntnetflow.CanonicalKey
import NtapiExamples.Ntnetflow.PollOps
import NtapiExamples.Ntnetflow.PollSorted
import NtapiExamples.AddrswapReplay.PrintIP
import NtapiExamples.Ntnetflow.NtplMacros
import NtapiExamples.Lib.Fifo
import NtapiExamples.Ntnetflow.MpmcHistory
import NtapiExamples.Ntnetflow.MpmcContents
import NtapiExamples.AddrswapReplay.BtreeHeap
import NtapiExamples.AddrswapReplay.BtreeRefines
import NtapiExamples.Ntnetflow.Main
import NtapiExamples.Ntnetflow.MainLives
import NtapiExamples.Ntnetflow.MainStarted
import NtapiExamples.Argparse.InPlace
import NtapiExamples.Argparse.Meaning
import NtapiExamples.Argparse.RoundTrip
import NtapiExamples.AddrswapReplay.ReplayDelivers
import NtapiExamples.FilterDaemon.Daemon
import NtapiExamples.AddrswapReplay.ReplayEnds
