import SimpleOs.Foundation.Runs
import SimpleOs.Foundation.Holders
import SimpleOs.Foundation.SlotArray
import SimpleOs.Foundation.Radix
import SimpleOs.Foundation.Custody
import SimpleOs.Foundation.Fifo
import SimpleOs.Foundation.Roster
import SimpleOs.Foundation.Granules
import SimpleOs.Foundation.Replies
import SimpleOs.Foundation.Traced
import SimpleOs.Foundation.Scan
import SimpleOs.Foundation.Conserving
import SimpleOs.Foundation.Ranking
import SimpleOs.Machine.Basic
import SimpleOs.Sched.Queue
import SimpleOs.Sched.Sched
import SimpleOs.Sched.Conservation
import SimpleOs.Sched.Policy
import SimpleOs.Sched.Rounds
import SimpleOs.Sched.BoundedFifo
import SimpleOs.Memory.Paging
import SimpleOs.Memory.Mm
import SimpleOs.Memory.PageTable
import SimpleOs.Memory.ReadBack
import SimpleOs.Memory.Entry
import SimpleOs.Memory.Memphy
import SimpleOs.Memory.SwapCopy
import SimpleOs.Memory.Regions
import SimpleOs.Memory.Disjoint
import SimpleOs.Memory.FirstFit
import SimpleOs.Memory.FrameAllocator
import SimpleOs.Memory.Vm
import SimpleOs.Memory.FlatMap
import SimpleOs.Memory.MapRange
import SimpleOs.Memory.Translation
import SimpleOs.Memory.AreaLookup
import SimpleOs.Memory.SequentialDevice
import SimpleOs.Memory.PteCodec
import SimpleOs.Memory.FrameEncoding
import SimpleOs.Memory.AddressSplit
import SimpleOs.Memory.PageCopy
import SimpleOs.Memory.OverlapCheck
import SimpleOs.Memory.PatternFill
import SimpleOs.Kernel.SysMem
import SimpleOs.Kernel.LibMem
import SimpleOs.Kernel.Unmapped
import SimpleOs.Kernel.RegionRuns
import SimpleOs.Kernel.AllocFailure
import SimpleOs.Kernel.AreaRuns
import SimpleOs.Kernel.Access
import SimpleOs.Kernel.LibCall
import SimpleOs.Kernel.MemoryLaw
import SimpleOs.Kernel.Isolation
import SimpleOs.Kernel.PageFault
import SimpleOs.Kernel.SwapOut
import SimpleOs.Kernel.Victim
import SimpleOs.Kernel.GetPage
import SimpleOs.Kernel.FrameMoves
import SimpleOs.Kernel.FrameOwnership
import SimpleOs.Kernel.Release
import SimpleOs.Kernel.FaultParity
import SimpleOs.Kernel.Residents
import SimpleOs.Kernel.PageCover
import SimpleOs.Kernel.CallerSearch
import SimpleOs.Kernel.SearchRace
import SimpleOs.Kernel.AllocSize
import SimpleOs.Kernel.Leaks
import SimpleOs.Kernel.SymbolAccess
import SimpleOs.Kernel.SymbolIndex
import SimpleOs.Kernel.DeviceBounds
import SimpleOs.Kernel.Lookup
import SimpleOs.Kernel.AccessStatus
import SimpleOs.Kernel.SearchOrder
import SimpleOs.Kernel.FreshList
import SimpleOs.System.Cpu
import SimpleOs.System.ReadDelivery
import SimpleOs.System.Os
import SimpleOs.System.Moves
import SimpleOs.System.Ownership
import SimpleOs.System.Life
import SimpleOs.System.Quantum
import SimpleOs.System.ExactlyOnce
import SimpleOs.System.RunningList
import SimpleOs.System.Shutdown
import SimpleOs.System.Timer
import SimpleOs.System.Loader
import SimpleOs.System.LoadedCalls
import SimpleOs.System.Clock
import SimpleOs.System.Slots
import SimpleOs.System.Turns
import SimpleOs.System.Arrivals
import SimpleOs.System.Workload
import SimpleOs.System.Completion
import SimpleOs.System.Pace
import SimpleOs.System.Progress
import SimpleOs.System.Halting
import SimpleOs.Foundation.Spelling
import SimpleOs.Foundation.Laps
import SimpleOs.Sched.Mlq
import SimpleOs.Sched.Sections
import SimpleOs.System.ProgramText
import SimpleOs.System.ReadConfig
import SimpleOs.System.Boot
import SimpleOs.System.Waiting
