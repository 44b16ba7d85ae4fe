import MiniVisor.Library.Checked
import MiniVisor.Library.Runs
import MiniVisor.Library.Masks
import MiniVisor.Library.DoublyLinked
import MiniVisor.Library.RadixTree
import MiniVisor.Library.Fuel
import MiniVisor.Library.Effects
import MiniVisor.Library.AsciiCase
import MiniVisor.Library.Chains
import MiniVisor.Library.Holdings
import MiniVisor.SpinLock
import MiniVisor.Console
import MiniVisor.Vgic
import MiniVisor.GicMmio
import MiniVisor.Pl011Mmio
import MiniVisor.UartInterrupt
import MiniVisor.ControllerView
import MiniVisor.ControllerWrites
import MiniVisor.TriggerOutcomes
import MiniVisor.ControllerRegisters
import MiniVisor.Affinity
import MiniVisor.ControllerPanics
import MiniVisor.InterruptSystem
import MiniVisor.ListRegisterRuns
import MiniVisor.InterruptIsolation
import MiniVisor.ControllerDelivery
import MiniVisor.InterruptDelivery
import MiniVisor.EnableRewrites
import MiniVisor.InterruptCompletion
import MiniVisor.GicDriver
import MiniVisor.BlockNotify
import MiniVisor.BlockPanics
import MiniVisor.BlockProgress
import MiniVisor.Fat32Bounds
import MiniVisor.MemoryAllocator
import MiniVisor.AllocatorBuckets
import MiniVisor.AllocatorChain
import MiniVisor.AllocatorUse
import MiniVisor.AllocatorFree
import MiniVisor.AllocatorRuns
import MiniVisor.AllocatorSearch
import MiniVisor.AllocatorTotals
import MiniVisor.AllocatorReturns
import MiniVisor.AllocatorOverlap
import MiniVisor.AllocatorDoubleFree
import MiniVisor.AllocatorPanics
import MiniVisor.GlobalAllocator
import MiniVisor.Paging
import MiniVisor.PagingWalk
import MiniVisor.PagingMaps
import MiniVisor.PagingRuns
import MiniVisor.PagingRanges
import MiniVisor.Dtb
import MiniVisor.DeviceTree
import MiniVisor.DeviceTreeSearch
import MiniVisor.DeviceTreeQueries
import MiniVisor.DeviceTreeResume
import MiniVisor.DeviceTreeCells
import MiniVisor.DeviceTreeEnds
import MiniVisor.VirtioBlk
import MiniVisor.Fat32
import MiniVisor.Fat32Directory
import MiniVisor.Fat32Calls
import MiniVisor.Fat32Clusters
import MiniVisor.Fat32Requests
import MiniVisor.Fat32Coalescing
import MiniVisor.Fat32Reads
import MiniVisor.Fat32Writes
import MiniVisor.Fat32Links
import MiniVisor.Fat32Stretches
import MiniVisor.Fat32Termination
import MiniVisor.VirtioBlkMmio
import MiniVisor.BlockRequests
import MiniVisor.BlockOutcomes
import MiniVisor.BlockWalk
import MiniVisor.BlockIsolation
import MiniVisor.PagingFrame
import MiniVisor.VmCreation
import MiniVisor.VmIsolation
import MiniVisor.VmRegistry
import MiniVisor.MmioTraps
import MiniVisor.MmioEmulation
import MiniVisor.MmioWidths
import MiniVisor.MmioRuns
import MiniVisor.VirtioRefinement
import MiniVisor.Fat32Mount
import MiniVisor.Fat32Image
import MiniVisor.VmLoading
