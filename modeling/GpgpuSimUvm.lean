import GpgpuSimUvm.Types
import GpgpuSimUvm.LpTree
import GpgpuSimUvm.Gpu
import GpgpuSimUvm.GlobalMem
import GpgpuSimUvm.Policy
import GpgpuSimUvm.Eviction
import GpgpuSimUvm.Prefetch
import GpgpuSimUvm.Cycle
import GpgpuSimUvm.LdstUnit
import GpgpuSimUvm.System
import GpgpuSimUvm.Frames
import GpgpuSimUvm.TreeShape
import GpgpuSimUvm.TreeLaws
import GpgpuSimUvm.PageTable
import GpgpuSimUvm.Migrations
import GpgpuSimUvm.TlbLaws
import GpgpuSimUvm.HwThreads
import GpgpuSimUvm.PostDominators
import GpgpuSimUvm.SimtStack
import GpgpuSimUvm.SimtThreads
import GpgpuSimUvm.AccessWords
import GpgpuSimUvm.FetchOrder
import GpgpuSimUvm.AccessQueue
import GpgpuSimUvm.FetchLedger
import GpgpuSimUvm.FetchPages
import GpgpuSimUvm.Translation
import GpgpuSimUvm.Allocators
import GpgpuSimUvm.TagArray
import GpgpuSimUvm.DataCache
import GpgpuSimUvm.Victims
import GpgpuSimUvm.Mshrs
import GpgpuSimUvm.DirtyLines
import GpgpuSimUvm.Arbitration
import GpgpuSimUvm.BarrierReleases
import GpgpuSimUvm.Dram
import GpgpuSimUvm.DramScheduling
import GpgpuSimUvm.DramTiming
import GpgpuSimUvm.AddrDec
import GpgpuSimUvm.AddrSlices
import GpgpuSimUvm.AddrGaps
import GpgpuSimUvm.MajorityTrees
import GpgpuSimUvm.TreeFill
import GpgpuSimUvm.TreeRemove
import GpgpuSimUvm.CryptoTransfer
import GpgpuSimUvm.TransferShares
import GpgpuSimUvm.CText
import GpgpuSimUvm.Checkpoint
import GpgpuSimUvm.CheckpointLaws
import GpgpuSimUvm.Selection
import GpgpuSimUvm.TurnSplits
import GpgpuSimUvm.InOrder
import GpgpuSimUvm.Streams
import GpgpuSimUvm.StreamOrder
import GpgpuSimUvm.StreamEnds
import GpgpuSimUvm.StreamRuns
import GpgpuSimUvm.PrefetchChunks
import GpgpuSimUvm.PrefetchRuns
import GpgpuSimUvm.PrefetchServed
import GpgpuSimUvm.FunctionalMemory
import GpgpuSimUvm.Bitset
import GpgpuSimUvm.Sectors
import GpgpuSimUvm.AccessPatterns
import GpgpuSimUvm.AccessRecords
import GpgpuSimUvm.AllocationTiles
import GpgpuSimUvm.Tiling
import GpgpuSimUvm.BasicBlocks
import GpgpuSimUvm.Dominance
import GpgpuSimUvm.DominanceLaws
import GpgpuSimUvm.Reconvergence
import GpgpuSimUvm.BlockCuts
import GpgpuSimUvm.BlockRuns
import GpgpuSimUvm.BlockEdges
import GpgpuSimUvm.BlockPartition
import GpgpuSimUvm.Coalescing
import GpgpuSimUvm.AtomicCoalescing
import GpgpuSimUvm.SerialisedAtomics
import GpgpuSimUvm.ClockDomains
import GpgpuSimUvm.Grids
import GpgpuSimUvm.FifoOrder
import GpgpuSimUvm.PolynomialRemainders
import GpgpuSimUvm.IpolyHash
import GpgpuSimUvm.SetIndex
import GpgpuSimUvm.SearchTrees
import GpgpuSimUvm.CtaStreams
import GpgpuSimUvm.OperandArbiter
import GpgpuSimUvm.CoalescedBytes
import GpgpuSimUvm.PrefetchLaw
import GpgpuSimUvm.AcceptedFunctions
import GpgpuSimUvm.CrossbarWaits
import GpgpuSimUvm.ResidentPages
import GpgpuSimUvm.TexCacheRuns
import GpgpuSimUvm.RegisterHazards
import GpgpuSimUvm.CtaRuns
