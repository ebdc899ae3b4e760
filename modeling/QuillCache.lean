import QuillCache.Lib.Bits
import QuillCache.Lib.Exec
import QuillCache.Lib.Links
import QuillCache.Lib.Tiling
import QuillCache.Lib.Table
import QuillCache.Lib.Binary64
import QuillCache.Lib.Threads
import QuillCache.Lib.Slices
import QuillCache.Lib.Frames
import QuillCache.Lib.PrefixCode
import QuillCache.Lib.Patch
import QuillCache.Lib.Buckets
import QuillCache.Lib.Ranked
import QuillCache.Lib.WordMap
import QuillCache.Store.Alloc.SmallFloat
import QuillCache.Store.Alloc.Core
import QuillCache.Store.Alloc.CoreBins
import QuillCache.Store.Alloc.CoreRep
import QuillCache.Store.Alloc.CoreInv
import QuillCache.Store.Alloc.CoreAlloc
import QuillCache.Store.Alloc.CoreReserve
import QuillCache.Store.Alloc.CoreRun
import QuillCache.Store.Alloc.Offset
import QuillCache.Store.Alloc.OffsetSpec
import QuillCache.Store.Alloc.OffsetRange
import QuillCache.Store.Alloc.BufferSpec
import QuillCache.Store.Types
import QuillCache.Store.Segments
import QuillCache.Store.SegmentsSpec
import QuillCache.Store.Master
import QuillCache.Store.MasterView
import QuillCache.Store.MasterGuarded
import QuillCache.Store.MasterRun
import QuillCache.Store.MasterSerial
import QuillCache.Store.Client
import QuillCache.Store.MasterHistory
import QuillCache.Store.InFlight
import QuillCache.Core.Block
import QuillCache.Core.Conductor
import QuillCache.Core.MemoryIndex
import QuillCache.Store.Logs
import QuillCache.Store.LocalKv
import QuillCache.Store.DiskTier
import QuillCache.Store.DiskHistory
import QuillCache.Store.PoolBytes
import QuillCache.Store.DataPlane
import QuillCache.Store.DataPlaneRun
import QuillCache.Store.DataPlaneRoom
import QuillCache.Store.DataPlaneBytes
import QuillCache.Core.Control
import QuillCache.Core.Mirror
import QuillCache.Core.Chains
import QuillCache.Core.Forget
import QuillCache.Core.IndexKeys
import QuillCache.Core.PersistentIndex
import QuillCache.Store.RegexRead
import QuillCache.Transfer.SegmentServer
import QuillCache.Transfer.Layers
import QuillCache.Transfer.Engine
import QuillCache.Gateway.Shape
import QuillCache.Gateway.Chunks
import QuillCache.Gateway.Load
import QuillCache.Store.Alloc.CoreBytes
import QuillCache.Store.RealClient
import QuillCache.Store.Placement
import QuillCache.Store.Intact
import QuillCache.Store.Eviction
import QuillCache.Store.Upsert
import QuillCache.Store.Batch
import QuillCache.Store.Life
import QuillCache.Store.Sessions
import QuillCache.Store.Recovery
import QuillCache.Store.Snapshot
import QuillCache.Store.Replay
import QuillCache.Store.ReplaySerial
import QuillCache.Store.LogTrail
import QuillCache.Store.LogRace
import QuillCache.Store.Lease
import QuillCache.Store.Decisions
import QuillCache.Store.LeaseRace
import QuillCache.Bridge.Connector
import QuillCache.Lib.Extrema
import QuillCache.Core.Router
import QuillCache.Core.Policies
import QuillCache.Core.Plan
import QuillCache.Core.Replication
import QuillCache.Core.Pricing
import QuillCache.Core.Admission
import QuillCache.Gateway.Affinity
import QuillCache.Store.Abort
import QuillCache.Store.Tiers
import QuillCache.Store.TierFault
import QuillCache.Lib.Registry
import QuillCache.Store.Lifecycle
import QuillCache.Lib.Locks
import QuillCache.Store.LockOrder
import QuillCache.Store.CountMinSketch
