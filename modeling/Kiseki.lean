import Kiseki.Chunk.CrashSafety
import Kiseki.Chunk.DurableRefcount
import Kiseki.Composition.Compaction
import Kiseki.Composition.ConditionalCreate
import Kiseki.Composition.Confluence
import Kiseki.Composition.ReadCache
import Kiseki.Fabric.Periodic
import Kiseki.Fabric.Placement
import Kiseki.Fabric.Redundancy
import Kiseki.Fabric.SlabGc
import Kiseki.Gateway.DecryptCache
import Kiseki.Gateway.Multipart
import Kiseki.Gateway.OpenCycle
import Kiseki.Gateway.Topology
import Kiseki.Gateway.Versioning
import Kiseki.Hlc
import Kiseki.Intent.FanCoalescer
import Kiseki.Intent.LiveCount
import Kiseki.Intent.Pipeline
import Kiseki.Intent.StoreAgreement
import Kiseki.KeyManager.Epochs
import Kiseki.Log.Advance
import Kiseki.Log.ChunkState
import Kiseki.Log.InlineIsolation
import Kiseki.Log.MemSplit
import Kiseki.Log.Replay
import Kiseki.Raft.Durability
import Kiseki.Raft.Interleaving
import Kiseki.Restart
