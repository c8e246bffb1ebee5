import Kiseki.Intent.Store
import Kiseki.Log.Trace
import Kiseki.Log.Watermark

namespace Kiseki.Log
open Intent

inductive LogError where
  | shardNotFound (shardId : ShardId)
  | maintenanceMode (shardId : ShardId)
  | leaderUnavailable (shardId : ShardId)
  | quorumLost (shardId : ShardId)
  | keyOutOfRange (shardId : ShardId)
  | invalidRange (shardId : ShardId)
  | deltaLogPruned (shardId : ShardId) (gcBoundary : Nat)
  | unavailable
deriving DecidableEq, Repr

def ShardState.acceptsWrites : ShardState → Bool
  | .healthy | .splitting | .merging => true
  | _ => false

/-- `[range_start, range_end)`; byte arrays are compared byte by byte from the front. -/
def InRange (rangeStart rangeEnd key : Key32) : Prop :=
  ¬(key.toList < rangeStart.toList ∨ ¬key.toList < rangeEnd.toList)

instance (rangeStart rangeEnd key : Key32) : Decidable (InRange rangeStart rangeEnd key) :=
  inferInstanceAs (Decidable (¬_))

def deltaArgsOf (req : AppendDeltaRequest) : DeltaArgs where
  tenantIdBytes := req.tenantId.uuid
  operation := opToU8 req.operation
  hashedKey := req.hashedKey
  chunkRefs := req.chunkRefs.map ChunkId.bytes
  payload := req.payload
  hasInlineData := req.hasInlineData

/-- The request that appends a delta again, to a shard. -/
def Delta.requestFor (d : Delta) (target : ShardId) : AppendDeltaRequest where
  shardId := target
  tenantId := d.header.tenantId
  operation := d.header.operation
  timestamp := d.header.timestamp
  hashedKey := d.header.hashedKey
  chunkRefs := d.header.chunkRefs
  payload := d.payload.ciphertext
  hasInlineData := d.header.hasInlineData

section
variable (s : ShardSmInner)

/-- The leader's check, proposal and apply at a log index. -/
def ShardSmInner.appendDelta (req : AppendDeltaRequest) (logIndex nowMs : Nat) :
    ShardSmInner × Except LogError Nat :=
  if s.maintenance then (s, .error (.maintenanceMode s.shardId))
  else
    match s.applyCommandAt (.appendDelta (deltaArgsOf req)) logIndex nowMs with
    | (s, .appended seq) => (s, .ok seq)
    | (s, _) => (s, .error .unavailable)

def ShardSmInner.reconstruct (d : Delta) : Delta :=
  if d.header.hasInlineData ∧ d.payload.ciphertext = [] then
    match s.inlineStore.bind fun store =>
      store.lookup (deriveInlineKey d.header.hashedKey d.header.sequence) with
    | some data => { d with payload := { d.payload with ciphertext := data } }
    | none => d
  else d

def ShardSmInner.readDeltas (first last : Nat) : Except LogError (List Delta) :=
  if first > last then .error (.invalidRange s.shardId)
  else
    let found := s.deltas.dropWhile fun d => decide (d.header.sequence < first)
    .ok ((found.takeWhile fun d => decide (d.header.sequence ≤ last)).map s.reconstruct)

def ShardSmInner.gcBoundary : Nat :=
  s.watermarks.gcBoundary.getD 0

/-- `truncate_log` of the Raft-backed store, local to one replica. -/
def ShardSmInner.truncateLog : ShardSmInner × Nat :=
  let keys := (s.deltas.filter fun d =>
    decide (d.header.sequence < s.gcBoundary) && d.header.hasInlineData).map fun d =>
      deriveInlineKey d.header.hashedKey d.header.sequence
  ({ s with
      inlineStore := s.inlineStore.map fun store => store.deleteMany keys
      deltas := s.deltas.filter fun d => decide (s.gcBoundary ≤ d.header.sequence) }, s.gcBoundary)

end

/-- The fields of `ShardInfo` that change, deltas, watermarks and truncation. -/
structure MemShard where
  shardId : ShardId
  tenantId : OrgId
  tip : Nat := 0
  deltaCount : Nat := 0
  byteSize : Nat := 0
  state : ShardState := .healthy
  config : ShardConfig
  rangeStart : Key32 := .replicate 32 0
  rangeEnd : Key32 := .replicate 32 0xFF
  deltas : List Delta := []
  watermarks : ConsumerWatermarks := ∅
  gcFloor : Nat := 0

structure MemShardStore where
  shards : Finmap fun _ : ShardId => MemShard := ∅
  inlineStore : Option InlineMap := none
  splitTargets : Finmap fun _ : ShardId => ShardId := ∅
  splitBuffer : Finmap fun _ : ShardId => List AppendDeltaRequest := ∅

namespace MemShardStore

section
variable (m : MemShardStore)

def createShard (shardId : ShardId) (tenantId : OrgId) (config : ShardConfig) :
    MemShardStore :=
  if shardId ∈ m.shards then m
  else
    let shard : MemShard := { shardId := shardId, tenantId := tenantId, config := config }
    { m with shards := m.shards.insert shardId shard }

def setShardState (shardId : ShardId) (state : ShardState) : MemShardStore :=
  match m.shards.lookup shardId with
  | some shard => { m with shards := m.shards.insert shardId { shard with state := state } }
  | none => m

def updateShardRange (shardId : ShardId) (rangeStart rangeEnd : Key32) :
    MemShardStore :=
  match m.shards.lookup shardId with
  | some shard =>
    let shard := { shard with rangeStart := rangeStart, rangeEnd := rangeEnd }
    { m with shards := m.shards.insert shardId shard }
  | none => m

def rejects (shardId : ShardId) : ShardState → Option LogError
  | .maintenance | .retiring => some (.maintenanceMode shardId)
  | .election => some (.leaderUnavailable shardId)
  | .quorumLost => some (.quorumLost shardId)
  | .healthy | .splitting | .merging => none

/-- In the in-memory store the request's stamp is kept. -/
def deltaOf (req : AppendDeltaRequest) (sequence : Nat) (offloaded : Bool) : Delta where
  header := {
    sequence := sequence
    shardId := req.shardId
    tenantId := req.tenantId
    operation := req.operation
    timestamp := req.timestamp
    hashedKey := req.hashedKey
    tombstone := decide (req.operation = .delete)
    chunkRefs := req.chunkRefs
    payloadSize := req.payload.length % 2 ^ 32
    hasInlineData := req.hasInlineData }
  payload := {
    ciphertext := if offloaded then [] else req.payload
    authTag := []
    nonce := []
    systemEpoch := none
    tenantEpoch := none
    tenantWrappedMaterial := [] }

/-- An inline payload goes to the inline store, where there is one. -/
def append (shard : MemShard) (req : AppendDeltaRequest) :
    MemShardStore × Except LogError Nat :=
  let seq := shard.tip + 1
  let offloaded := req.hasInlineData && m.inlineStore.isSome
  let shard :=
    { shard with
      tip := seq
      deltaCount := shard.deltaCount + 1
      byteSize := shard.byteSize + req.payload.length % 2 ^ 32 + 128
      deltas := shard.deltas ++ [deltaOf req seq offloaded] }
  let inlineStore :=
    if offloaded then
      m.inlineStore.map fun store => store.insert (deriveInlineKey req.hashedKey seq) req.payload
    else m.inlineStore
  ({ m with shards := m.shards.insert req.shardId shard, inlineStore := inlineStore }, .ok seq)

/-- A splitting shard buffers out-of-range writes and answers `SequenceNumber::BUFFERED`. -/
def appendDelta (req : AppendDeltaRequest) :
    MemShardStore × Except LogError Nat :=
  match m.shards.lookup req.shardId with
  | none => (m, .error (.shardNotFound req.shardId))
  | some shard =>
    match rejects req.shardId shard.state with
    | some e => (m, .error e)
    | none =>
      if InRange shard.rangeStart shard.rangeEnd req.hashedKey then m.append shard req
      else if shard.state = .splitting ∧ req.shardId ∈ m.splitTargets then
        let buffered := (m.splitBuffer.lookup req.shardId).getD []
        ({ m with splitBuffer := m.splitBuffer.insert req.shardId (buffered ++ [req]) },
          .ok u64Max)
      else (m, .error (.keyOutOfRange req.shardId))

def updateWatermarks (shardId : ShardId)
    (f : ConsumerWatermarks → ConsumerWatermarks) : MemShardStore × Except LogError Unit :=
  match m.shards.lookup shardId with
  | none => (m, .error (.shardNotFound shardId))
  | some shard =>
    let shard := { shard with watermarks := f shard.watermarks }
    ({ m with shards := m.shards.insert shardId shard }, .ok ())

def registerConsumer (shardId : ShardId) (consumer : String)
    (position : Nat) : MemShardStore × Except LogError Unit :=
  m.updateWatermarks shardId fun w => w.register consumer position

def advanceWatermark (shardId : ShardId) (consumer : String)
    (position : Nat) : MemShardStore × Except LogError Unit :=
  if position = u64Max then (m, .error (.invalidRange shardId))
  else m.updateWatermarks shardId fun w => w.advance consumer position

def truncateLog (shardId : ShardId) : MemShardStore × Except LogError Nat :=
  match m.shards.lookup shardId with
  | none => (m, .error (.shardNotFound shardId))
  | some shard =>
    let boundary := shard.watermarks.gcBoundary.getD 0
    let keys := (shard.deltas.filter fun d =>
      decide (d.header.sequence < boundary) && d.header.hasInlineData).map fun d =>
        deriveInlineKey d.header.hashedKey d.header.sequence
    let shard :=
      { shard with
        deltas := shard.deltas.filter fun d => decide (boundary ≤ d.header.sequence)
        gcFloor := boundary }
    ({ m with
        shards := m.shards.insert shardId shard
        inlineStore := m.inlineStore.map fun store => store.deleteMany keys }, .ok boundary)

def gcBoundary (shardId : ShardId) : Except LogError Nat :=
  match m.shards.lookup shardId with
  | none => .error (.shardNotFound shardId)
  | some shard => .ok shard.gcFloor

end

end MemShardStore

end Kiseki.Log
