import Kiseki.Common

namespace Kiseki.Log

inductive OperationType where
  | create
  | update
  | delete
  | rename
  | setAttribute
  | finalize
  | namespaceCreate
  | migrateChunkLocations
deriving DecidableEq, Repr

def opToU8 : OperationType → UInt8
  | .create => 0
  | .update => 1
  | .delete => 2
  | .rename => 3
  | .setAttribute => 4
  | .finalize => 5
  | .namespaceCreate => 6
  | .migrateChunkLocations => 7

def u8ToOp (v : UInt8) : OperationType :=
  if v = 0 then .create
  else if v = 1 then .update
  else if v = 2 then .delete
  else if v = 3 then .rename
  else if v = 4 then .setAttribute
  else if v = 5 then .finalize
  else if v = 6 then .namespaceCreate
  else .migrateChunkLocations

lemma u8ToOp_opToU8 (op : OperationType) : u8ToOp (opToU8 op) = op := by
  cases op <;> rfl

structure DeltaHeader where
  sequence : Nat
  shardId : ShardId
  tenantId : OrgId
  operation : OperationType
  timestamp : DeltaTimestamp
  hashedKey : Key32
  tombstone : Bool
  chunkRefs : List ChunkId
  payloadSize : Nat
  hasInlineData : Bool
deriving DecidableEq, Repr

structure DeltaPayload where
  ciphertext : Bytes
  authTag : Bytes
  nonce : Bytes
  systemEpoch : Option Nat
  tenantEpoch : Option Nat
  tenantWrappedMaterial : Bytes
deriving DecidableEq, Repr

structure Delta where
  header : DeltaHeader
  payload : DeltaPayload
deriving DecidableEq, Repr

inductive ShardState where
  | healthy
  | election
  | quorumLost
  | splitting
  | merging
  | retiring
  | maintenance
deriving DecidableEq, Repr

def ShardState.asU8 : ShardState → UInt8
  | .healthy => 0
  | .election => 1
  | .quorumLost => 2
  | .splitting => 3
  | .merging => 4
  | .retiring => 5
  | .maintenance => 6

def ShardState.fromU8 (b : UInt8) : Option ShardState :=
  if b = 0 then some .healthy
  else if b = 1 then some .election
  else if b = 2 then some .quorumLost
  else if b = 3 then some .splitting
  else if b = 4 then some .merging
  else if b = 5 then some .retiring
  else if b = 6 then some .maintenance
  else none

lemma ShardState.fromU8_asU8 (s : ShardState) : fromU8 s.asU8 = some s := by
  cases s <;> rfl

structure ShardConfig where
  maxDeltaCount : Nat := 10000000
  maxByteSize : Nat := 10 * 1024 * 1024 * 1024
  inlineThresholdBytes : Nat := 4096
  inlineFloorBytes : Nat := 128
  inlineCeilingBytes : Nat := 65536
deriving DecidableEq, Repr

abbrev ConsumerWatermarks := Finmap fun _ : String => Nat

def ConsumerWatermarks.advance (w : ConsumerWatermarks) (consumer : String) (position : Nat) :
    ConsumerWatermarks :=
  match w.lookup consumer with
  | some entry => if position > entry then w.insert consumer position else w
  | none => w.insert consumer position

/-- The minimum over all consumers; `none` when no consumer is registered. -/
def ConsumerWatermarks.gcBoundary (w : ConsumerWatermarks) : Option Nat :=
  (w.entries.map Sigma.snd).toFinset.min

structure NewChunkMeta where
  chunkId : Key32
  placement : List Nat
  originalLen : Nat
deriving DecidableEq, Repr

structure InlinePayloadEntry where
  chunkId : Key32
  payload : Bytes
deriving DecidableEq, Repr

/-- The delta side shared by `AppendDelta`, `ChunkAndDelta` and `IncorporateItem`. -/
structure DeltaArgs where
  tenantIdBytes : Uuid
  operation : UInt8
  hashedKey : Key32
  chunkRefs : List Key32
  payload : Bytes
  hasInlineData : Bool
deriving DecidableEq, Repr

structure IncorporateItem extends DeltaArgs where
  newChunks : List NewChunkMeta
  perspectiveSeq : HybridLogicalClock
  inlinePayloads : List InlinePayloadEntry
deriving DecidableEq, Repr

inductive LogCommand where
  | appendDelta (args : DeltaArgs)
  | chunkAndDelta (args : DeltaArgs) (newChunks : List NewChunkMeta)
      (inlinePayloads : List InlinePayloadEntry)
  | incrementChunkRefcount (tenantIdBytes : Uuid) (chunkId : Key32)
  | decrementChunkRefcount (tenantIdBytes : Uuid) (chunkId : Key32)
  | setMaintenance (enabled : Bool)
  | advanceWatermark (consumer : String) (position : Nat)
  | setShardState (state : UInt8)
  | updateShardRange (rangeStart rangeEnd : Key32)
  | setShardConfig (config : ShardConfig)
  | incorporateIntent (item : IncorporateItem)
  | incorporateIntents (items : List IncorporateItem)
deriving DecidableEq, Repr

inductive LogResponse where
  | appended (tip : Nat)
  | ok
  | decrementOutcome (tombstonedNow : Bool)
deriving DecidableEq, Repr

structure ClusterChunkStateEntry where
  refcount : Nat
  placement : List Nat
  tombstoned : Bool
  createdMs : Nat
  originalLen : Nat
deriving DecidableEq, Repr

structure RecentIncorporatedEntry where
  logIndex : Nat
  perspectiveSeq : HybridLogicalClock
  applyMs : Nat
deriving DecidableEq, Repr

end Kiseki.Log
