import Kiseki.Log.Types

namespace Kiseki.Log

def pendingChunkDecrementsCap : Nat := 65536

def defaultDedupWindowEntries : Nat := 100000

def defaultDedupWindowMs : Nat := 60000

abbrev ChunkKey := OrgId × ChunkId

abbrev InlineBatch := List (Key32 × Bytes)

/-- State of one shard replica. Clocks, counters and log indices are natural numbers. -/
structure ShardSmInner where
  deltaCount : Nat := 0
  tip : Nat := 0
  maintenance : Bool := false
  deltas : List Delta := []
  watermarks : ConsumerWatermarks := ∅
  shardId : ShardId
  tenantId : OrgId
  lastAppliedLog : Option LogId := none
  lastMembership : StoredMembership := {}
  inlineStore : Option InlineMap := none
  clusterChunkState : Finmap fun _ : ChunkKey => ClusterChunkStateEntry := ∅
  rangeStart : Key32 := .replicate 32 0
  rangeEnd : Key32 := .replicate 32 0xFF
  state : ShardState := .healthy
  config : ShardConfig := {}
  ancientCutoffLogIndex : Nat := 0
  recentIncorporated : List RecentIncorporatedEntry := []
  recentIncorporatedSeqs : Finset HybridLogicalClock := ∅
  dedupWindowEntries : Nat
  dedupWindowMs : Nat
  pendingChunkDecrements : Finmap fun _ : ChunkKey => Nat := ∅

/-- `ShardSmInner::new` with the window bounds read from the environment. -/
def ShardSmInner.new (shardId : ShardId) (tenantId : OrgId) (windowEntries windowMs : Nat)
    (inlineStore : Option InlineMap := none) : ShardSmInner where
  shardId := shardId
  tenantId := tenantId
  inlineStore := inlineStore
  dedupWindowEntries := windowEntries
  dedupWindowMs := windowMs

def ShardSmInner.dedupContains (s : ShardSmInner) (seq : HybridLogicalClock) : Bool :=
  decide (seq ∈ s.recentIncorporatedSeqs)

/-- The eviction loop of `push_recent_and_evict`, oldest entry at the head of the deque. -/
def evictLoop (windowEntries windowMs nowMs : Nat) :
    List RecentIncorporatedEntry → Finset HybridLogicalClock → Nat →
      List RecentIncorporatedEntry × Finset HybridLogicalClock × Nat
  | [], seqs, cutoff => ([], seqs, cutoff)
  | front :: rest, seqs, cutoff =>
    if rest.length + 1 > windowEntries ∨ nowMs - front.applyMs > windowMs then
      evictLoop windowEntries windowMs nowMs rest (seqs.erase front.perspectiveSeq)
        (max cutoff (front.logIndex + 1))
    else (front :: rest, seqs, cutoff)

def ShardSmInner.pushRecentAndEvict (s : ShardSmInner) (logIndex : Nat)
    (perspectiveSeq : HybridLogicalClock) (nowMs : Nat) : ShardSmInner :=
  let pushed := s.recentIncorporated ++ [⟨logIndex, perspectiveSeq, nowMs⟩]
  let evicted := evictLoop s.dedupWindowEntries s.dedupWindowMs nowMs pushed
    (insert perspectiveSeq s.recentIncorporatedSeqs) s.ancientCutoffLogIndex
  { s with
    recentIncorporated := evicted.1
    recentIncorporatedSeqs := evicted.2.1
    ancientCutoffLogIndex := evicted.2.2 }

def indexTimestamp (logIndex : Nat) : DeltaTimestamp where
  hlc := ⟨UInt64.ofNat logIndex, 0, 0⟩
  wall := ⟨logIndex, "UTC"⟩
  quality := .ntp

def mkDelta (shardId : ShardId) (sequence : Nat) (args : DeltaArgs) (offloaded : Bool)
    (logIndex : Nat) : Delta where
  header := {
    sequence := sequence
    shardId := shardId
    tenantId := ⟨args.tenantIdBytes⟩
    operation := u8ToOp args.operation
    timestamp := indexTimestamp logIndex
    hashedKey := args.hashedKey
    tombstone := decide (args.operation = 2)
    chunkRefs := args.chunkRefs.map ChunkId.mk
    payloadSize := args.payload.length % 2 ^ 32
    hasInlineData := args.hasInlineData }
  payload := {
    ciphertext := if offloaded then [] else args.payload
    authTag := []
    nonce := []
    systemEpoch := none
    tenantEpoch := none
    tenantWrappedMaterial := [] }

namespace ShardSmInner

section
variable (s : ShardSmInner)

def offloads (args : DeltaArgs) : Bool :=
  args.hasInlineData && s.inlineStore.isSome

/-- `append_delta_inner`: bump the tip, push the delta and queue its inline offload. -/
def appendDeltaInner (args : DeltaArgs) (logIndex : Nat)
    (batch : InlineBatch) : ShardSmInner × InlineBatch :=
  let tip := s.tip + 1
  let offloaded := s.offloads args
  ({ s with
      tip := tip
      deltaCount := s.deltaCount + 1
      deltas := s.deltas ++ [mkDelta s.shardId tip args offloaded logIndex] },
    if offloaded then batch ++ [(deriveInlineKey args.hashedKey tip, args.payload)] else batch)

def applyNewChunk (tenant : OrgId) (logIndex : Nat)
    (nc : NewChunkMeta) : ShardSmInner :=
  let key : ChunkKey := (tenant, ⟨nc.chunkId⟩)
  if key ∈ s.clusterChunkState then s
  else
    let parked := (s.pendingChunkDecrements.lookup key).getD 0
    { s with
      pendingChunkDecrements := s.pendingChunkDecrements.erase key
      clusterChunkState := s.clusterChunkState.insert key {
        refcount := 1 - parked
        placement := nc.placement
        tombstoned := decide (parked > 0)
        createdMs := logIndex
        originalLen := nc.originalLen } }

def applyNewChunks (tenantIdBytes : Uuid)
    (newChunks : List NewChunkMeta) (logIndex : Nat) : ShardSmInner :=
  newChunks.foldl (fun s nc => s.applyNewChunk ⟨tenantIdBytes⟩ logIndex nc) s

def queueInlinePayloads (payloads : List InlinePayloadEntry)
    (batch : InlineBatch) : InlineBatch :=
  if s.inlineStore.isSome then batch ++ payloads.map fun e => (e.chunkId, e.payload) else batch

def flushInlineBatch (batch : InlineBatch) : ShardSmInner :=
  { s with inlineStore := s.inlineStore.map fun store => store.putMany batch }

def refuses (seq : HybridLogicalClock) (logIndex : Nat) : Bool :=
  s.dedupContains seq || decide (logIndex < s.ancientCutoffLogIndex)

def incorporate (item : IncorporateItem) (logIndex nowMs : Nat)
    (batch : InlineBatch) : ShardSmInner × InlineBatch :=
  let s := s.applyNewChunks item.tenantIdBytes item.newChunks logIndex
  let batch := s.queueInlinePayloads item.inlinePayloads batch
  let (s, batch) := s.appendDeltaInner item.toDeltaArgs logIndex batch
  (s.pushRecentAndEvict logIndex item.perspectiveSeq nowMs, batch)

def applyOneIncorporate (item : IncorporateItem)
    (logIndex nowMs : Nat) (batch : InlineBatch) : ShardSmInner × InlineBatch :=
  if s.refuses item.perspectiveSeq logIndex then (s, batch)
  else s.incorporate item logIndex nowMs batch

def applyItems (logIndex nowMs : Nat) :
    List IncorporateItem → ShardSmInner × InlineBatch → ShardSmInner × InlineBatch
  | [], r => r
  | item :: items, r =>
    applyItems logIndex nowMs items (r.1.applyOneIncorporate item logIndex nowMs r.2)

def incrementChunkRefcount (key : ChunkKey) : ShardSmInner :=
  match s.clusterChunkState.lookup key with
  | some entry =>
    let entry := { entry with refcount := min (entry.refcount + 1) u64Max, tombstoned := false }
    { s with clusterChunkState := s.clusterChunkState.insert key entry }
  | none => s

/-- A decrement that comes before its chunk is parked. -/
def decrementChunkRefcount (key : ChunkKey) : ShardSmInner × Bool :=
  match s.clusterChunkState.lookup key with
  | some entry =>
    let refcount := entry.refcount - 1
    let tombstonedNow := decide (refcount = 0) && !entry.tombstoned
    let entry :=
      { entry with refcount := refcount, tombstoned := entry.tombstoned || tombstonedNow }
    ({ s with clusterChunkState := s.clusterChunkState.insert key entry }, tombstonedNow)
  | none =>
    if pendingChunkDecrementsCap ≤ s.pendingChunkDecrements.keys.card ∧
        key ∉ s.pendingChunkDecrements then (s, false)
    else
      let parked := (s.pendingChunkDecrements.lookup key).getD 0
      ({ s with pendingChunkDecrements := s.pendingChunkDecrements.insert key (parked + 1) },
        false)

def pruneDeltasBelowGcBoundary : ShardSmInner :=
  match s.watermarks.gcBoundary with
  | none => s
  | some boundary =>
    let below := s.deltas.takeWhile fun d => decide (d.header.sequence < boundary)
    let keys := (below.filter fun d => d.header.hasInlineData).map fun d =>
      deriveInlineKey d.header.hashedKey d.header.sequence
    { s with
      inlineStore := s.inlineStore.map fun store => store.deleteMany keys
      deltas := s.deltas.drop below.length }

/-- `apply_command_at`: one committed command at a log index and a clock reading. -/
def applyCommandAt (cmd : LogCommand) (logIndex nowMs : Nat) :
    ShardSmInner × LogResponse :=
  match cmd with
  | .appendDelta args =>
    let (s, batch) := s.appendDeltaInner args logIndex []
    (s.flushInlineBatch batch, .appended s.tip)
  | .chunkAndDelta args newChunks inlinePayloads =>
    let s := s.applyNewChunks args.tenantIdBytes newChunks logIndex
    let batch := s.queueInlinePayloads inlinePayloads []
    let (s, batch) := s.appendDeltaInner args logIndex batch
    (s.flushInlineBatch batch, .appended s.tip)
  | .incorporateIntent item =>
    let (s, batch) := s.applyOneIncorporate item logIndex nowMs []
    (s.flushInlineBatch batch, .appended s.tip)
  | .incorporateIntents items =>
    let (s, batch) := ShardSmInner.applyItems logIndex nowMs items (s, [])
    (s.flushInlineBatch batch, .appended s.tip)
  | .incrementChunkRefcount tenantIdBytes chunkId =>
    (s.incrementChunkRefcount (⟨tenantIdBytes⟩, ⟨chunkId⟩), .ok)
  | .decrementChunkRefcount tenantIdBytes chunkId =>
    let (s, tombstonedNow) := s.decrementChunkRefcount (⟨tenantIdBytes⟩, ⟨chunkId⟩)
    (s, .decrementOutcome tombstonedNow)
  | .setMaintenance enabled => ({ s with maintenance := enabled }, .ok)
  | .advanceWatermark consumer position =>
    let s := { s with watermarks := s.watermarks.advance consumer position }
    (s.pruneDeltasBelowGcBoundary, .ok)
  | .setShardState state =>
    match ShardState.fromU8 state with
    | some st => ({ s with state := st }, .ok)
    | none => (s, .ok)
  | .updateShardRange rangeStart rangeEnd =>
    ({ s with rangeStart := rangeStart, rangeEnd := rangeEnd }, .ok)
  | .setShardConfig config => ({ s with config := config }, .ok)

end

end ShardSmInner

end Kiseki.Log
