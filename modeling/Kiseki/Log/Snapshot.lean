import Kiseki.Log.Convergence
import Kiseki.Raft.Runtime

namespace Kiseki.Log
open Raft

structure SerializableDelta where
  sequence : Nat
  shardId : Uuid
  tenantId : Uuid
  operation : UInt8
  hashedKey : Key32
  tombstone : Bool
  chunkRefs : List Key32
  payloadSize : Nat
  hasInlineData : Bool
  ciphertext : Bytes
deriving DecidableEq, Repr

def SerializableDelta.fromDelta (d : Delta) : SerializableDelta where
  sequence := d.header.sequence
  shardId := d.header.shardId.uuid
  tenantId := d.header.tenantId.uuid
  operation := opToU8 d.header.operation
  hashedKey := d.header.hashedKey
  tombstone := d.header.tombstone
  chunkRefs := d.header.chunkRefs.map ChunkId.bytes
  payloadSize := d.header.payloadSize
  hasInlineData := d.header.hasInlineData
  ciphertext := d.payload.ciphertext

def SerializableDelta.toDelta (sd : SerializableDelta) : Delta where
  header :=
    { sequence := sd.sequence
      shardId := ⟨sd.shardId⟩
      tenantId := ⟨sd.tenantId⟩
      operation := u8ToOp sd.operation
      timestamp := ⟨⟨0, 0, 0⟩, ⟨0, "UTC"⟩, .ntp⟩
      hashedKey := sd.hashedKey
      tombstone := sd.tombstone
      chunkRefs := sd.chunkRefs.map ChunkId.mk
      payloadSize := sd.payloadSize
      hasInlineData := sd.hasInlineData }
  payload :=
    { ciphertext := sd.ciphertext
      authTag := []
      nonce := []
      systemEpoch := none
      tenantEpoch := none
      tenantWrappedMaterial := [] }

structure ShardSnapshot where
  deltaCount : Nat
  tip : Nat
  maintenance : Bool
  deltas : List SerializableDelta
  watermarks : ConsumerWatermarks
  shardId : Option ShardId
  tenantId : Option OrgId
  ancientCutoffLogIndex : Nat
  recentIncorporated : List RecentIncorporatedEntry

section
variable (s : ShardSmInner)

def ShardSmInner.readBack (d : Delta) : SerializableDelta :=
  let sd := SerializableDelta.fromDelta d
  if d.header.hasInlineData ∧ sd.ciphertext = [] then
    match s.inlineStore.bind fun store =>
      store.lookup (deriveInlineKey d.header.hashedKey d.header.sequence) with
    | some data => { sd with ciphertext := data }
    | none => sd
  else sd

def ShardSmInner.shardSnapshot : ShardSnapshot where
  deltaCount := s.deltaCount
  tip := s.tip
  maintenance := s.maintenance
  deltas := s.deltas.map s.readBack
  watermarks := s.watermarks
  shardId := some s.shardId
  tenantId := some s.tenantId
  ancientCutoffLogIndex := s.ancientCutoffLogIndex
  recentIncorporated := s.recentIncorporated

def ShardSmInner.buildSnapshot : Snapshot ShardSnapshot :=
  ⟨s.lastAppliedLog, s.lastMembership, s.shardSnapshot⟩

def ShardSmInner.getCurrentSnapshot : Option (Snapshot ShardSnapshot) :=
  s.lastAppliedLog.map fun last => ⟨some last, s.lastMembership, s.shardSnapshot⟩

def SerializableDelta.offloads (sd : SerializableDelta) : Bool :=
  sd.hasInlineData && !sd.ciphertext.isEmpty

def restoreDelta (inline : Bool) (sd : SerializableDelta) : Delta :=
  let d := sd.toDelta
  if sd.hasInlineData && inline then { d with payload := { d.payload with ciphertext := [] } }
  else d

/-- The bounds are read again; what the image lacks stays. -/
def ShardSmInner.installSnapshot (snapshot : Snapshot ShardSnapshot)
    (windowEntries windowMs : Nat) : ShardSmInner :=
  let snap := snapshot.image
  let puts := (snap.deltas.filter SerializableDelta.offloads).map fun sd =>
    (deriveInlineKey sd.hashedKey sd.sequence, sd.ciphertext)
  { s with
    deltaCount := snap.deltaCount
    tip := snap.tip
    maintenance := snap.maintenance
    ancientCutoffLogIndex := snap.ancientCutoffLogIndex
    recentIncorporated := snap.recentIncorporated
    recentIncorporatedSeqs := (snap.recentIncorporated.map (·.perspectiveSeq)).toFinset
    dedupWindowEntries := windowEntries
    dedupWindowMs := windowMs
    inlineStore := s.inlineStore.map fun store => store.putMany puts
    deltas := snap.deltas.map (restoreDelta s.inlineStore.isSome)
    watermarks := snap.watermarks
    shardId := snap.shardId.getD s.shardId
    tenantId := snap.tenantId.getD s.tenantId
    lastAppliedLog := snapshot.lastLogId
    lastMembership := snapshot.lastMembership }

def ShardSmInner.applyEntry (e : Entry LogCommand) (nowMs : Nat) :
    ShardSmInner × LogResponse :=
  let s := { s with lastAppliedLog := some e.logId }
  match e.payload with
  | .blank => (s, .ok)
  | .normal cmd => s.applyCommandAt cmd e.logId.index nowMs
  | .membership voters => ({ s with lastMembership := ⟨some e.logId, voters⟩ }, .ok)

end

/-- The state machine of a shard, on nodes with or without an inline store. -/
def shardMachine (shardId : ShardId) (tenantId : OrgId) (windowEntries : Nat) (inline : Bool) :
    Machine LogCommand ShardSmInner ShardSnapshot where
  Fresh s := ∃ windowMs store, store.isSome = inline ∧
    s = .new shardId tenantId windowEntries windowMs store
  applyEntry s e nowMs := (s.applyEntry e nowMs).1
  getCurrentSnapshot := ShardSmInner.getCurrentSnapshot
  installSnapshot s snapshot := s.installSnapshot snapshot s.dedupWindowEntries s.dedupWindowMs

def appliedOf (trace : List (Entry LogCommand × Nat)) : List Applied :=
  trace.filterMap fun p =>
    match p.1.payload with
    | .normal cmd => some ⟨cmd, p.1.logId.index, p.2⟩
    | _ => none

/-- Two states that differ in their log position and inline payloads only. -/
structure ShardSmInner.Same (a b : ShardSmInner) : Prop where
  replicated : a.replicated = b.replicated
  window : a.window = b.window

section
variable {a b : ShardSmInner} {shardId : ShardId} {tenantId : OrgId} {windowEntries : Nat}
  {inline : Bool}

lemma ShardSmInner.Same.applyOneIncorporate (h : a.Same b) (item : IncorporateItem)
    (logIndex nowMs : Nat) :
    (a.applyOneIncorporate item logIndex nowMs []).1.Same
      (b.applyOneIncorporate item logIndex nowMs []).1 := by
  have hgate : a.refuses item.perspectiveSeq logIndex = b.refuses item.perspectiveSeq logIndex := by
    rw [refuses_window, refuses_window, h.window]
  rw [ShardSmInner.applyOneIncorporate, ShardSmInner.applyOneIncorporate, hgate]
  split
  · exact h
  · have hagree := (agree_id_iff.2 h.replicated).incorporate (stampBlind_self _ _ logIndex) item
      nowMs nowMs [] []
    refine ⟨agree_id_iff.1 hagree, ?_⟩
    rw [window_incorporate, window_incorporate, h.window]

lemma ShardSmInner.Same.afterItems (h : a.Same b) (items : List IncorporateItem)
    (logIndex nowMs : Nat) :
    (ShardSmInner.afterItems logIndex nowMs items a).Same
      (ShardSmInner.afterItems logIndex nowMs items b) := by
  induction items generalizing a b with
  | nil => exact h
  | cons item items ih => exact ih (h.applyOneIncorporate item logIndex nowMs)

lemma ShardSmInner.Same.apply (h : a.Same b) (e : Applied) : (a.apply e).Same (b.apply e) := by
  have hitems := h.afterItems e.cmd.items e.logIndex e.nowMs
  refine ⟨replicated_apply h.replicated hitems.replicated, ?_⟩
  rw [window_apply, window_apply]
  exact hitems.window

lemma ShardSmInner.Same.run (h : a.Same b) (trace : List (Entry LogCommand × Nat)) :
    ((shardMachine shardId tenantId windowEntries inline).run a trace).Same
      (b.run (appliedOf trace)) := by
  induction trace generalizing a b with
  | nil => exact h
  | cons p trace ih =>
    obtain ⟨⟨logId, payload⟩, nowMs⟩ := p
    cases payload with
    | blank => exact ih ⟨h.replicated, h.window⟩
    | membership voters => exact ih ⟨h.replicated, h.window⟩
    | normal cmd =>
      have hmarked : ({ a with lastAppliedLog := some logId } : ShardSmInner).Same b :=
        ⟨h.replicated, h.window⟩
      exact ih (hmarked.apply ⟨cmd, logId.index, nowMs⟩)

end

end Kiseki.Log
