import Kiseki.Fabric.LocalStore

namespace Kiseki.Fabric

open Kiseki.Chunk

structure EnvelopeMeta where
  authTag : Vector UInt8 16
  nonce : Vector UInt8 12
  systemEpoch : Nat
  tenantEpoch : Option Nat
  tenantWrappedMaterial : Option Bytes
deriving DecidableEq, Repr

def metaOf (envelope : Envelope) : EnvelopeMeta :=
  ⟨envelope.authTag, envelope.nonce, envelope.systemEpoch, envelope.tenantEpoch,
    envelope.tenantWrappedMaterial⟩

def EnvelopeMeta.envelope (fields : EnvelopeMeta) (id : ChunkId) (ciphertext : Bytes) : Envelope :=
  ⟨ciphertext, fields.authTag, fields.nonce, fields.systemEpoch, fields.tenantEpoch,
    fields.tenantWrappedMaterial, id⟩

def EnvelopeMeta.zeroed : EnvelopeMeta where
  authTag := .replicate 16 0
  nonce := .replicate 12 0
  systemEpoch := 1
  tenantEpoch := none
  tenantWrappedMaterial := none

@[simp]
lemma metaOf_envelope (fields : EnvelopeMeta) (id : ChunkId) (ciphertext : Bytes) :
    metaOf (fields.envelope id ciphertext) = fields :=
  rfl

@[simp]
lemma chunkId_envelope (fields : EnvelopeMeta) (id : ChunkId) (ciphertext : Bytes) :
    (fields.envelope id ciphertext).chunkId = id :=
  rfl

@[simp]
lemma ciphertext_envelope (fields : EnvelopeMeta) (id : ChunkId) (ciphertext : Bytes) :
    (fields.envelope id ciphertext).ciphertext = ciphertext :=
  rfl

structure ChunkEnvelopeRegistry where
  inner : Finmap fun _ : ChunkId => EnvelopeMeta
  disk : Option (Finmap fun _ : ChunkId => EnvelopeMeta)

namespace ChunkEnvelopeRegistry

def record (registry : ChunkEnvelopeRegistry) (id : ChunkId) (fields : EnvelopeMeta) :
    ChunkEnvelopeRegistry :=
  match registry.inner.lookup id with
  | some _ => registry
  | none =>
    { inner := registry.inner.insert id fields
      disk := registry.disk.map fun disk => disk.insert id fields }

def lookup (registry : ChunkEnvelopeRegistry) (id : ChunkId) : Option EnvelopeMeta :=
  match registry.inner.lookup id with
  | some fields => some fields
  | none => registry.disk.bind fun disk => disk.lookup id

variable {registry : ChunkEnvelopeRegistry} {id : ChunkId} {fields fields' : EnvelopeMeta}

lemma lookup_of_inner (h : registry.inner.lookup id = some fields) :
    registry.lookup id = some fields := by
  rw [lookup, h]

lemma record_of_inner (h : registry.inner.lookup id = some fields) (fields' : EnvelopeMeta) :
    registry.record id fields' = registry := by
  rw [record, h]

lemma inner_record (h : registry.inner.lookup id = none) (fields : EnvelopeMeta) :
    (registry.record id fields).inner.lookup id = some fields := by
  rw [record, h]
  exact Finmap.lookup_insert _

end ChunkEnvelopeRegistry

structure Node where
  store : LocalStore
  chunkEnvelopeMeta : ChunkEnvelopeRegistry

def blank : Node := ⟨⟨∅, ∅⟩, ⟨∅, none⟩⟩

namespace Node

def envelopeFromBytes (node : Node) (id : ChunkId) (bytes : Bytes) : Envelope :=
  ((node.chunkEnvelopeMeta.lookup id).getD .zeroed).envelope id bytes

def handlePutFragment (node : Node) (fragmentIndex : Nat) (envelope : Envelope) :
    Except ChunkError Bool × Node :=
  let registry := node.chunkEnvelopeMeta.record envelope.chunkId (metaOf envelope)
  if fragmentIndex = 0 then
    match node.store.writeChunk envelope with
    | .error err => (.error err, { node with chunkEnvelopeMeta := registry })
    | .ok (stored, store) => (.ok stored, ⟨store, registry⟩)
  else
    (.ok true, ⟨node.store.writeFragment envelope.chunkId fragmentIndex envelope.ciphertext,
      registry⟩)

def handleGetFragment (node : Node) (id : ChunkId) (fragmentIndex : Nat) :
    Except ChunkError Envelope :=
  match node.store.readFragment id fragmentIndex with
  | .ok bytes => .ok (node.envelopeFromBytes id bytes)
  | .error err => if fragmentIndex = 0 then node.store.readChunk id else .error err

def handleHasFragment (node : Node) (id : ChunkId) (fragmentIndex : Nat) : Except ChunkError Bool :=
  if fragmentIndex = 0 then
    match node.store.refcount id with
    | .ok n => .ok (0 < n)
    | .error (.notFound _) => .ok false
    | .error err => .error err
  else .ok (node.store.listsFragment id fragmentIndex)

section Put
variable {node : Node} {envelope : Envelope}

lemma handlePutFragment_pos (h : index ≠ 0) :
    node.handlePutFragment index envelope =
      (.ok true, ⟨node.store.writeFragment envelope.chunkId index envelope.ciphertext,
        node.chunkEnvelopeMeta.record envelope.chunkId (metaOf envelope)⟩) :=
  if_neg h

lemma handlePutFragment_new (h : node.store.chunks.lookup envelope.chunkId = none) :
    node.handlePutFragment 0 envelope =
      (.ok true, ⟨{ node.store with
          chunks := node.store.chunks.insert envelope.chunkId (1, envelope) },
        node.chunkEnvelopeMeta.record envelope.chunkId (metaOf envelope)⟩) := by
  rw [handlePutFragment, if_pos rfl, LocalStore.writeChunk, h]

lemma handlePutFragment_old (h : node.store.chunks.lookup envelope.chunkId = some entry) :
    node.handlePutFragment 0 envelope =
      if entry.1 < u64Max then
        (.ok false, ⟨{ node.store with
            chunks := node.store.chunks.insert envelope.chunkId (entry.1 + 1, entry.2) },
          node.chunkEnvelopeMeta.record envelope.chunkId (metaOf envelope)⟩)
      else (.error (.io .refcountOverflow), { node with
        chunkEnvelopeMeta :=
          node.chunkEnvelopeMeta.record envelope.chunkId (metaOf envelope) }) := by
  rw [handlePutFragment, if_pos rfl, LocalStore.writeChunk, h]
  by_cases hroom : entry.1 < u64Max
  · rw [if_pos hroom]
    dsimp only
    rw [if_pos hroom]
  · rw [if_neg hroom]
    dsimp only
    rw [if_neg hroom]

end Put

end Node

abbrev Cluster := NodeId → Node

end Kiseki.Fabric
