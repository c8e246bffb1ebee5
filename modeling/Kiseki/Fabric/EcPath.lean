import Kiseki.Fabric.Ec
import Kiseki.Fabric.Server
import Mathlib.Data.List.DropRight

namespace Kiseki.Fabric

open Erasure Kiseki.Chunk Function List Nat

structure ClusterCfg where
  selfNodeId : NodeId
  peers : List NodeId
  minAcks : Nat

/-- An error of the clustered store; the first is an I/O error. -/
inductive FabricError where
  | distribution (err : EcDistributionError)
  | quorumLost (acks required : Nat)
  | chunk (err : ChunkError)
deriving DecidableEq, Repr

/-- The id 0 stands for a node outside the cluster. -/
def ClusterCfg.isSelf (cfg : ClusterCfg) (peerId : NodeId) : Bool :=
  cfg.selfNodeId ≠ 0 && peerId = cfg.selfNodeId

section Write

/-- The own fragment is stored directly, any other put if the peer is reached. -/
def receive (cfg : ClusterCfg) (landed : NodeId → Bool) (envelope : Envelope)
    (route : FragmentRoute) (node : Node) : Bool × Node :=
  if cfg.isSelf route.peerId then
    (true,
      ⟨node.store.writeFragment envelope.chunkId route.fragmentIndex route.bytes,
        node.chunkEnvelopeMeta.record envelope.chunkId (metaOf envelope)⟩)
  else if route.peerId ∈ cfg.peers ∧ landed route.peerId then
    let put := node.handlePutFragment route.fragmentIndex
      ((metaOf envelope).envelope envelope.chunkId route.bytes)
    (put.1.isOk, put.2)
  else (false, node)

def deliver (cfg : ClusterCfg) (landed : NodeId → Bool) (envelope : Envelope)
    (st : Nat × Cluster) (route : FragmentRoute) : Nat × Cluster :=
  let r := receive cfg landed envelope route (st.2 route.peerId)
  (if r.1 then st.1 + 1 else st.1, update st.2 route.peerId r.2)

/-- `write_chunk_ec`, with the peers that a put gets to before its timeout. -/
def writeChunkEc (rs : Coder UInt8) (cfg : ClusterCfg) (landed : NodeId → Bool)
    (cluster : Cluster) (envelope : Envelope) (placement : List NodeId) (strategy : EcStrategy) :
    Except FabricError Unit × Cluster :=
  match encodeForPlacement rs strategy envelope.ciphertext placement with
  | .error err => (.error (.distribution err), cluster)
  | .ok routes =>
    let st := routes.foldl (deliver cfg landed envelope) (0, cluster)
    (if max cfg.minAcks strategy.minFragmentsForRead ≤ st.1 then .ok ()
      else .error (.quorumLost st.1 cfg.minAcks), st.2)

variable {cfg : ClusterCfg} {landed : NodeId → Bool} {envelope : Envelope}
  {routes : List FragmentRoute} {st : Nat × Cluster} {peerId : NodeId}

lemma deliver_of_notMem (h : ∀ r ∈ routes, r.peerId ≠ peerId) :
    (routes.foldl (deliver cfg landed envelope) st).2 peerId = st.2 peerId := by
  induction routes generalizing st with
  | nil => rfl
  | cons r rest ih =>
    rw [foldl_cons, ih fun r' hr' => h r' (mem_cons_of_mem r hr')]
    exact update_of_ne (Ne.symm (h r mem_cons_self)) _ _

lemma deliver_of_mem (hdistinct : (routes.map FragmentRoute.peerId).Nodup) (hr : r ∈ routes) :
    (routes.foldl (deliver cfg landed envelope) st).2 r.peerId =
      (receive cfg landed envelope r (st.2 r.peerId)).2 := by
  induction routes generalizing st with
  | nil => exact absurd hr not_mem_nil
  | cons first rest ih =>
    obtain ⟨hfirst, hrest⟩ := nodup_cons.1 hdistinct
    rw [foldl_cons]
    rcases mem_cons.1 hr with rfl | hmem
    · have hother : ∀ r' ∈ rest, r'.peerId ≠ r.peerId := by
        intro r' hr' heq
        exact hfirst (heq ▸ mem_map_of_mem hr')
      rw [deliver_of_notMem hother, deliver]
      exact update_self _ _ _
    · have hne : r.peerId ≠ first.peerId := by
        intro heq
        exact hfirst (heq ▸ mem_map_of_mem hmem)
      rw [ih hrest hmem, deliver]
      dsimp only
      rw [update_of_ne hne]

end Write

section Read

def fetch (cfg : ClusterCfg) (cluster : Cluster) (id : ChunkId) (placement : List NodeId)
    (i : Nat) : Option (Bytes × Option EnvelopeMeta) :=
  match placement[i]? with
  | none => none
  | some peerId =>
    if cfg.isSelf peerId then
      ((cluster peerId).store.readFragment id i).toOption.map fun bytes => (bytes, none)
    else if peerId ∈ cfg.peers then
      ((cluster peerId).handleGetFragment id i).toOption.map fun envelope =>
        (envelope.ciphertext, some (metaOf envelope))
    else none

def collect (cfg : ClusterCfg) (cluster : Cluster) (id : ChunkId) (placement : List NodeId)
    (order : List Nat) : List (Nat × Bytes × Option EnvelopeMeta) :=
  order.filterMap fun i => (fetch cfg cluster id placement i).map fun x => (i, x)

def EcStrategy.dataCount : EcStrategy → Nat
  | .replication _ => 1
  | .ec data _ => data

/-- The order is that of the fetches; without a length zeros are padding. -/
def readChunkEc (rs : Coder UInt8) (cfg : ClusterCfg) (cluster : Cluster) (id : ChunkId)
    (placement : List NodeId) (strategy : EcStrategy) (originalLen : Option Nat)
    (order : List Nat) : Except FabricError Envelope :=
  let slots := collect cfg cluster id placement order
  if slots.length < strategy.minFragmentsForRead then .error (.chunk .chunkLost)
  else
    let shardSize := (slots.head?.map fun x => x.2.1.length).getD 0
    let decodeLen := originalLen.getD (shardSize * strategy.dataCount)
    match decodeFromResponses rs strategy (slots.map fun x => ⟨x.1, x.2.1⟩) decodeLen with
    | .error err => .error (.distribution err)
    | .ok plaintext =>
      let bytes := if originalLen.isSome then plaintext else plaintext.rdropWhile (· = 0)
      match (slots.findSome? fun x => x.2.2).or
          ((cluster cfg.selfNodeId).chunkEnvelopeMeta.lookup id) with
      | none => .error (.chunk (.notFound id))
      | some fields => .ok (fields.envelope id bytes)

variable {rs : Coder UInt8} {cfg : ClusterCfg} {cluster : Cluster} {id : ChunkId}
  {placement : List NodeId} {order : List Nat} {k m : Nat} {ciphertext : Bytes}
  {fragments : List Bytes} {len : Option Nat}

lemma rdropWhile_padded :
    (padded ciphertext k).rdropWhile (· = 0) = ciphertext.rdropWhile (· = 0) := by
  rw [padded, rdropWhile, rdropWhile, reverse_append, reverse_replicate]
  congr 1
  induction k * shardSize ciphertext.length k - ciphertext.length with
  | zero => rfl
  | succ n ih =>
    rw [replicate_succ, cons_append, dropWhile_cons, if_pos (decide_eq_true rfl)]
    exact ih

def readBytes (len : Option Nat) (ciphertext : Bytes) : Bytes :=
  if len.isSome then ciphertext else ciphertext.rdropWhile (· = 0)

lemma readBytes_eq : readBytes len ciphertext = ciphertext ↔
    len.isSome ∨ ciphertext.getLast? ≠ some 0 := by
  rw [readBytes]
  by_cases hlen : len.isSome
  · rw [if_pos hlen]
    exact ⟨fun _ => Or.inl hlen, fun _ => rfl⟩
  · rw [if_neg hlen, rdropWhile_eq_self_iff, or_iff_right hlen]
    constructor
    · intro h hlast
      have hne : ciphertext ≠ [] := fun hnil => by rw [hnil] at hlast; cases hlast
      rw [getLast?_eq_some_getLast hne] at hlast
      exact h hne (decide_eq_true (Option.some.inj hlast))
    · intro h hne hzero
      apply h
      rw [getLast?_eq_some_getLast hne, of_decide_eq_true hzero]

lemma shardSize_zero (hk : 0 < k) : shardSize 0 k = 0 := by
  rw [shardSize, zero_add]
  exact div_eq_of_lt (by omega)

lemma length_padded (hk : 0 < k) :
    (padded ciphertext k).length = shardSize ciphertext.length k * k := by
  have hle := length_le_shardSize hk ciphertext.length
  rw [padded, length_append, length_replicate, mul_comm (shardSize _ k)]
  omega

lemma readChunkEc_ec (hrs : rs.Lawful) (hencode : encode rs ciphertext k m = .ok fragments)
    (hslots : ∀ x ∈ collect cfg cluster id placement order, fragments[x.1]? = some x.2.1)
    (hnodup : ((collect cfg cluster id placement order).map Prod.fst).Nodup)
    (hlen : ∀ n, len = some n → n = ciphertext.length) :
    readChunkEc rs cfg cluster id placement (.ec k m) len order =
      if (collect cfg cluster id placement order).length < k then .error (.chunk .chunkLost)
      else
        match ((collect cfg cluster id placement order).findSome? fun x => x.2.2).or
            ((cluster cfg.selfNodeId).chunkEnvelopeMeta.lookup id) with
        | none => .error (.chunk (.notFound id))
        | some fields => .ok (fields.envelope id (readBytes len ciphertext)) := by
  obtain ⟨hk, _, hencoded⟩ := encode_ok hencode
  rw [readChunkEc]
  generalize collect cfg cluster id placement order = slots at *
  dsimp only
  by_cases hfew : slots.length < k
  · rw [if_pos hfew]
    exact if_pos hfew
  have hsize : (slots.head?.map fun x => x.2.1.length).getD 0 = shardSize ciphertext.length k := by
    cases slots with
    | nil => exact absurd hk hfew
    | cons x rest => exact hencoded.size hrs hk (mem_of_getElem? (hslots x mem_cons_self))
  have hdecode : decodeFromResponses rs (.ec k m) (slots.map fun x => ⟨x.1, x.2.1⟩)
      (len.getD (shardSize ciphertext.length k * k)) =
      .ok ((padded ciphertext k).take (len.getD (shardSize ciphertext.length k * k))) := by
    apply decodeFromResponses_ec hrs hencode
    · intro r hr
      obtain ⟨x, hx, rfl⟩ := mem_map.1 hr
      exact hslots x hx
    · rw [map_map]
      exact hnodup
    · rw [length_map]
      exact Nat.le_of_not_lt hfew
    · intro hempty
      cases len with
      | none =>
        rw [Option.getD_none, hempty, length_nil, shardSize_zero hk, zero_mul]
      | some n => exact (hlen n rfl).trans (by rw [hempty]; rfl)
  have hbytes : (if len.isSome then
        (padded ciphertext k).take (len.getD (shardSize ciphertext.length k * k))
      else ((padded ciphertext k).take (len.getD (shardSize ciphertext.length k * k))).rdropWhile
        (· = 0)) = readBytes len ciphertext := by
    cases len with
    | none =>
      rw [Option.getD_none, ← length_padded hk, take_length, rdropWhile_padded]
      rfl
    | some n =>
      rw [Option.getD_some, hlen n rfl, take_padded]
      rfl
  rw [if_neg hfew, hsize]
  have hfew' : ¬slots.length < (EcStrategy.ec k m).minFragmentsForRead := hfew
  rw [if_neg hfew', show (EcStrategy.ec k m).dataCount = k from rfl, hdecode]
  dsimp only
  rw [hbytes]

end Read

end Kiseki.Fabric
