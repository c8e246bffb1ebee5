import Kiseki.Fabric.Ec
import Kiseki.Fabric.Server

namespace Kiseki.Fabric

open Erasure Kiseki.Chunk Function List

inductive ReplicationDecision where
  | healthy
  | repair
  | critical
  | lost
deriving DecidableEq, Repr

structure UnderReplicationPolicy where
  targetCopies : Nat
  minAcks : Nat
deriving DecidableEq, Repr

def UnderReplicationPolicy.evaluate (policy : UnderReplicationPolicy) (present : List Bool) :
    ReplicationDecision :=
  let healthy := present.countP id
  if healthy = 0 then .lost
  else if healthy < policy.minAcks then .critical
  else if healthy < policy.targetCopies ∧ healthy < present.length then .repair
  else .healthy

structure ChunkPlacementWithLen where
  chunkId : ChunkId
  placement : List NodeId
  originalLen : Nat

structure UnderReplicationReport where
  scanned : Nat := 0
  healthy : Nat := 0
  repaired : Nat := 0
  critical : Nat := 0
  lost : Nat := 0
  repairErrors : Nat := 0
deriving DecidableEq, Repr

inductive RepairError where
  | healthyPeers (need got : Nat)
  | usableSources (got need : Nat)
  | decode (err : EcDistributionError)
  | reencode (err : EcDistributionError)
  | missingIndex (index : Nat)
  | destinationUnknown (peerId : NodeId)
  | putFragment (err : ChunkError)
deriving DecidableEq, Repr

def check (peers : List NodeId) (cluster : Cluster) (id : ChunkId) (peerIds : List NodeId) :
    List Bool :=
  peerIds.mapIdx fun i peerId =>
    if peerId ∈ peers then ((cluster peerId).handleHasFragment id i).toOption.getD false
    else false

def source (peers : List NodeId) (cluster : Cluster) (id : ChunkId) (healthy : NodeId × Nat) :
    Option FragmentResponse :=
  if healthy.1 ∈ peers then
    match (cluster healthy.1).handleGetFragment id healthy.2 with
    | .ok envelope => some ⟨healthy.2, envelope.ciphertext⟩
    | .error _ => none
  else none

/-- Decode from the healthy peers and encode the missing fragment anew. -/
def recover (rs : Coder UInt8) (peers : List NodeId) (cluster : Cluster) (id : ChunkId)
    (healthyPeers : List (NodeId × Nat)) (missingIndex : Nat) (strategy : EcStrategy)
    (originalLen : Nat) : Except RepairError FragmentRoute :=
  let need := strategy.minFragmentsForRead
  if healthyPeers.length < need then .error (.healthyPeers need healthyPeers.length)
  else
    let responses := healthyPeers.filterMap (source peers cluster id)
    if responses.length < need then .error (.usableSources responses.length need)
    else
      match decodeFromResponses rs strategy responses originalLen with
      | .error err => .error (.decode err)
      | .ok plaintext =>
        -- only the fragment at the missing index is needed, so the placement is made up
        match encodeForPlacement rs strategy plaintext
            ((List.range strategy.totalFragments).map UInt64.ofNat) with
        | .error err => .error (.reencode err)
        | .ok routes =>
          match routes.find? fun r => r.fragmentIndex = missingIndex with
          | none => .error (.missingIndex missingIndex)
          | some route => .ok route

def repairEc (rs : Coder UInt8) (peers : List NodeId) (cluster : Cluster) (id : ChunkId)
    (healthyPeers : List (NodeId × Nat)) (missing : NodeId × Nat) (strategy : EcStrategy)
    (originalLen : Nat) : Except RepairError Unit × Cluster :=
  match recover rs peers cluster id healthyPeers missing.2 strategy originalLen with
  | .error err => (.error err, cluster)
  | .ok route =>
    if missing.1 ∈ peers then
      let put := (cluster missing.1).handlePutFragment missing.2
        (EnvelopeMeta.zeroed.envelope id route.bytes)
      (match put.1 with
        | .error err => .error (.putFragment err)
        | .ok _ => .ok (),
      update cluster missing.1 put.2)
    else (.error (.destinationUnknown missing.1), cluster)

lemma length_synthetic (k m : Nat) :
    ((List.range (EcStrategy.ec k m).totalFragments).map UInt64.ofNat).length = k + m := by
  rw [length_map, length_range]
  rfl

lemma recover_ok {id : ChunkId}
    (h : recover rs peers cluster id healthy index strategy len = .ok route) :
    ∃ plaintext routes,
      decodeFromResponses rs strategy (healthy.filterMap (source peers cluster id)) len =
        .ok plaintext ∧
      encodeForPlacement rs strategy plaintext
        ((List.range strategy.totalFragments).map UInt64.ofNat) = .ok routes ∧
      route ∈ routes ∧ route.fragmentIndex = index := by
  rw [recover] at h
  dsimp only at h
  split at h
  · cases h
  split at h
  · cases h
  split at h
  · cases h
  rename_i plaintext hdecode
  split at h
  · cases h
  rename_i routes hencode
  split at h
  · cases h
  rename_i found hfind
  cases h
  have hindex := List.find?_some hfind
  exact ⟨plaintext, routes, hdecode, hencode, List.mem_of_find?_eq_some hfind,
    of_decide_eq_true hindex⟩

lemma repairEc_ok {id : ChunkId}
    (h : (repairEc rs peers cluster id healthy missing strategy len).1 = .ok ()) :
    ∃ route, recover rs peers cluster id healthy missing.2 strategy len = .ok route ∧
      (repairEc rs peers cluster id healthy missing strategy len).2 =
        update cluster missing.1 ((cluster missing.1).handlePutFragment missing.2
          (EnvelopeMeta.zeroed.envelope id route.bytes)).2 := by
  rw [repairEc] at h ⊢
  split at h
  · cases h
  · rename_i route hroute
    split at h
    · rename_i hknown
      refine ⟨route, hroute, ?_⟩
      rw [if_pos hknown]
    · cases h

def healthyPeers (placement : List NodeId) (presence : List Bool) : List (NodeId × Nat) :=
  ((placement.zip presence).zipIdx.filter fun x => x.1.2).map fun x => (x.1.1, x.2)

def firstMissing (placement : List NodeId) (presence : List Bool) : Option (NodeId × Nat) :=
  ((placement.zip presence).zipIdx.find? fun x => !x.1.2).map fun x => (x.1.1, x.2)

def scrubChunk (rs : Coder UInt8) (policy : UnderReplicationPolicy) (strategy : EcStrategy)
    (peers : List NodeId) (st : UnderReplicationReport × Cluster) (cp : ChunkPlacementWithLen) :
    UnderReplicationReport × Cluster :=
  let report := { st.1 with scanned := st.1.scanned + 1 }
  let presence := check peers st.2 cp.chunkId cp.placement
  let decision := policy.evaluate presence
  match decision with
  | .healthy => ({ report with healthy := report.healthy + 1 }, st.2)
  | .lost => ({ report with lost := report.lost + 1 }, st.2)
  | _ =>
    let healthy := healthyPeers cp.placement presence
    match healthy.isEmpty, firstMissing cp.placement presence with
    | false, some missing =>
      let repair := repairEc rs peers st.2 cp.chunkId healthy missing strategy cp.originalLen
      match repair.1 with
      | .ok () =>
        ({ report with
            critical := if decision = .critical then report.critical + 1 else report.critical
            repaired := report.repaired + 1 }, repair.2)
      | .error _ => ({ report with repairErrors := report.repairErrors + 1 }, repair.2)
    | _, _ => ({ report with lost := report.lost + 1 }, st.2)

def runEc (rs : Coder UInt8) (policy : UnderReplicationPolicy) (strategy : EcStrategy)
    (peers : List NodeId) (candidates : List ChunkPlacementWithLen) (cluster : Cluster) :
    UnderReplicationReport × Cluster :=
  candidates.foldl (scrubChunk rs policy strategy peers) ({}, cluster)

section Presence
variable (avail : NodeId → Bool) (placement : List NodeId)

lemma zip_map_self : placement.zip (placement.map avail) =
    placement.map fun peerId => (peerId, avail peerId) := by
  induction placement with
  | nil => rfl
  | cons peerId rest ih => rw [map_cons, zip_cons_cons, map_cons, ih]

lemma healthyPeers_map : healthyPeers placement (placement.map avail) =
    placement.zipIdx.filter fun x => avail x.1 := by
  rw [healthyPeers, zip_map_self, zipIdx_map, filter_map, map_map]
  exact map_id _

lemma firstMissing_map : firstMissing placement (placement.map avail) =
    placement.zipIdx.find? fun x => !avail x.1 := by
  rw [firstMissing, zip_map_self, zipIdx_map, find?_map, Option.map_map]
  exact Option.map_id'

lemma length_healthyPeers_map :
    (healthyPeers placement (placement.map avail)).length = (placement.filter avail).length := by
  have hfst : (placement.zipIdx.filter fun x => avail x.1).map Prod.fst =
      placement.filter avail := by
    conv_rhs => rw [← zipIdx_map_fst 0 placement, filter_map]
    rfl
  rw [healthyPeers_map, ← hfst, length_map]

lemma nodup_healthyPeers_map :
    ((healthyPeers placement (placement.map avail)).map Prod.snd).Nodup := by
  rw [healthyPeers_map]
  have hsub := (filter_sublist (p := fun x : NodeId × Nat => avail x.1)
    (l := placement.zipIdx)).map Prod.snd
  rw [zipIdx_map_snd] at hsub
  exact hsub.nodup (nodup_range')

variable {avail placement}

lemma mem_healthyPeers_map : x ∈ healthyPeers placement (placement.map avail) ↔
    placement[x.2]? = some x.1 ∧ avail x.1 := by
  rw [healthyPeers_map, mem_filter, mem_zipIdx_iff_getElem?]

lemma firstMissing_map_some (h : firstMissing placement (placement.map avail) = some x) :
    placement[x.2]? = some x.1 ∧ avail x.1 = false ∧
      ∀ j, j < x.2 → ∀ peerId, placement[j]? = some peerId → avail peerId = true := by
  rw [firstMissing_map, find?_eq_some_iff_getElem] at h
  obtain ⟨hx, i, hi, heq, hbefore⟩ := h
  have hget : placement.zipIdx[i]? = some x := by rw [getElem?_eq_getElem hi, heq]
  rw [getElem?_zipIdx, Option.map_eq_some_iff] at hget
  obtain ⟨peerId, hpeer, rfl⟩ := hget
  rw [Nat.zero_add] at *
  refine ⟨hpeer, (Bool.not_eq_true' _).mp hx, ?_⟩
  intro j hj peerId' hj'
  have hget' : placement.zipIdx[j]? = some (peerId', j) := by
    rw [getElem?_zipIdx, hj', Nat.zero_add]
    rfl
  obtain ⟨hlt, heq'⟩ := List.getElem?_eq_some_iff.1 hget'
  have hnot := hbefore j hj
  rw [heq', Bool.not_not] at hnot
  exact hnot

lemma exists_firstMissing_map (hmem : peerId ∈ placement) (h : avail peerId = false) :
    ∃ x, firstMissing placement (placement.map avail) = some x := by
  obtain ⟨i, hi⟩ := mem_iff_getElem?.1 hmem
  rw [firstMissing_map]
  apply Option.isSome_iff_exists.1
  rw [find?_isSome]
  exact ⟨(peerId, i), mem_zipIdx_iff_getElem?.2 hi, by rw [h]; rfl⟩

lemma countP_map_avail : (placement.map avail).countP id =
    (placement.filter avail).length := by
  rw [countP_map, id_comp, countP_eq_length_filter]

lemma evaluate_map {policy : UnderReplicationPolicy}
    (htarget : policy.targetCopies = placement.length)
    (hmem : peerId ∈ placement) (habsent : avail peerId = false) :
    let decision := policy.evaluate (placement.map avail)
    if placement.filter avail = [] then decision = .lost
    else decision = .repair ∨ decision = .critical := by
  dsimp only
  have hlt : (placement.filter avail).length < placement.length :=
    length_filter_lt_length_iff_exists.2 ⟨peerId, hmem, by rw [habsent]; exact Bool.false_ne_true⟩
  rw [UnderReplicationPolicy.evaluate, countP_map_avail, length_map, htarget]
  by_cases hnil : placement.filter avail = []
  · rw [if_pos hnil, hnil]
    rfl
  · have hpos := length_pos_iff.2 hnil
    rw [if_neg hnil, if_neg (Nat.ne_of_gt hpos)]
    split
    · exact Or.inr rfl
    · rw [if_pos ⟨hlt, hlt⟩]
      exact Or.inl rfl

end Presence

end Kiseki.Fabric
