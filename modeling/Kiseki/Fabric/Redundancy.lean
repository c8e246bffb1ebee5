import Kiseki.Fabric.Scrub

namespace Kiseki.Fabric

open Erasure Kiseki.Chunk Function List Nat LocalStore Node

section Copies

def Node.holds (node : Node) (id : ChunkId) (route : FragmentRoute) : Bool :=
  match node.handleHasFragment id route.fragmentIndex,
    node.handleGetFragment id route.fragmentIndex with
  | .ok true, .ok envelope => envelope.ciphertext = route.bytes
  | _, _ => false

/-- A node has nothing under an index; under index 0, no chunk either. -/
structure Node.Lacks (node : Node) (id : ChunkId) (index : Nat) : Prop where
  fragment : node.store.fragments.lookup (id, index) = none
  chunk : index = 0 → node.store.chunks.lookup id = none

variable {node : Node} {id : ChunkId} {route : FragmentRoute} {index : Nat}

instance : Decidable (node.Lacks id index) :=
  decidable_of_iff (node.store.fragments.lookup (id, index) = none ∧
    (index = 0 → node.store.chunks.lookup id = none))
    ⟨fun h => ⟨h.1, h.2⟩, fun h => ⟨h.fragment, h.chunk⟩⟩

lemma Node.holds_iff : node.holds id route = true ↔
    node.handleHasFragment id route.fragmentIndex = .ok true ∧
      ∃ envelope, node.handleGetFragment id route.fragmentIndex = .ok envelope ∧
        envelope.ciphertext = route.bytes := by
  rw [holds]
  constructor
  · intro h
    split at h
    · rename_i envelope hhas hget
      exact ⟨hhas, envelope, hget, of_decide_eq_true h⟩
    · cases h
  · intro h
    obtain ⟨hhas, envelope, hget, hbytes⟩ := h
    rw [hhas, hget]
    exact decide_eq_true hbytes

lemma Node.Lacks.has (h : node.Lacks id index) : node.handleHasFragment id index = .ok false := by
  rw [handleHasFragment]
  by_cases hindex : index = 0
  · rw [if_pos hindex, LocalStore.refcount, h.chunk hindex]
  · rw [if_neg hindex, listsFragment, h.fragment]
    rfl

lemma Node.Lacks.not_holds (h : node.Lacks id route.fragmentIndex) :
    node.holds id route = false := by
  rw [holds, h.has]

lemma Node.Lacks.put (h : node.Lacks id route.fragmentIndex) (fields : EnvelopeMeta) :
    let put := node.handlePutFragment route.fragmentIndex (fields.envelope id route.bytes)
    (∃ stored, put.1 = .ok stored) ∧ put.2.holds id route = true := by
  dsimp only
  rw [holds_iff, handlePutFragment]
  by_cases hindex : route.fragmentIndex = 0
  · have hfragment := h.fragment
    rw [hindex] at hfragment
    simp only [hindex, if_true, LocalStore.writeChunk, chunkId_envelope, h.chunk hindex]
    refine ⟨⟨_, rfl⟩, ?_, fields.envelope id route.bytes, ?_, rfl⟩
    · simp only [handleHasFragment, if_true, LocalStore.refcount, Finmap.lookup_insert]
      rfl
    · simp only [handleGetFragment, LocalStore.readFragment, hfragment, if_true,
        LocalStore.readChunk, Finmap.lookup_insert]
  · simp only [if_neg hindex, handleHasFragment, handleGetFragment, chunkId_envelope,
      LocalStore.listsFragment, LocalStore.readFragment, LocalStore.writeFragment,
      Finmap.lookup_insert]
    exact ⟨⟨_, rfl⟩, rfl, _, rfl, rfl⟩

end Copies

section Pass
variable {rs : Coder UInt8} {policy : UnderReplicationPolicy} {strategy : EcStrategy}
  {peers : List NodeId} {cluster : Cluster} {cp : ChunkPlacementWithLen} {avail : NodeId → Bool}
  {healthy : List (NodeId × Nat)} {missing : NodeId × Nat} {id : ChunkId} {len : Nat}
  {ciphertext : Bytes} {k m : Nat} {fragments : List Bytes}

def Quiet (rs : Coder UInt8) (policy : UnderReplicationPolicy) (strategy : EcStrategy)
    (peers : List NodeId) (cp : ChunkPlacementWithLen) (cluster : Cluster) : Prop :=
  (runEc rs policy strategy peers [cp] cluster).2 = cluster ∧
    (runEc rs policy strategy peers [cp] cluster).1.repaired = 0

lemma quiet_of_lost (hcheck : check peers cluster cp.chunkId cp.placement = cp.placement.map avail)
    (hlost : policy.evaluate (cp.placement.map avail) = .lost) :
    Quiet rs policy strategy peers cp cluster := by
  rw [Quiet, runEc, foldl_cons, foldl_nil, scrubChunk]
  dsimp only
  rw [hcheck, hlost]
  exact ⟨rfl, rfl⟩

lemma runEc_eq (cp : ChunkPlacementWithLen)
    (hcheck : check peers cluster cp.chunkId cp.placement = cp.placement.map avail)
    (hdecision : policy.evaluate (cp.placement.map avail) = .repair ∨
      policy.evaluate (cp.placement.map avail) = .critical)
    (hhealthy : cp.placement.filter avail ≠ [])
    (hmissing : firstMissing cp.placement (cp.placement.map avail) = some missing) :
    let repair := repairEc rs peers cluster cp.chunkId
      (healthyPeers cp.placement (cp.placement.map avail)) missing strategy cp.originalLen
    (runEc rs policy strategy peers [cp] cluster).2 = repair.2 ∧
      (∀ err, repair.1 = .error err →
        (runEc rs policy strategy peers [cp] cluster).1.repaired = 0) := by
  have hsome : (healthyPeers cp.placement (cp.placement.map avail)).isEmpty = false := by
    rw [isEmpty_eq_false_iff, ← length_pos_iff, length_healthyPeers_map, length_pos_iff]
    exact hhealthy
  dsimp only
  rw [runEc, foldl_cons, foldl_nil, scrubChunk]
  dsimp only
  rw [hcheck]
  rcases hdecision with hd | hd
  all_goals
    rw [hd, hsome, hmissing]
    dsimp only
    split
    · rename_i hok
      exact ⟨rfl, fun err herr => by rw [hok] at herr; cases herr⟩
    · exact ⟨rfl, fun _ _ => rfl⟩

lemma quiet_of_repair
    (hcheck : check peers cluster cp.chunkId cp.placement = cp.placement.map avail)
    (htarget : policy.targetCopies = cp.placement.length)
    (hmissing : firstMissing cp.placement (cp.placement.map avail) = some missing)
    (hrepair : cp.placement.filter avail ≠ [] → ∃ err, repairEc rs peers cluster cp.chunkId
      (healthyPeers cp.placement (cp.placement.map avail)) missing strategy cp.originalLen =
        (.error err, cluster)) :
    Quiet rs policy strategy peers cp cluster := by
  obtain ⟨hmem, habsent, _⟩ := firstMissing_map_some hmissing
  have hdecision := evaluate_map htarget (mem_of_getElem? hmem) habsent
  dsimp only at hdecision
  by_cases hnil : cp.placement.filter avail = []
  · rw [if_pos hnil] at hdecision
    exact quiet_of_lost hcheck hdecision
  · rw [if_neg hnil] at hdecision
    obtain ⟨err, herr⟩ := hrepair hnil
    obtain ⟨hcluster, hrepaired⟩ := runEc_eq cp hcheck hdecision hnil hmissing
    rw [herr] at hcluster hrepaired
    exact ⟨hcluster, hrepaired err rfl⟩

lemma recover_ec (hrs : rs.Lawful) (hencode : encode rs ciphertext k m = .ok fragments)
    (hsource : ∀ x ∈ healthy, x.2 < fragments.length ∧
      source peers cluster id x = some ⟨x.2, fragments.getD x.2 []⟩)
    (hnodup : (healthy.map Prod.snd).Nodup) (henough : k ≤ healthy.length)
    (hbytes : fragments[i]? = some bytes) :
    ∃ peerId, recover rs peers cluster id healthy i (.ec k m) ciphertext.length =
      .ok ⟨peerId, i, bytes⟩ := by
  have hresponses : healthy.filterMap (source peers cluster id) =
      healthy.map fun x => ⟨x.2, fragments.getD x.2 []⟩ := by
    rw [filterMap_congr fun x hx => (hsource x hx).2]
    exact congrFun filterMap_eq_map' healthy
  have hdecode : decodeFromResponses rs (.ec k m)
      (healthy.map fun x => ⟨x.2, fragments.getD x.2 []⟩) ciphertext.length = .ok ciphertext := by
    rw [decodeFromResponses_ec hrs hencode, take_padded]
    · intro r hr
      obtain ⟨x, hx, rfl⟩ := mem_map.1 hr
      have hlt := (hsource x hx).1
      rw [getElem?_eq_getElem hlt, getD_eq_getElem _ _ hlt]
    · rw [map_map]
      exact hnodup
    · rw [length_map]
      exact henough
    · intro hempty
      rw [hempty]
      rfl
  have henough' : ¬healthy.length < (EcStrategy.ec k m).minFragmentsForRead := not_lt.2 henough
  have hsynthetic := length_synthetic k m
  obtain ⟨hi, _⟩ := List.getElem?_eq_some_iff.1 hbytes
  rw [(encode_ok hencode).2.2.length hrs, ← hsynthetic] at hi
  obtain ⟨peerId, hpeer⟩ : ∃ peerId,
      ((range (EcStrategy.ec k m).totalFragments).map UInt64.ofNat)[i]? = some peerId :=
    ⟨_, getElem?_eq_getElem hi⟩
  have hroute : (shardRoutes ((range (EcStrategy.ec k m).totalFragments).map UInt64.ofNat)
      fragments)[i]? = some ⟨peerId, i, bytes⟩ :=
    getElem?_shardRoutes.2 ⟨hpeer, rfl, hbytes⟩
  refine ⟨peerId, ?_⟩
  rw [recover]
  dsimp only
  rw [if_neg henough', hresponses, length_map, if_neg henough', hdecode]
  dsimp only
  rw [encodeForPlacement_of_encode hencode hsynthetic]
  dsimp only
  rw [find_shardRoutes hroute]

lemma repairEc_of_recover (h : recover rs peers cluster id healthy missing.2 strategy len =
    .error err) : repairEc rs peers cluster id healthy missing strategy len =
      (.error err, cluster) := by
  rw [repairEc, h]

lemma repairEc_unknown (h : missing.1 ∉ peers) :
    ∃ err, repairEc rs peers cluster id healthy missing strategy len = (.error err, cluster) := by
  rw [repairEc]
  split
  · exact ⟨_, rfl⟩
  · rw [if_neg h]
    exact ⟨_, rfl⟩

lemma repairEc_few (h : healthy.length < strategy.minFragmentsForRead) :
    ∃ err, repairEc rs peers cluster id healthy missing strategy len = (.error err, cluster) := by
  have hrecover : recover rs peers cluster id healthy missing.2 strategy len =
      .error (.healthyPeers strategy.minFragmentsForRead healthy.length) := if_pos h
  exact ⟨_, repairEc_of_recover hrecover⟩

lemma repairEc_replication (h : missing.2 ≠ 0) :
    ∃ err, repairEc rs peers cluster id healthy missing (.replication n) len =
      (.error err, cluster) := by
  cases hrecover : recover rs peers cluster id healthy missing.2 (.replication n) len with
  | error err => exact ⟨err, repairEc_of_recover hrecover⟩
  | ok route =>
    obtain ⟨_, routes, _, hencode, hmem, hindex⟩ := recover_ok hrecover
    obtain ⟨_, rfl⟩ := encodeForPlacement_replication hencode
    obtain ⟨_, _, rfl⟩ := mem_map.1 hmem
    exact absurd hindex.symm h

end Pass

/-- On a node of the placement: all other nodes are its peers. -/
structure Wired (policy : UnderReplicationPolicy) (strategy : EcStrategy) (peers : List NodeId)
    (placement : List NodeId) (localNode : NodeId) : Prop where
  distinct : placement.Nodup
  member : localNode ∈ placement
  reach : ∀ peerId ∈ placement, peerId ∈ peers ↔ peerId ≠ localNode
  target : policy.targetCopies = strategy.totalFragments

/-- The nodes that are present have their copy, whole if replicated. -/
structure Assigned (strategy : EcStrategy) (id : ChunkId) (routes : List FragmentRoute)
    (present : NodeId → Bool) (cluster : Cluster) : Prop where
  held : ∀ r ∈ routes, present r.peerId = true → (cluster r.peerId).holds id r = true
  lacked : ∀ r ∈ routes, present r.peerId = false → (cluster r.peerId).Lacks id r.fragmentIndex
  whole : ∀ n, strategy = .replication n → ∀ r ∈ routes, ∀ i, i ≠ 0 →
    (cluster r.peerId).store.fragments.lookup (id, i) = none

def missingCopies (placement : List NodeId) (localNode : NodeId) (present : NodeId → Bool) :
    Finset NodeId :=
  placement.toFinset.filter fun peerId => peerId ≠ localNode ∧ present peerId = false

def reported (localNode : NodeId) (present : NodeId → Bool) (peerId : NodeId) : Bool :=
  peerId ≠ localNode && present peerId

def remoteCopies (placement : List NodeId) (localNode : NodeId) (present : NodeId → Bool) :
    Finset NodeId :=
  placement.toFinset.filter fun peerId => reported localNode present peerId

section Sets
variable {placement : List NodeId} {localNode peerId : NodeId} {present : NodeId → Bool}

lemma mem_missingCopies : peerId ∈ missingCopies placement localNode present ↔
    peerId ∈ placement ∧ peerId ≠ localNode ∧ present peerId = false := by
  rw [missingCopies, Finset.mem_filter, mem_toFinset]

lemma reported_eq_false : reported localNode present peerId = false ↔
    peerId = localNode ∨ present peerId = false := by
  rw [reported, Bool.and_eq_false_iff, decide_eq_false_iff_not, not_not]

lemma reported_eq_true : reported localNode present peerId = true ↔
    peerId ≠ localNode ∧ present peerId = true := by
  rw [reported, Bool.and_eq_true_iff, decide_eq_true_iff]

lemma card_remoteCopies (h : placement.Nodup) :
    (remoteCopies placement localNode present).card =
      (placement.filter (reported localNode present)).length := by
  rw [← toFinset_card_of_nodup (h.filter _), toFinset_filter, remoteCopies]

lemma missingCopies_update :
    missingCopies placement localNode (update present peerId true) =
      (missingCopies placement localNode present).erase peerId := by
  ext p
  rw [Finset.mem_erase, mem_missingCopies, mem_missingCopies]
  by_cases hp : p = peerId
  · subst hp
    rw [update_self]
    constructor
    · intro h
      cases h.2.2
    · intro h
      exact absurd rfl h.1
  · rw [update_of_ne hp]
    exact ⟨fun h => ⟨hp, h⟩, fun h => h.2⟩

lemma remoteCopies_subset_update : remoteCopies placement localNode present ⊆
    remoteCopies placement localNode (update present peerId true) := by
  apply Finset.monotone_filter_right
  intro p _ hp
  obtain ⟨hremote, hpresent⟩ := reported_eq_true.1 hp
  apply reported_eq_true.2 ⟨hremote, ?_⟩
  by_cases heq : p = peerId
  · rw [heq, update_self]
  · rw [update_of_ne heq]
    exact hpresent

end Sets

def scrubPass (rs : Coder UInt8) (policy : UnderReplicationPolicy) (strategy : EcStrategy)
    (peers : List NodeId) (cp : ChunkPlacementWithLen) (cluster : Cluster) : Cluster :=
  (runEc rs policy strategy peers [cp] cluster).2

section Probes
variable {policy : UnderReplicationPolicy} {strategy : EcStrategy} {peers : List NodeId}
  {cluster : Cluster} {id : ChunkId} {placement : List NodeId} {localNode : NodeId}
  {present avail : NodeId → Bool} {routes : List FragmentRoute}

lemma Assigned.has (hassigned : Assigned strategy id routes present cluster) (hr : r ∈ routes) :
    (cluster r.peerId).handleHasFragment id r.fragmentIndex = .ok (present r.peerId) := by
  cases hpresent : present r.peerId with
  | true => exact (holds_iff.1 (hassigned.held r hr hpresent)).1
  | false => exact (hassigned.lacked r hr hpresent).has

lemma check_eq (hwired : Wired policy strategy peers placement localNode)
    (hlocal : avail localNode = false)
    (hremote : ∀ i peerId, placement[i]? = some peerId → peerId ≠ localNode →
      (cluster peerId).handleHasFragment id i = .ok (avail peerId)) :
    check peers cluster id placement = placement.map avail := by
  apply ext_getElem?
  intro i
  rw [check, getElem?_mapIdx, getElem?_map]
  cases hi : placement[i]? with
  | none => rfl
  | some peerId =>
    have hreach := hwired.reach peerId (mem_of_getElem? hi)
    rw [Option.map_some, Option.map_some]
    by_cases heq : peerId = localNode
    · rw [if_neg fun hmem => hreach.1 hmem heq, heq, hlocal]
    · rw [if_pos (hreach.2 heq), hremote i peerId hi heq]
      rfl

end Probes

section Coded
variable {rs : Coder UInt8} {policy : UnderReplicationPolicy} {peers : List NodeId}
  {cluster : Cluster} {id : ChunkId} {ciphertext : Bytes} {placement : List NodeId}
  {localNode : NodeId} {present : NodeId → Bool} {k m : Nat} {fragments : List Bytes}

lemma exists_shardRoute (hlength : placement.length = fragments.length)
    (h : placement[i]? = some peerId) :
    ∃ bytes, fragments[i]? = some bytes ∧
      (⟨peerId, i, bytes⟩ : FragmentRoute) ∈ shardRoutes placement fragments := by
  obtain ⟨hi, _⟩ := List.getElem?_eq_some_iff.1 h
  have hbytes := getElem?_eq_getElem (hlength ▸ hi : i < fragments.length)
  exact ⟨_, hbytes, mem_of_getElem? (getElem?_shardRoutes.2 ⟨h, rfl, hbytes⟩)⟩

lemma Assigned.put (hdistinct : placement.Nodup)
    (hassigned : Assigned (.ec k m) id (shardRoutes placement fragments) present cluster)
    (hroute : route ∈ shardRoutes placement fragments) (hholds : node.holds id route = true) :
    Assigned (.ec k m) id (shardRoutes placement fragments)
      (update present route.peerId true) (update cluster route.peerId node) := by
  have hsame : ∀ r ∈ shardRoutes placement fragments, r.peerId = route.peerId → r = route := by
    intro r hr heq
    obtain ⟨i, hi⟩ := mem_iff_getElem?.1 hr
    obtain ⟨j, hj⟩ := mem_iff_getElem?.1 hroute
    have hi' := (getElem?_shardRoutes.1 hi).1
    have hj' := (getElem?_shardRoutes.1 hj).1
    rw [← heq] at hj'
    obtain ⟨hlt, _⟩ := List.getElem?_eq_some_iff.1 hi'
    have hij : i = j := (getElem?_inj hlt hdistinct).1 (hi'.trans hj'.symm)
    rw [hij, hj] at hi
    exact (Option.some.inj hi).symm
  refine ⟨?_, ?_, fun n h => by cases h⟩
  · intro r hr hpresent
    by_cases heq : r.peerId = route.peerId
    · rw [heq, update_self, hsame r hr heq]
      exact hholds
    · rw [update_of_ne heq] at hpresent ⊢
      exact hassigned.held r hr hpresent
  · intro r hr hpresent
    by_cases heq : r.peerId = route.peerId
    · rw [heq, update_self] at hpresent
      cases hpresent
    · rw [update_of_ne heq] at hpresent ⊢
      exact hassigned.lacked r hr hpresent

lemma idxOf_of_getElem? (hdistinct : placement.Nodup) (h : placement[i]? = some peerId) :
    placement.idxOf peerId = i := by
  obtain ⟨hi, heq⟩ := List.getElem?_eq_some_iff.1 h
  rw [← heq]
  exact hdistinct.idxOf_getElem i hi

section
variable (hrs : rs.Lawful) (hencode : encode rs ciphertext k m = .ok fragments)
  (hwired : Wired policy (.ec k m) peers placement localNode)
  (hassigned : Assigned (.ec k m) id (shardRoutes placement fragments) present cluster)
  (hlength : placement.length = fragments.length)
include hwired hassigned hlength

lemma check_shards :
    check peers cluster id placement = placement.map (reported localNode present) := by
  apply check_eq hwired (reported_eq_false.2 (.inl rfl))
  intro i peerId hi hremote
  obtain ⟨bytes, _, hroute⟩ := exists_shardRoute hlength hi
  rw [reported, decide_eq_true hremote, Bool.true_and]
  exact hassigned.has hroute

lemma source_healthyPeers
    (hx : x ∈ healthyPeers placement (placement.map (reported localNode present))) :
    x.2 < fragments.length ∧
      source peers cluster id x = some ⟨x.2, fragments.getD x.2 []⟩ := by
  obtain ⟨hposition, hreported⟩ := mem_healthyPeers_map.1 hx
  obtain ⟨bytes, hbytes, hroute⟩ := exists_shardRoute hlength hposition
  obtain ⟨hremote, hpresent⟩ := reported_eq_true.1 hreported
  obtain ⟨_, envelope, hget, hciphertext⟩ := holds_iff.1 (hassigned.held _ hroute hpresent)
  refine ⟨(List.getElem?_eq_some_iff.1 hbytes).1, ?_⟩
  rw [source, if_pos ((hwired.reach _ (mem_of_getElem? hposition)).2 hremote), hget,
    getD_eq_getElem?_getD, hbytes]
  exact congrArg (fun bytes => some (FragmentResponse.mk x.2 bytes)) hciphertext

include hrs hencode

/-- A pass repairs a node before the local one, or writes nothing. -/
lemma pass_shards :
    (Quiet rs policy (.ec k m) peers ⟨id, placement, ciphertext.length⟩ cluster ∧
      ((remoteCopies placement localNode present).card < k ∨
        ∀ peerId ∈ missingCopies placement localNode present,
          placement.idxOf localNode < placement.idxOf peerId)) ∨
    ∃ peerId ∈ missingCopies placement localNode present,
      placement.idxOf peerId < placement.idxOf localNode ∧
      k ≤ (remoteCopies placement localNode present).card ∧
      Assigned (.ec k m) id (shardRoutes placement fragments) (update present peerId true)
        (runEc rs policy (.ec k m) peers [⟨id, placement, ciphertext.length⟩] cluster).2 := by
  obtain ⟨hk, _, hencoded⟩ := encode_ok hencode
  have hcheck := check_shards hwired hassigned hlength
  have htarget : policy.targetCopies = placement.length := by
    rw [hlength, hencoded.length hrs]
    exact hwired.target
  have hcard : (remoteCopies placement localNode present).card = _ :=
    card_remoteCopies hwired.distinct
  obtain ⟨⟨peerId, i⟩, hmissing⟩ := exists_firstMissing_map hwired.member
    (reported_eq_false.2 (Or.inl rfl : localNode = localNode ∨ present localNode = false))
  obtain ⟨hpeer, habsent, hbefore⟩ := firstMissing_map_some hmissing
  dsimp only at hpeer habsent hbefore
  have hposition : placement.idxOf peerId = i := idxOf_of_getElem? hwired.distinct hpeer
  -- the peers before the missing one are all reported
  have hafter : ∀ p ∈ placement, reported localNode present p = false → p ≠ peerId →
      placement.idxOf peerId < placement.idxOf p := by
    intro p hp hunreported hne
    have hp' := getElem?_idxOf hp
    rcases lt_trichotomy (placement.idxOf peerId) (placement.idxOf p) with hlt | heq | hgt
    · exact hlt
    · exact absurd ((idxOf_inj hp).1 heq.symm) hne
    · rw [hbefore _ (hposition ▸ hgt) p hp'] at hunreported
      cases hunreported
  by_cases hlocal : peerId = localNode
  · subst hlocal
    apply Or.inl
    refine ⟨quiet_of_repair hcheck htarget hmissing fun _ => ?_, Or.inr ?_⟩
    · exact repairEc_unknown fun hmem => (hwired.reach _ hwired.member).1 hmem rfl
    · intro p hp
      obtain ⟨hmem, hremote, hlost⟩ := mem_missingCopies.1 hp
      exact hafter p hmem (reported_eq_false.2 (Or.inr hlost)) hremote
  have hmem := mem_of_getElem? hpeer
  have hlost := (reported_eq_false.1 habsent).resolve_left hlocal
  by_cases hfew : (remoteCopies placement localNode present).card < k
  · apply Or.inl
    refine ⟨quiet_of_repair hcheck htarget hmissing fun _ => ?_, Or.inl hfew⟩
    apply repairEc_few
    rw [length_healthyPeers_map, ← hcard]
    exact hfew
  · apply Or.inr
    have henough := Nat.le_of_not_lt hfew
    refine ⟨peerId, mem_missingCopies.2 ⟨hmem, hlocal, hlost⟩, ?_, henough, ?_⟩
    · exact hafter localNode hwired.member (reported_eq_false.2 (Or.inl rfl)) (Ne.symm hlocal)
    · have hsome : placement.filter (reported localNode present) ≠ [] := by
        rw [← length_pos_iff, ← hcard]
        omega
      obtain ⟨bytes, hbytes, hroute⟩ := exists_shardRoute hlength hpeer
      obtain ⟨dst, hrecover⟩ := recover_ec hrs hencode
        (fun x hx => source_healthyPeers hwired hassigned hlength hx)
        (nodup_healthyPeers_map _ placement)
        (by rw [length_healthyPeers_map, ← hcard]; exact henough) hbytes
      have hdecision := evaluate_map htarget hmem habsent
      dsimp only at hdecision
      rw [if_neg hsome] at hdecision
      rw [(runEc_eq ⟨id, _, _⟩ hcheck hdecision hsome hmissing).1, repairEc]
      dsimp only
      rw [hrecover]
      dsimp only
      rw [if_pos ((hwired.reach peerId hmem).2 hlocal)]
      exact hassigned.put hwired.distinct hroute ((hassigned.lacked _ hroute hlost).put .zeroed).2

lemma restores_shards (henough : k ≤ (remoteCopies placement localNode present).card)
    (hbefore : ∀ peerId ∈ missingCopies placement localNode present,
      placement.idxOf peerId < placement.idxOf localNode) :
    ∃ present', missingCopies placement localNode present' = ∅ ∧
      Assigned (.ec k m) id (shardRoutes placement fragments) present'
        ((scrubPass rs policy (.ec k m) peers ⟨id, placement, ciphertext.length⟩)^[
          (missingCopies placement localNode present).card] cluster) := by
  generalize hn : (missingCopies placement localNode present).card = n
  induction n generalizing present cluster with
  | zero => exact ⟨present, Finset.card_eq_zero.1 hn, hassigned⟩
  | succ n ih =>
    obtain ⟨p, hp⟩ : (missingCopies placement localNode present).Nonempty := by
      rw [← Finset.card_pos, hn]
      exact succ_pos n
    rcases pass_shards hrs hencode hwired hassigned hlength with
      ⟨_, hfew | hafter⟩ | ⟨peerId, hmem, _, _, hassigned'⟩
    · exact absurd henough (not_le.2 hfew)
    · exact absurd (hbefore p hp) (not_lt.2 (le_of_lt (hafter p hp)))
    · rw [iterate_succ_apply]
      apply ih hassigned'
      · exact henough.trans (Finset.card_le_card remoteCopies_subset_update)
      · intro q hq
        rw [missingCopies_update] at hq
        exact hbefore q (Finset.mem_of_mem_erase hq)
      · rw [missingCopies_update, Finset.card_erase_of_mem hmem, hn]
        rfl

lemma stays_missing (hlost : present peerId = false)
    (hafter : placement.idxOf localNode < placement.idxOf peerId) (passes : Nat) :
    ∃ present', present' peerId = false ∧
      Assigned (.ec k m) id (shardRoutes placement fragments) present'
        ((scrubPass rs policy (.ec k m) peers ⟨id, placement, ciphertext.length⟩)^[passes]
          cluster) := by
  induction passes with
  | zero => exact ⟨present, hlost, hassigned⟩
  | succ passes ih =>
    obtain ⟨present', hlost', hassigned'⟩ := ih
    rw [iterate_succ_apply']
    rcases pass_shards hrs hencode hwired hassigned' hlength with
      ⟨hquiet, _⟩ | ⟨q, _, hbefore, _, hassigned''⟩
    · refine ⟨present', hlost', ?_⟩
      rw [scrubPass, hquiet.1]
      exact hassigned'
    · refine ⟨_, ?_, hassigned''⟩
      rw [update_of_ne]
      · exact hlost'
      · intro heq
        rw [heq] at hafter
        omega

end

end Coded

section Replicated
variable {rs : Coder UInt8} {policy : UnderReplicationPolicy} {peers : List NodeId}
  {cluster : Cluster} {id : ChunkId} {ciphertext : Bytes} {placement : List NodeId}
  {localNode : NodeId} {present : NodeId → Bool} {n : Nat}

/-- The oracle asks for the peer's position; a whole copy is fragment 0. -/
def reportedFirst (placement : List NodeId) (localNode : NodeId) (present : NodeId → Bool)
    (peerId : NodeId) : Bool :=
  reported localNode present peerId && placement.idxOf peerId = 0

lemma check_copies (hwired : Wired policy (.replication n) peers placement localNode)
    (hassigned : Assigned (.replication n) id (placement.map fun p => ⟨p, 0, ciphertext⟩) present
      cluster) :
    check peers cluster id placement =
      placement.map (reportedFirst placement localNode present) := by
  apply check_eq hwired
  · rw [reportedFirst, reported_eq_false.2 (.inl rfl), Bool.false_and]
  intro i peerId hi hremote
  have hroute := mem_map_of_mem (f := fun p => (⟨p, 0, ciphertext⟩ : FragmentRoute))
    (mem_of_getElem? hi)
  rw [reportedFirst, idxOf_of_getElem? hwired.distinct hi, reported, decide_eq_true hremote,
    Bool.true_and]
  by_cases hzero : i = 0
  · rw [hzero, decide_eq_true rfl, Bool.and_true]
    exact hassigned.has hroute
  · rw [decide_eq_false hzero, Bool.and_false, handleHasFragment, if_neg hzero,
      listsFragment, hassigned.whole n rfl _ hroute i hzero]
    rfl

lemma pass_copies (hwired : Wired policy (.replication n) peers placement localNode)
    (hassigned : Assigned (.replication n) id (placement.map fun p => ⟨p, 0, ciphertext⟩) present
      cluster) (hlength : placement.length = n) :
    Quiet rs policy (.replication n) peers ⟨id, placement, ciphertext.length⟩ cluster := by
  have hcheck := check_copies hwired hassigned
  have hunreported : reportedFirst placement localNode present localNode = false := by
    rw [reportedFirst, reported_eq_false.2 (Or.inl rfl), Bool.false_and]
  obtain ⟨⟨peerId, i⟩, hmissing⟩ := exists_firstMissing_map hwired.member hunreported
  have htarget : policy.targetCopies = placement.length := hwired.target.trans hlength.symm
  refine quiet_of_repair hcheck htarget hmissing ?_
  intro hsome
  obtain ⟨p, hp⟩ := exists_mem_of_ne_nil _ hsome
  obtain ⟨hmem, hreported⟩ := mem_filter.1 hp
  obtain ⟨hpeer, habsent, _⟩ := firstMissing_map_some hmissing
  apply repairEc_replication
  -- the only peer that can be reported is the first one
  intro hzero
  have hfirst := getElem?_idxOf hmem
  rw [of_decide_eq_true (Bool.and_eq_true_iff.1 hreported).2] at hfirst
  dsimp only at hzero hpeer habsent
  rw [hzero, hfirst] at hpeer
  rw [← Option.some.inj hpeer, hreported] at habsent
  cases habsent

end Replicated

/-- Nothing is missing, or an EC chunk lacks only fragments before the local node. -/
def Restorable (strategy : EcStrategy) (placement : List NodeId) (localNode : NodeId)
    (present : NodeId → Bool) : Prop :=
  missingCopies placement localNode present = ∅ ∨
    ∃ k m, strategy = .ec k m ∧ k ≤ (remoteCopies placement localNode present).card ∧
      ∀ peerId ∈ missingCopies placement localNode present,
        placement.idxOf peerId < placement.idxOf localNode

section Main
variable {rs : Coder UInt8} {policy : UnderReplicationPolicy} {strategy : EcStrategy}
  {peers : List NodeId} {cluster : Cluster} {id : ChunkId} {ciphertext : Bytes}
  {placement : List NodeId} {routes : List FragmentRoute} {localNode : NodeId}
  {present : NodeId → Bool}

lemma coded_routes (hrs : rs.Lawful)
    (h : encodeForPlacement rs (.ec k m) ciphertext placement = .ok routes) :
    ∃ fragments, encode rs ciphertext k m = .ok fragments ∧ placement.length = fragments.length ∧
      routes = shardRoutes placement fragments := by
  obtain ⟨fragments, hencode, hlength, hroutes⟩ := encodeForPlacement_ec h
  exact ⟨fragments, hencode, hlength.trans ((encode_ok hencode).2.2.length hrs).symm, hroutes⟩

lemma exists_route (h : encodeForPlacement rs strategy ciphertext placement = .ok routes)
    (hrs : rs.Lawful) : peerId ∈ placement ↔ ∃ r ∈ routes, r.peerId = peerId := by
  cases strategy with
  | replication n =>
    obtain ⟨_, rfl⟩ := encodeForPlacement_replication h
    constructor
    · intro hmem
      exact ⟨_, mem_map_of_mem hmem, rfl⟩
    · intro hr
      obtain ⟨r, hr, rfl⟩ := hr
      obtain ⟨p, hp, rfl⟩ := mem_map.1 hr
      exact hp
  | ec k m =>
    obtain ⟨fragments, hencode, hlength, rfl⟩ := coded_routes hrs h
    constructor
    · intro hmem
      obtain ⟨i, hi⟩ := mem_iff_getElem?.1 hmem
      obtain ⟨bytes, _, hroute⟩ := exists_shardRoute hlength hi
      exact ⟨_, hroute, rfl⟩
    · intro hr
      obtain ⟨r, hr, rfl⟩ := hr
      obtain ⟨i, hi⟩ := mem_iff_getElem?.1 hr
      exact mem_of_getElem? (getElem?_shardRoutes.1 hi).1

lemma Assigned.restored (hassigned : Assigned strategy id routes present cluster)
    (hroutes : encodeForPlacement rs strategy ciphertext placement = .ok routes) (hrs : rs.Lawful)
    (hnone : missingCopies placement localNode present = ∅) (hr : r ∈ routes)
    (hremote : r.peerId ≠ localNode) : (cluster r.peerId).holds id r = true := by
  apply hassigned.held r hr
  have hmem := (exists_route hroutes hrs).2 ⟨r, hr, rfl⟩
  cases hpresent : present r.peerId with
  | true => rfl
  | false =>
    have hmissing := mem_missingCopies.2 ⟨hmem, hremote, hpresent⟩
    rw [hnone] at hmissing
    exact absurd hmissing (Finset.notMem_empty _)

lemma Assigned.not_restored (hassigned : Assigned strategy id routes present cluster)
    (hroutes : encodeForPlacement rs strategy ciphertext placement = .ok routes) (hrs : rs.Lawful)
    (hmem : peerId ∈ placement) (hlost : present peerId = false) :
    ∃ r ∈ routes, r.peerId = peerId ∧ (cluster r.peerId).holds id r = false := by
  obtain ⟨r, hr, rfl⟩ := (exists_route hroutes hrs).1 hmem
  exact ⟨r, hr, rfl, (hassigned.lacked r hr hlost).not_holds⟩

lemma exists_unrestored (hrs : rs.Lawful)
    (hroutes : encodeForPlacement rs strategy ciphertext placement = .ok routes)
    (hwired : Wired policy strategy peers placement localNode)
    (hassigned : Assigned strategy id routes present cluster)
    (hnot : ¬Restorable strategy placement localNode present) (passes : Nat) :
    ∃ r ∈ routes, r.peerId ≠ localNode ∧
      ((scrubPass rs policy strategy peers ⟨id, placement, ciphertext.length⟩)^[passes] cluster
        r.peerId).holds id r = false := by
  obtain ⟨hsome, hcoded⟩ := not_or.1 hnot
  obtain ⟨p, hp⟩ := Finset.nonempty_iff_ne_empty.2 hsome
  obtain ⟨hmem, hremote, hlost⟩ := mem_missingCopies.1 hp
  -- if passes write nothing the first missing copy stays missing
  have hstuck (hquiet : Quiet rs policy strategy peers ⟨id, placement, ciphertext.length⟩ cluster) :
      ∃ r ∈ routes, r.peerId ≠ localNode ∧
        ((scrubPass rs policy strategy peers ⟨id, placement, ciphertext.length⟩)^[passes] cluster
          r.peerId).holds id r = false := by
    obtain ⟨r, hr, rfl, hholds⟩ := hassigned.not_restored hroutes hrs hmem hlost
    refine ⟨r, hr, hremote, ?_⟩
    rw [iterate_fixed hquiet.1]
    exact hholds
  cases strategy with
  | replication n =>
    obtain ⟨hlength, rfl⟩ := encodeForPlacement_replication hroutes
    exact hstuck (pass_copies hwired hassigned hlength)
  | ec k m =>
    obtain ⟨fragments, hencode, hlength, rfl⟩ := coded_routes hrs hroutes
    by_cases hfew : (remoteCopies placement localNode present).card < k
    · rcases pass_shards hrs hencode hwired hassigned hlength with
        ⟨hquiet, _⟩ | ⟨_, _, _, henough, _⟩
      · exact hstuck hquiet
      · exact absurd henough (not_le.2 hfew)
    · obtain ⟨q, hq, hbehind⟩ : ∃ q ∈ missingCopies placement localNode present,
          ¬placement.idxOf q < placement.idxOf localNode := by
        by_contra hall
        push Not at hall
        exact hcoded ⟨k, m, rfl, Nat.le_of_not_lt hfew, hall⟩
      obtain ⟨hmem', hremote', hlost'⟩ := mem_missingCopies.1 hq
      have hafter : placement.idxOf localNode < placement.idxOf q := by
        rcases Nat.lt_or_eq_of_le (Nat.le_of_not_lt hbehind) with hlt | heq
        · exact hlt
        · exact absurd ((idxOf_inj hwired.member).1 heq).symm hremote'
      obtain ⟨present', hlost'', hassigned'⟩ := stays_missing hrs hencode hwired hassigned hlength
        hlost' hafter passes
      obtain ⟨r, hr, rfl, hholds⟩ := hassigned'.not_restored hroutes hrs hmem' hlost''
      exact ⟨r, hr, hremote', hholds⟩

/-- The scrub restores every copy exactly if those missing are restorable. -/
theorem scrub_restores_iff (hrs : rs.Lawful)
    (hroutes : encodeForPlacement rs strategy ciphertext placement = .ok routes)
    (hwired : Wired policy strategy peers placement localNode)
    (hassigned : Assigned strategy id routes present cluster) :
    let cp : ChunkPlacementWithLen := ⟨id, placement, ciphertext.length⟩
    ((∃ passes ≤ (missingCopies placement localNode present).card, ∀ r ∈ routes,
        r.peerId ≠ localNode →
          ((scrubPass rs policy strategy peers cp)^[passes] cluster r.peerId).holds id r = true) ↔
      Restorable strategy placement localNode present) ∧
    ((∀ peerId ∈ placement, present peerId = true) →
      Quiet rs policy strategy peers cp cluster) := by
  intro cp
  refine ⟨⟨?_, ?_⟩, ?_⟩
  · intro h
    obtain ⟨passes, _, hrestored⟩ := h
    by_contra hnot
    obtain ⟨r, hr, hremote, hholds⟩ := exists_unrestored hrs hroutes hwired hassigned hnot passes
    rw [hrestored r hr hremote] at hholds
    cases hholds
  · intro h
    rcases h with hnone | ⟨k, m, rfl, henough, hbefore⟩
    · exact ⟨0, zero_le _, fun r hr hremote =>
        hassigned.restored hroutes hrs hnone hr hremote⟩
    · obtain ⟨fragments, hencode, hlength, rfl⟩ := coded_routes hrs hroutes
      obtain ⟨present', hnone, hassigned'⟩ := restores_shards hrs hencode hwired hassigned hlength
        henough hbefore
      exact ⟨_, le_rfl, fun r hr hremote => hassigned'.restored hroutes hrs hnone hr hremote⟩
  · intro hall
    cases strategy with
    | replication n =>
      obtain ⟨hlength, rfl⟩ := encodeForPlacement_replication hroutes
      exact pass_copies hwired hassigned hlength
    | ec k m =>
      obtain ⟨fragments, hencode, hlength, rfl⟩ := coded_routes hrs hroutes
      rcases pass_shards hrs hencode hwired hassigned hlength with ⟨hquiet, _⟩ | ⟨p, hp, _⟩
      · exact hquiet
      · obtain ⟨hmem, _, hlost⟩ := mem_missingCopies.1 hp
        rw [hall p hmem] at hlost
        cases hlost

end Main

section Small

def putSmall (index : Nat) : Node := (blank.handlePutFragment index small).2

def firstLost : Cluster := fun peerId =>
  if peerId = 2 then putSmall 1 else if peerId = 3 then putSmall 2 else blank

/-- The third node restores the fragment of the first. -/
theorem scrub_restores_iff_firstLost :
    ∃ passes ≤ 1, ∀ peerId ∈ [1, 2],
      ((scrubPass (mirror UInt8) ⟨3, 2⟩ (.ec 1 2) [1, 2] ⟨small.chunkId, [1, 2, 3], 5⟩)^[passes]
        firstLost peerId).holds small.chunkId ⟨peerId, [1, 2, 3].idxOf peerId, small.ciphertext⟩ =
          true := by
  have hroutes : encodeForPlacement (mirror UInt8) (.ec 1 2) small.ciphertext [1, 2, 3] =
      .ok [⟨1, 0, small.ciphertext⟩, ⟨2, 1, small.ciphertext⟩, ⟨3, 2, small.ciphertext⟩] := by
    decide
  have hwired : Wired ⟨3, 2⟩ (.ec 1 2) [1, 2] [1, 2, 3] 3 :=
    ⟨by decide, by decide, by simp, rfl⟩
  have hassigned : Assigned (.ec 1 2) small.chunkId
      [⟨1, 0, small.ciphertext⟩, ⟨2, 1, small.ciphertext⟩, ⟨3, 2, small.ciphertext⟩]
      (fun peerId => peerId ≠ 1) firstLost :=
    ⟨by decide, by decide, fun n h => by cases h⟩
  have hmissing : missingCopies [1, 2, 3] 3 (fun peerId => peerId ≠ 1) = {1} := by decide
  have hrestorable : Restorable (.ec 1 2) [1, 2, 3] 3 fun peerId => peerId ≠ 1 :=
    Or.inr ⟨1, 2, rfl, by decide, by rw [hmissing]; simp⟩
  obtain ⟨passes, hpasses, hheld⟩ :=
    (scrub_restores_iff mirror_lawful hroutes hwired hassigned).1.2 hrestorable
  refine ⟨passes, hpasses.trans (by decide), ?_⟩
  intro peerId hpeer
  have hroute : ∀ p ∈ [1, 2], (⟨p, [1, 2, 3].idxOf p, small.ciphertext⟩ : FragmentRoute) ∈
      ([⟨1, 0, small.ciphertext⟩, ⟨2, 1, small.ciphertext⟩, ⟨3, 2, small.ciphertext⟩] :
        List FragmentRoute) ∧ p ≠ 3 := by simp
  exact hheld _ (hroute peerId hpeer).1 (hroute peerId hpeer).2

def copyLost : Cluster := fun peerId => if peerId = 1 then putSmall 0 else blank

def secondLost : Cluster := fun peerId =>
  if peerId = 1 then putSmall 0 else if peerId = 3 then putSmall 2 else blank

/-- On the first node the second copy is never restored. -/
theorem scrub_never_restores :
    ((copyLost 1).holds small.chunkId ⟨1, 0, small.ciphertext⟩ = true ∧
      ∀ passes, ((scrubPass (mirror UInt8) ⟨2, 2⟩ (.replication 2) [2]
        ⟨small.chunkId, [1, 2], 5⟩)^[passes] copyLost 2).holds small.chunkId
          ⟨2, 0, small.ciphertext⟩ = false) ∧
      (secondLost 1).holds small.chunkId ⟨1, 0, small.ciphertext⟩ = true ∧
      (secondLost 3).holds small.chunkId ⟨3, 2, small.ciphertext⟩ = true ∧
      ∀ passes, ((scrubPass (mirror UInt8) ⟨3, 2⟩ (.ec 1 2) [2, 3]
        ⟨small.chunkId, [1, 2, 3], 5⟩)^[passes] secondLost 2).holds small.chunkId
          ⟨2, 1, small.ciphertext⟩ = false := by
  have hcopy : scrubPass (mirror UInt8) ⟨2, 2⟩ (.replication 2) [2] ⟨small.chunkId, [1, 2], 5⟩
      copyLost = copyLost := rfl
  have hshard : scrubPass (mirror UInt8) ⟨3, 2⟩ (.ec 1 2) [2, 3] ⟨small.chunkId, [1, 2, 3], 5⟩
      secondLost = secondLost := rfl
  refine ⟨⟨by decide, ?_⟩, by decide, by decide, ?_⟩
  · intro passes
    rw [iterate_fixed hcopy]
    decide
  · intro passes
    rw [iterate_fixed hshard]
    decide

end Small

end Kiseki.Fabric
