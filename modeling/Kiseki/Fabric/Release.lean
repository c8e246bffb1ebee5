import Kiseki.Fabric.EcPath
import Kiseki.Lib.Tally
import Mathlib.Algebra.BigOperators.Pi
import Mathlib.Algebra.Order.Group.Nat
import Mathlib.Algebra.Order.Monoid.Prod
import Mathlib.Algebra.Order.Pi

namespace Kiseki.Fabric

open Erasure Kiseki.Chunk Function Finmap List Bool Node

/-- Index 0 gives back one reference to the chunk, any other fragment is removed. -/
def Node.handleDeleteFragment (node : Node) (id : ChunkId) (fragmentIndex : Nat) :
    Except ChunkError Bool × Node :=
  if fragmentIndex = 0 then
    match node.store.decrementRefcount id with
    | .ok (n, store) => (.ok (n = 0), { node with store := store })
    | .error (.notFound _) => (.ok false, node)
    | .error err => (.error err, node)
  else
    let r := node.store.deleteFragment id fragmentIndex
    (.ok r.1, { node with store := r.2 })

structure DeleteDistributedReport where
  peersCalled : Nat
  peersActuallyDeleted : Nat
  peersFailed : Nat
deriving DecidableEq, Repr

def DeleteDistributedReport.reply (report : DeleteDistributedReport) :
    Option (Except ChunkError Bool) → DeleteDistributedReport
  | some (.ok true) =>
    { report with
      peersCalled := report.peersCalled + 1
      peersActuallyDeleted := report.peersActuallyDeleted + 1 }
  | some (.ok false) => { report with peersCalled := report.peersCalled + 1 }
  | _ =>
    { report with
      peersCalled := report.peersCalled + 1
      peersFailed := report.peersFailed + 1 }

def fanOut (landed : NodeId → Bool) (envelope : Envelope) (st : Nat × Cluster)
    (peerId : NodeId) : Nat × Cluster :=
  if landed peerId then
    let put := (st.2 peerId).handlePutFragment 0 envelope
    (if put.1.isOk then st.1 + 1 else st.1, update st.2 peerId put.2)
  else st

def deleteAt (reached : NodeId → Bool) (id : ChunkId) (st : DeleteDistributedReport × Cluster)
    (peerId : NodeId) : DeleteDistributedReport × Cluster :=
  if reached peerId then
    let r := (st.2 peerId).handleDeleteFragment id 0
    (st.1.reply (some r.1), update st.2 peerId r.2)
  else (st.1.reply none, st.2)

namespace ClusterCfg

def quorumRequired (cfg : ClusterCfg) : Nat := min cfg.minAcks (1 + cfg.peers.length)

/-- Fragments over the placement, or a copy to every peer. -/
def writeChunk (rs : Coder UInt8) (cfg : ClusterCfg) (strategy : EcStrategy)
    (placement : List NodeId) (landed : NodeId → Bool) (cluster : Cluster) (envelope : Envelope) :
    Except FabricError Bool × Cluster :=
  match strategy with
  | .ec data parity =>
    let r := writeChunkEc rs cfg landed cluster envelope placement (.ec data parity)
    match r.1 with
    | .error err => (.error err, r.2)
    | .ok () =>
      let self := r.2 cfg.selfNodeId
      -- a registration that fails is only logged
      match self.store.registerEcChunk envelope with
      | .error _ => (.ok true, r.2)
      | .ok (_, store) =>
        (.ok true, update r.2 cfg.selfNodeId { self with store := store })
  | .replication _ =>
    let self := cluster cfg.selfNodeId
    match self.store.writeChunk envelope with
    | .error err => (.error (.chunk err), cluster)
    | .ok (stored, store) =>
      let st := cfg.peers.foldl (fanOut landed envelope)
        (1, update cluster cfg.selfNodeId { self with store := store })
      (if cfg.quorumRequired ≤ st.1 then .ok stored
        else .error (.quorumLost st.1 cfg.quorumRequired), st.2)

def decrementRefcount (cfg : ClusterCfg) (cluster : Cluster) (id : ChunkId) :
    Except ChunkError Nat × Cluster :=
  let self := cluster cfg.selfNodeId
  match self.store.decrementRefcount id with
  | .error err => (.error err, cluster)
  | .ok (n, store) => (.ok n, update cluster cfg.selfNodeId { self with store := store })

def deleteDistributed (cfg : ClusterCfg) (reached : NodeId → Bool) (cluster : Cluster)
    (id : ChunkId) : DeleteDistributedReport × Cluster :=
  cfg.peers.foldl (deleteAt reached id) (⟨0, 0, 0⟩, cluster)

end ClusterCfg

variable {i : Nat}

section Counts
variable {s s' : LocalStore} {envelope : Envelope} {id : ChunkId}

def LocalStore.count (s : LocalStore) (id : ChunkId) : Nat :=
  ((s.chunks.lookup id).map Prod.fst).getD 0

def Node.Freed (node : Node) (id : ChunkId) : Prop :=
  node.store.count id = 0 ∧ ∀ i, node.store.listsFragment id i = false

lemma LocalStore.writeChunk_room (envelope : Envelope) (h : s.count envelope.chunkId < u64Max) :
    ∃ stored s', s.writeChunk envelope = .ok (stored, s') ∧
      s'.count envelope.chunkId = s.count envelope.chunkId + 1 := by
  rw [count] at h ⊢
  rw [writeChunk]
  cases hentry : s.chunks.lookup envelope.chunkId with
  | none =>
    refine ⟨_, _, rfl, ?_⟩
    rw [count, lookup_insert]
    rfl
  | some entry =>
    rw [hentry, Option.map_some, Option.getD_some] at h
    dsimp only
    rw [if_pos h]
    refine ⟨_, _, rfl, ?_⟩
    rw [count, lookup_insert]
    rfl

lemma LocalStore.fragments_writeChunk {stored : Bool}
    (h : s.writeChunk envelope = .ok (stored, s')) : s'.fragments = s.fragments := by
  rw [writeChunk] at h
  split at h
  · cases h
    rfl
  · split at h
    · cases h
      rfl
    · cases h

lemma LocalStore.count_decrement (h : s.decrementRefcount id = .ok (n, s')) :
    n = s.count id - 1 ∧ s'.count id = s.count id - 1 ∧ s'.fragments = s.fragments := by
  rw [decrementRefcount] at h
  split at h
  · cases h
  rename_i entry hentry
  split at h
  · cases h
  · cases h
    rw [count, count, hentry, lookup_insert]
    exact ⟨rfl, rfl, rfl⟩

lemma LocalStore.count_of_decrement_error (h : s.decrementRefcount id = .error err) :
    s.count id = 0 := by
  rw [decrementRefcount] at h
  rw [count]
  split at h
  · rename_i hentry
    rw [hentry]
    rfl
  rename_i entry hentry
  split at h
  · rename_i hzero
    rw [hentry]
    exact hzero
  · cases h

lemma Node.put_room {node : Node} (h : node.store.count envelope.chunkId < u64Max) :
    (node.handlePutFragment 0 envelope).1.isOk = true ∧
      (node.handlePutFragment 0 envelope).2.store.count envelope.chunkId =
        node.store.count envelope.chunkId + 1 := by
  obtain ⟨stored, s', hwrite, hcount⟩ := LocalStore.writeChunk_room envelope h
  rw [handlePutFragment, if_pos rfl, hwrite]
  exact ⟨rfl, hcount⟩

lemma Node.fragments_put (node : Node) :
    (node.handlePutFragment 0 envelope).2.store.fragments = node.store.fragments := by
  rw [handlePutFragment, if_pos rfl]
  cases hwrite : node.store.writeChunk envelope with
  | error err => rfl
  | ok r => exact LocalStore.fragments_writeChunk hwrite

lemma LocalStore.lists_writeFragment (index : Nat) (data : Bytes) :
    (s.writeFragment id index data).listsFragment id i = true ↔
      s.listsFragment id i = true ∨ index = i := by
  rw [listsFragment, writeFragment]
  by_cases heq : i = index
  · rw [heq, lookup_insert]
    exact iff_of_true rfl (Or.inr rfl)
  · rw [lookup_insert_of_ne _ fun h => heq (Prod.mk.inj h).2]
    exact (or_iff_left (Ne.symm heq)).symm

end Counts

structure Write where
  cfg : ClusterCfg
  strategy : EcStrategy
  placement : List NodeId
  landed : NodeId → Bool
  envelope : Envelope

namespace Write

section
variable (rs : Coder UInt8)

def run (cluster : Cluster) (w : Write) : Cluster :=
  (w.cfg.writeChunk rs w.strategy w.placement w.landed cluster w.envelope).2

def reaches (w : Write) (peerId : NodeId) : Bool := peerId ∈ w.cfg.peers && w.landed peerId

def acked (w : Write) (route : FragmentRoute) : Bool :=
  w.cfg.isSelf route.peerId || w.reaches route.peerId

def counted (w : Write) (route : FragmentRoute) : Bool :=
  !w.cfg.isSelf route.peerId && w.reaches route.peerId && route.fragmentIndex = 0

def placed (w : Write) (route : FragmentRoute) : Bool :=
  w.cfg.isSelf route.peerId || w.reaches route.peerId && route.fragmentIndex ≠ 0

def routes (w : Write) : List FragmentRoute :=
  match w.strategy with
  | .replication _ => []
  | .ec k m => (encodeForPlacement rs (.ec k m) w.envelope.ciphertext w.placement).toOption.getD []

def registers (w : Write) : Bool :=
  match w.strategy with
  | .replication _ => false
  | .ec k m =>
    (encodeForPlacement rs (.ec k m) w.envelope.ciphertext w.placement).isOk &&
      max w.cfg.minAcks k ≤ (w.routes rs).countP w.acked

def shards (w : Write) (routes : List FragmentRoute) (peerId : NodeId) : Nat :=
  routes.countP fun route => route.peerId = peerId && w.counted route

def copies (w : Write) (peerId : NodeId) : Nat :=
  match w.strategy with
  | .replication _ =>
    (peerId == w.cfg.selfNodeId).toNat + if w.landed peerId then w.cfg.peers.count peerId else 0
  | .ec _ _ =>
    w.shards (w.routes rs) peerId + (peerId == w.cfg.selfNodeId && w.registers rs).toNat

def sends (w : Write) (peerId : NodeId) (i : Nat) : Prop :=
  ∃ route ∈ w.routes rs, route.peerId = peerId ∧ w.placed route = true ∧ route.fragmentIndex = i

end

end Write

section Writes
variable {rs : Coder UInt8} {w : Write} {cluster : Cluster} {id : ChunkId} {st : Nat × Cluster}
  {route : FragmentRoute} {node : Node}

def tally (cluster : Cluster) (id : ChunkId) (peerId : NodeId) : Nat :=
  (cluster peerId).store.count id

def roomy : Set (NodeId → Nat) := { t | ∀ peerId, t peerId ≤ u64Max }

lemma isLowerSet_roomy : IsLowerSet roomy := by
  intro t t' hle ht peerId
  exact (hle peerId).trans (ht peerId)

lemma isLowerSet_snd_roomy : IsLowerSet (Set.preimage (Prod.snd : Nat × _ → _) roomy) := by
  intro t t' hle ht
  exact isLowerSet_roomy hle.2 ht

def Write.shard (w : Write) (route : FragmentRoute) : Envelope :=
  (metaOf w.envelope).envelope w.envelope.chunkId route.bytes

lemma Write.receive_cases (w : Write) :
    (w.cfg.isSelf route.peerId = true ∧
      receive w.cfg w.landed w.envelope route node = (true,
        ⟨node.store.writeFragment w.envelope.chunkId route.fragmentIndex route.bytes,
          node.chunkEnvelopeMeta.record w.envelope.chunkId (metaOf w.envelope)⟩)) ∨
    (w.cfg.isSelf route.peerId = false ∧ w.reaches route.peerId = true ∧
      receive w.cfg w.landed w.envelope route node =
        ((node.handlePutFragment route.fragmentIndex (w.shard route)).1.isOk,
          (node.handlePutFragment route.fragmentIndex (w.shard route)).2)) ∨
    (w.cfg.isSelf route.peerId = false ∧ w.reaches route.peerId = false ∧
      receive w.cfg w.landed w.envelope route node = (false, node)) := by
  rw [receive, reaches]
  by_cases hself : w.cfg.isSelf route.peerId = true
  · rw [if_pos hself]
    exact Or.inl ⟨hself, rfl⟩
  rw [if_neg hself]
  have hother := eq_false_iff.2 hself
  by_cases hreach : route.peerId ∈ w.cfg.peers ∧ w.landed route.peerId = true
  · rw [if_pos hreach, decide_eq_true hreach.1]
    exact Or.inr (Or.inl ⟨hother, hreach.2, rfl⟩)
  · rw [if_neg hreach]
    have hfalse : ¬(decide (route.peerId ∈ w.cfg.peers) && w.landed route.peerId) = true := by
      rw [and_eq_true, decide_eq_true_eq]
      exact hreach
    exact Or.inr (Or.inr ⟨hother, eq_false_iff.2 hfalse, rfl⟩)

lemma Write.receive_room (hid : w.envelope.chunkId = id)
    (hroom : node.store.count id + (w.counted route).toNat ≤ u64Max) :
    (receive w.cfg w.landed w.envelope route node).1 = w.acked route ∧
      (receive w.cfg w.landed w.envelope route node).2.store.count id =
        node.store.count id + (w.counted route).toNat := by
  rw [counted] at hroom ⊢
  rw [acked]
  rcases w.receive_cases with ⟨hself, hr⟩ | ⟨hself, hreach, hr⟩ | ⟨hself, hreach, hr⟩
  · rw [hr, hself]
    exact ⟨rfl, rfl⟩
  · rw [hself, hreach] at hroom ⊢
    rw [hr]
    by_cases hzero : route.fragmentIndex = 0
    · rw [decide_eq_true hzero] at hroom ⊢
      rw [hzero]
      subst hid
      exact put_room hroom
    · rw [decide_eq_false hzero, handlePutFragment_pos hzero]
      exact ⟨rfl, rfl⟩
  · rw [hr, hself, hreach]
    exact ⟨rfl, rfl⟩

lemma Write.lists_receive (hid : w.envelope.chunkId = id) (i : Nat) :
    (receive w.cfg w.landed w.envelope route node).2.store.listsFragment id i = true ↔
      node.store.listsFragment id i = true ∨ w.placed route = true ∧ route.fragmentIndex = i := by
  rw [placed]
  subst hid
  rcases w.receive_cases with ⟨hself, hr⟩ | ⟨hself, hreach, hr⟩ | ⟨hself, hreach, hr⟩
  · rw [hr, hself, Bool.true_or, LocalStore.lists_writeFragment]
    exact or_congr_right (and_iff_right rfl).symm
  · rw [hr, hself, hreach, Bool.false_or, Bool.true_and, decide_eq_true_eq]
    by_cases hzero : route.fragmentIndex = 0
    · rw [hzero, LocalStore.listsFragment, LocalStore.listsFragment, fragments_put]
      exact (or_iff_left fun h => h.1 rfl).symm
    · rw [handlePutFragment_pos hzero]
      exact (LocalStore.lists_writeFragment _ _).trans (or_congr_right (and_iff_right hzero).symm)
  · rw [hr, hself, hreach]
    exact (or_iff_left fun h => by cases h.1).symm

def Write.credit (w : Write) (route : FragmentRoute) : Nat × (NodeId → Nat) :=
  ((w.acked route).toNat, Pi.single route.peerId (w.counted route).toNat)

lemma ite_succ (b : Bool) (n : Nat) : (if b then n + 1 else n) = n + b.toNat := by
  cases b <;> rfl

lemma tally_update (peerId : NodeId)
    (h : node.store.count id = (cluster peerId).store.count id + n) :
    tally (update cluster peerId node) id = tally cluster id + Pi.single peerId n := by
  funext p
  rw [tally, Pi.add_apply]
  by_cases heq : p = peerId
  · rw [heq, update_self, Pi.single_eq_same]
    exact h
  · rw [update_of_ne heq, Pi.single_eq_of_ne heq]
    rfl

lemma single_toNat (q : NodeId) (b : Bool) :
    (Pi.single q b.toNat : NodeId → Nat) = fun p => (p == q && b).toNat := by
  funext p
  by_cases heq : p = q
  · rw [heq, Pi.single_eq_same, beq_self_eq_true, Bool.true_and]
  · rw [Pi.single_eq_of_ne heq, beq_false_of_ne heq, Bool.false_and]
    rfl

lemma roomy_at {t : NodeId → Nat} (h : t + Pi.single peerId n ∈ roomy) :
    t peerId + n ≤ u64Max := by
  have hat := h peerId
  rw [Pi.add_apply, Pi.single_eq_same] at hat
  exact hat

lemma Write.deliver_room (hid : w.envelope.chunkId = id) (st : Nat × Cluster)
    (route : FragmentRoute)
    (hroom : (st.1, tally st.2 id) + w.credit route ∈ Set.preimage Prod.snd roomy) :
    ((deliver w.cfg w.landed w.envelope st route).1,
      tally (deliver w.cfg w.landed w.envelope st route).2 id) =
        (st.1, tally st.2 id) + w.credit route := by
  obtain ⟨hack, hcount⟩ := w.receive_room hid (roomy_at hroom)
  rw [deliver]
  dsimp only
  rw [hack, ite_succ, tally_update route.peerId hcount]
  rfl

def Write.copy (w : Write) (peerId : NodeId) : Nat × (NodeId → Nat) :=
  ((w.landed peerId).toNat, Pi.single peerId (w.landed peerId).toNat)

lemma Write.fanOut_room (hid : w.envelope.chunkId = id) (st : Nat × Cluster) (peerId : NodeId)
    (hroom : (st.1, tally st.2 id) + w.copy peerId ∈ Set.preimage Prod.snd roomy) :
    ((fanOut w.landed w.envelope st peerId).1, tally (fanOut w.landed w.envelope st peerId).2 id) =
      (st.1, tally st.2 id) + w.copy peerId := by
  have hat := roomy_at hroom
  rw [copy]
  rw [fanOut]
  subst hid
  cases hlanded : w.landed peerId with
  | false =>
    rw [if_neg Bool.false_ne_true, Bool.toNat_false, Pi.single_zero]
    rfl
  | true =>
    rw [hlanded] at hat
    obtain ⟨hok, hcount⟩ := put_room hat
    rw [if_pos rfl]
    dsimp only
    rw [hok, tally_update peerId hcount]
    rfl

def Write.delivered (w : Write) (cluster : Cluster) (routes : List FragmentRoute) : Nat × Cluster :=
  routes.foldl (deliver w.cfg w.landed w.envelope) (0, cluster)

lemma Write.delivered_room (hid : w.envelope.chunkId = id) {routes : List FragmentRoute}
    (hroom : tally cluster id + w.shards routes ∈ roomy) :
    (w.delivered cluster routes).1 = routes.countP w.acked ∧
      tally (w.delivered cluster routes).2 id = tally cluster id + w.shards routes := by
  have hsum : (routes.map w.credit).sum = _ := Tally.sum_pair _ _
  have hfold := Tally.foldl_credit isLowerSet_snd_roomy (t := fun st => (st.1, tally st.2 id))
    (fun st route _ => w.deliver_room hid st route) (s := (0, cluster)) (l := routes) (by
      intro p
      rw [hsum]
      exact (congrArg _ (Tally.sum_single ..)).trans_le (hroom p))
  rw [hsum] at hfold
  obtain ⟨hacks, hcounts⟩ := Prod.mk.inj hfold
  refine ⟨?_, ?_⟩
  · rw [delivered, hacks, Tally.sum_toNat]
    exact Nat.zero_add _
  · funext p
    exact (congrFun hcounts p).trans (congrArg _ (Tally.sum_single ..))

lemma Write.fanOut_all (hid : w.envelope.chunkId = id) {peers : List NodeId} (acks : Nat)
    (hroom : ∀ p, tally cluster id p + (if w.landed p then peers.count p else 0) ≤ u64Max) (p) :
    tally (peers.foldl (fanOut w.landed w.envelope) (acks, cluster)).2 id p =
      tally cluster id p + if w.landed p then peers.count p else 0 := by
  have hcount : ∀ p, (peers.countP fun peerId => peerId = p && w.landed peerId) =
      if w.landed p then peers.count p else 0 := by
    intro p
    rw [count]
    cases hlanded : w.landed p with
    | false =>
      rw [if_neg Bool.false_ne_true, countP_eq_zero]
      intro peerId _ hboth
      obtain ⟨heq, hland⟩ := and_eq_true_iff.1 hboth
      rw [of_decide_eq_true heq, hlanded] at hland
      cases hland
    | true =>
      rw [if_pos rfl]
      apply countP_congr
      intro peerId _
      rw [and_eq_true, decide_eq_true_eq, beq_iff_eq]
      exact ⟨fun h => h.1, fun h => ⟨h, h ▸ hlanded⟩⟩
  have hsum : (peers.map w.copy).sum = _ := Tally.sum_pair _ _
  have hfold := Tally.foldl_credit isLowerSet_snd_roomy (t := fun st => (st.1, tally st.2 id))
    (fun st peerId _ => w.fanOut_room hid st peerId) (s := (acks, cluster)) (l := peers) (by
      intro p
      rw [hsum]
      exact (congrArg _ ((Tally.sum_single ..).trans (hcount p))).trans_le (hroom p))
  rw [hsum] at hfold
  exact (congrFun (Prod.mk.inj hfold).2 p).trans
    (congrArg _ ((Tally.sum_single ..).trans (hcount p)))

lemma Write.lists_deliver (hid : w.envelope.chunkId = id) (routes : List FragmentRoute)
    (st : Nat × Cluster) (p : NodeId) (i : Nat) :
    ((routes.foldl (deliver w.cfg w.landed w.envelope) st).2 p).store.listsFragment id i = true ↔
      (st.2 p).store.listsFragment id i = true ∨ ∃ route ∈ routes,
        route.peerId = p ∧ w.placed route = true ∧ route.fragmentIndex = i := by
  apply Tally.foldl_mark (P := fun st : Nat × Cluster =>
    (st.2 p).store.listsFragment id i = true)
  intro st route _
  rw [deliver]
  dsimp only
  by_cases heq : p = route.peerId
  · rw [heq, update_self, w.lists_receive hid i]
    exact or_congr_right (and_iff_right rfl).symm
  · rw [update_of_ne heq]
    exact (or_iff_left fun h => heq h.1.symm).symm

lemma fragments_fanOut (landed : NodeId → Bool) (envelope : Envelope) (peers : List NodeId)
    (p : NodeId) :
    ((peers.foldl (fanOut landed envelope) st).2 p).store.fragments =
      (st.2 p).store.fragments := by
  induction peers generalizing st with
  | nil => rfl
  | cons peerId peers ih =>
    rw [foldl_cons, ih, fanOut]
    split
    · dsimp only
      by_cases heq : p = peerId
      · rw [heq, update_self, fragments_put]
      · rw [update_of_ne heq]
    · rfl

section Ec
variable {k m : Nat} (hs : w.strategy = .ec k m)

include hs

/-- A write that cannot be encoded has no routes, and so delivers nothing. -/
lemma Write.run_ec : w.run rs cluster =
    let sent := (w.delivered cluster (w.routes rs)).2
    if (encodeForPlacement rs (.ec k m) w.envelope.ciphertext w.placement).isOk = true ∧
        max w.cfg.minAcks k ≤ (w.delivered cluster (w.routes rs)).1 then
      match (sent w.cfg.selfNodeId).store.registerEcChunk w.envelope with
      | .error _ => sent
      | .ok (_, store) =>
        update sent w.cfg.selfNodeId { sent w.cfg.selfNodeId with store := store }
    else sent := by
  have hroutes : w.routes rs =
      (encodeForPlacement rs (.ec k m) w.envelope.ciphertext w.placement).toOption.getD [] := by
    rw [routes, hs]
  rw [hroutes, run, hs, ClusterCfg.writeChunk, writeChunkEc]
  cases encodeForPlacement rs (.ec k m) w.envelope.ciphertext w.placement with
  | error err => exact (if_neg fun h => Bool.false_ne_true h.1).symm
  | ok routes =>
    dsimp only
    by_cases henough : max w.cfg.minAcks (EcStrategy.ec k m).minFragmentsForRead ≤
        (routes.foldl (deliver w.cfg w.landed w.envelope) (0, cluster)).1
    · rw [if_pos henough]
      refine Eq.trans ?_ (if_pos ⟨rfl, henough⟩).symm
      rw [delivered]
      dsimp only [Except.toOption, Option.getD_some]
      split
      · rfl
      · rfl
    · rw [if_neg henough]
      exact (if_neg fun h => henough h.2).symm

lemma Write.tally_run_ec (hid : w.envelope.chunkId = id)
    (hroom : tally cluster id + w.copies rs ∈ roomy) :
    tally (w.run rs cluster) id = tally cluster id + w.copies rs := by
  have hcopies : w.copies rs =
      w.shards (w.routes rs) + Pi.single w.cfg.selfNodeId (w.registers rs).toNat := by
    funext p
    rw [copies, hs, single_toNat]
    rfl
  rw [hcopies, ← add_assoc] at hroom ⊢
  obtain ⟨hacks, hcounts⟩ := w.delivered_room hid (isLowerSet_roomy le_self_add hroom)
  have hregisters : w.registers rs = decide
      ((encodeForPlacement rs (.ec k m) w.envelope.ciphertext w.placement).isOk = true ∧
        max w.cfg.minAcks k ≤ (w.delivered cluster (w.routes rs)).1) := by
    rw [registers, hs, hacks, Bool.decide_and, Bool.decide_eq_true]
  rw [hregisters, ← hcounts] at hroom ⊢
  rw [w.run_ec hs]
  dsimp only
  split
  · rename_i henough
    rw [decide_eq_true henough] at hroom ⊢
    subst hid
    obtain ⟨stored, store, hstore, hcount⟩ :=
      LocalStore.writeChunk_room { w.envelope with ciphertext := [] } (roomy_at hroom)
    rw [LocalStore.registerEcChunk, hstore]
    exact tally_update _ hcount
  · rename_i hfew
    rw [decide_eq_false hfew, toNat_false, Pi.single_zero, add_zero]

end Ec

lemma Write.tally_run_replication (hs : w.strategy = .replication n)
    (hid : w.envelope.chunkId = id) (hroom : tally cluster id + w.copies rs ∈ roomy) :
    tally (w.run rs cluster) id = tally cluster id + w.copies rs := by
  have hcopies : w.copies rs = Pi.single w.cfg.selfNodeId 1 +
      fun p => if w.landed p then w.cfg.peers.count p else 0 := by
    funext p
    have hsingle : (Pi.single w.cfg.selfNodeId 1 : NodeId → Nat) p = _ :=
      congrFun (single_toNat w.cfg.selfNodeId true) p
    rw [copies, hs, Pi.add_apply, hsingle, Bool.and_true]
  rw [hcopies, ← add_assoc] at hroom ⊢
  subst hid
  obtain ⟨stored, store, hstore, hcount⟩ :=
    LocalStore.writeChunk_room w.envelope (roomy_at (isLowerSet_roomy le_self_add hroom))
  have hself : tally (update cluster w.cfg.selfNodeId
      { cluster w.cfg.selfNodeId with store := store }) w.envelope.chunkId = _ :=
    tally_update _ hcount
  rw [← hself] at hroom ⊢
  rw [run, hs, ClusterCfg.writeChunk]
  dsimp only
  rw [hstore]
  funext p
  exact w.fanOut_all rfl 1 hroom p

lemma Write.tally_run (hid : w.envelope.chunkId = id)
    (hroom : tally cluster id + w.copies rs ∈ roomy) :
    tally (w.run rs cluster) id = tally cluster id + w.copies rs := by
  cases hs : w.strategy with
  | replication n => exact w.tally_run_replication hs hid hroom
  | ec k m => exact w.tally_run_ec hs hid hroom

lemma fragments_update (peerId p : NodeId)
    (h : node.store.fragments = (cluster peerId).store.fragments) :
    (update cluster peerId node p).store.fragments = (cluster p).store.fragments := by
  by_cases heq : p = peerId
  · rw [heq, update_self]
    exact h
  · rw [update_of_ne heq]

lemma Write.fragments_run_replication (hs : w.strategy = .replication n) (p : NodeId) :
    (w.run rs cluster p).store.fragments = (cluster p).store.fragments := by
  rw [run, hs, ClusterCfg.writeChunk]
  dsimp only
  split
  · rfl
  · rename_i hstore
    exact (fragments_fanOut _ _ _ p).trans
      (fragments_update _ p (LocalStore.fragments_writeChunk hstore))

lemma Write.fragments_run_ec (hs : w.strategy = .ec k m) (p : NodeId) :
    (w.run rs cluster p).store.fragments =
      ((w.delivered cluster (w.routes rs)).2 p).store.fragments := by
  rw [w.run_ec hs]
  dsimp only
  split
  · split
    · rfl
    · rename_i hstore
      exact fragments_update _ p (LocalStore.fragments_writeChunk hstore)
  · rfl

lemma Write.lists_run (hid : w.envelope.chunkId = id) (p : NodeId) (i : Nat) :
    (w.run rs cluster p).store.listsFragment id i = true ↔
      (cluster p).store.listsFragment id i = true ∨ w.sends rs p i := by
  cases hs : w.strategy with
  | replication n =>
    rw [LocalStore.listsFragment, w.fragments_run_replication hs]
    refine (or_iff_left fun hsends => ?_).symm
    obtain ⟨route, hroute, _⟩ := hsends
    rw [routes, hs] at hroute
    exact not_mem_nil hroute
  | ec k m =>
    rw [LocalStore.listsFragment, w.fragments_run_ec hs]
    exact w.lists_deliver hid (w.routes rs) (0, cluster) p i

end Writes

section History
variable {rs : Coder UInt8} {writes : List Write} {releases : List ClusterCfg} {cluster : Cluster}
  {id : ChunkId}

def history (rs : Coder UInt8) (cluster : Cluster) (id : ChunkId) (writes : List Write)
    (releases : List ClusterCfg) : Cluster :=
  releases.foldl (fun cluster cfg => (cfg.decrementRefcount cluster id).2)
    (writes.foldl (Write.run rs) cluster)

lemma tally_writes (hids : ∀ w ∈ writes, w.envelope.chunkId = id)
    (hroom : tally cluster id + (writes.map fun w => w.copies rs).sum ∈ roomy) :
    tally (writes.foldl (Write.run rs) cluster) id =
      tally cluster id + (writes.map fun w => w.copies rs).sum :=
  Tally.foldl_credit isLowerSet_roomy (t := fun cluster : Cluster => tally cluster id)
    (fun _ w hw => w.tally_run (hids w hw)) hroom

lemma lists_writes (hids : ∀ w ∈ writes, w.envelope.chunkId = id) (p : NodeId) :
    (writes.foldl (Write.run rs) cluster p).store.listsFragment id i = true ↔
      (cluster p).store.listsFragment id i = true ∨ ∃ w ∈ writes, w.sends rs p i :=
  Tally.foldl_mark (P := fun cluster : Cluster => (cluster p).store.listsFragment id i = true)
    fun _ w hw => w.lists_run (hids w hw) p i

lemma release_spec (cfg : ClusterCfg) (p : NodeId) :
    tally (cfg.decrementRefcount cluster id).2 id p =
        tally cluster id p - (cfg.selfNodeId == p).toNat ∧
      ((cfg.decrementRefcount cluster id).2 p).store.fragments = (cluster p).store.fragments := by
  rw [ClusterCfg.decrementRefcount, tally, tally]
  by_cases heq : p = cfg.selfNodeId
  · rw [heq, beq_self_eq_true]
    cases hdecrement : (cluster cfg.selfNodeId).store.decrementRefcount id with
    | error err =>
      dsimp only
      rw [LocalStore.count_of_decrement_error hdecrement]
      exact ⟨rfl, rfl⟩
    | ok r =>
      obtain ⟨_, hcount, hfragments⟩ := LocalStore.count_decrement hdecrement
      dsimp only
      rw [update_self]
      exact ⟨hcount, hfragments⟩
  · rw [beq_false_of_ne (Ne.symm heq)]
    split
    · exact ⟨rfl, rfl⟩
    · dsimp only
      rw [update_of_ne heq]
      exact ⟨rfl, rfl⟩

lemma releases_spec (releases : List ClusterCfg) (cluster : Cluster) (id : ChunkId) (p : NodeId) :
    tally (releases.foldl (fun cluster cfg => (cfg.decrementRefcount cluster id).2) cluster) id p =
        tally cluster id p - releases.countP (fun cfg => cfg.selfNodeId == p) ∧
      (releases.foldl (fun cluster cfg => (cfg.decrementRefcount cluster id).2) cluster
        p).store.fragments = (cluster p).store.fragments := by
  induction releases generalizing cluster with
  | nil => exact ⟨rfl, rfl⟩
  | cons cfg releases ih =>
    obtain ⟨hcount, hfragments⟩ := ih (cfg.decrementRefcount cluster id).2
    obtain ⟨hcount', hfragments'⟩ := release_spec cfg p
    rw [foldl_cons, hcount, hcount', hfragments, hfragments', countP_cons, Nat.sub_sub,
      Nat.add_comm]
    refine ⟨?_, rfl⟩
    cases cfg.selfNodeId == p <;> rfl

end History

section Delete
variable {reached : NodeId → Bool} {id : ChunkId} {node : Node}

lemma Node.delete_spec (h : (node.handleDeleteFragment id 0).1 = .ok deleted) :
    (node.handleDeleteFragment id 0).2.store.count id = node.store.count id - 1 ∧
      (node.handleDeleteFragment id 0).2.store.fragments = node.store.fragments := by
  rw [handleDeleteFragment, if_pos rfl] at h ⊢
  split at h
  · rename_i hdecrement
    exact (LocalStore.count_decrement hdecrement).2
  · rename_i hdecrement
    dsimp only
    rw [LocalStore.count_of_decrement_error hdecrement]
    exact ⟨rfl, rfl⟩
  · cases h

lemma DeleteDistributedReport.reply_failed {report : DeleteDistributedReport}
    (h : (report.reply (some r)).peersFailed = 0) :
    report.peersFailed = 0 ∧ ∃ deleted, r = .ok deleted := by
  cases r with
  | error err => cases h
  | ok deleted =>
    refine ⟨?_, deleted, rfl⟩
    cases deleted with
    | false => exact h
    | true => exact h

lemma deleteAt_spec {st : DeleteDistributedReport × Cluster} {peerId : NodeId}
    (h : (deleteAt reached id st peerId).1.peersFailed = 0) :
    st.1.peersFailed = 0 ∧ ∀ p,
      tally (deleteAt reached id st peerId).2 id p =
          (if p = peerId then tally st.2 id p - 1 else tally st.2 id p) ∧
        ((deleteAt reached id st peerId).2 p).store.fragments = (st.2 p).store.fragments := by
  rw [deleteAt] at h ⊢
  by_cases hreached : reached peerId = true
  · rw [if_pos hreached] at h ⊢
    obtain ⟨hbefore, deleted, hdeleted⟩ := DeleteDistributedReport.reply_failed h
    obtain ⟨hcount, hfragments⟩ := delete_spec hdeleted
    refine ⟨hbefore, ?_⟩
    intro p
    dsimp only
    rw [tally]
    by_cases heq : p = peerId
    · rw [if_pos heq, heq, update_self]
      exact ⟨hcount, hfragments⟩
    · rw [if_neg heq, update_of_ne heq]
      exact ⟨rfl, rfl⟩
  · rw [if_neg hreached] at h
    cases h

lemma deletes_spec {peers : List NodeId} (hdistinct : peers.Nodup)
    {st : DeleteDistributedReport × Cluster}
    (h : (peers.foldl (deleteAt reached id) st).1.peersFailed = 0) :
    st.1.peersFailed = 0 ∧ ∀ p,
      tally (peers.foldl (deleteAt reached id) st).2 id p =
          (if p ∈ peers then tally st.2 id p - 1 else tally st.2 id p) ∧
        ((peers.foldl (deleteAt reached id) st).2 p).store.fragments =
          (st.2 p).store.fragments := by
  induction peers generalizing st with
  | nil => exact ⟨h, fun p => ⟨rfl, rfl⟩⟩
  | cons peerId peers ih =>
    obtain ⟨hfirst, hrest⟩ := nodup_cons.1 hdistinct
    obtain ⟨hfailed, hafter⟩ := ih hrest h
    obtain ⟨hbefore, hstep⟩ := deleteAt_spec hfailed
    refine ⟨hbefore, ?_⟩
    intro p
    rw [foldl_cons, (hafter p).1, (hafter p).2, (hstep p).1, (hstep p).2]
    refine ⟨?_, rfl⟩
    by_cases heq : p = peerId
    · rw [if_neg (heq ▸ hfirst), if_pos heq, if_pos (heq ▸ mem_cons_self)]
    · rw [if_neg heq]
      exact if_congr (mem_cons.trans (or_iff_right heq)).symm rfl rfl

/-- A delete frees a peer that counts at most one reference and no fragment. -/
theorem delete_distributed_frees_iff {rs : Coder UInt8} {leader : ClusterCfg} {cluster : Cluster}
    {writes : List Write} {releases : List ClusterCfg}
    (hfresh : ∀ p, (cluster p).Freed id) (hids : ∀ w ∈ writes, w.envelope.chunkId = id)
    (hpeers : leader.peers.Nodup)
    (hreport : (leader.deleteDistributed reached (history rs cluster id writes releases)
      id).1.peersFailed = 0) :
    ((∀ p ∈ leader.peers, ((leader.deleteDistributed reached
        (history rs cluster id writes releases) id).2 p).Freed id) ↔
      ∀ p ∈ leader.peers, (history rs cluster id writes releases p).store.count id ≤ 1 ∧
        ∀ w ∈ writes, ∀ i, ¬w.sends rs p i) ∧
    ((∀ p, (writes.map fun w => w.copies rs p).sum ≤ u64Max) →
      ∀ p, (history rs cluster id writes releases p).store.count id =
        (writes.map fun w => w.copies rs p).sum -
          releases.countP fun cfg => cfg.selfNodeId == p) := by
  refine ⟨?_, ?_⟩
  · apply forall₂_congr
    intro p hp
    obtain ⟨hcount, hfragments⟩ := (deletes_spec hpeers hreport).2 p
    rw [if_pos hp] at hcount
    have hrows : ∀ i, ((leader.deleteDistributed reached (history rs cluster id writes releases)
        id).2 p).store.listsFragment id i = false ↔ ∀ w ∈ writes, ¬w.sends rs p i := by
      intro i
      rw [LocalStore.listsFragment, ClusterCfg.deleteDistributed, hfragments]
      dsimp only
      rw [history, (releases_spec releases _ id p).2, ← not_eq_true]
      refine (not_congr (lists_writes hids p)).trans ?_
      rw [(hfresh p).2 i, or_iff_right Bool.false_ne_true]
      exact ⟨fun h w hw hs => h ⟨w, hw, hs⟩, fun h hex => by
        obtain ⟨w, hw, hs⟩ := hex
        exact h w hw hs⟩
    rw [Node.Freed]
    apply and_congr
    · change tally (leader.deleteDistributed _ _ id).2 id p = 0 ↔ _
      rw [ClusterCfg.deleteDistributed, hcount]
      exact Nat.sub_eq_zero_iff_le
    · rw [forall_congr' hrows]
      exact ⟨fun h w hw i => h i w hw, fun h i w hw => h w hw i⟩
  · intro hroom p
    have hsum : ∀ p, (writes.map fun w => w.copies rs).sum p =
        (writes.map fun w => w.copies rs p).sum := by
      intro p
      rw [Pi.list_sum_apply, map_map]
      rfl
    have hzero : tally cluster id = 0 := funext fun p => (hfresh p).1
    have hroom' : tally cluster id + (writes.map fun w => w.copies rs).sum ∈ roomy := by
      rw [hzero, zero_add]
      intro p
      rw [hsum]
      exact hroom p
    have hwrites := tally_writes hids hroom'
    have hreleases := (releases_spec releases (writes.foldl (Write.run rs) cluster) id p).1
    rw [hwrites, hzero, zero_add, hsum] at hreleases
    exact hreleases

end Delete

section Small

def firstNode : ClusterCfg := ⟨1, [2, 3], 2⟩

def smallCopy : Write := ⟨firstNode, .replication 3, [], fun _ => true, small⟩

def smallShards : Write := ⟨firstNode, .ec 1 2, [1, 2, 3], fun _ => true, small⟩

def afterDelete (writes : List Write) (releases : List ClusterCfg) :
    DeleteDistributedReport × Cluster :=
  firstNode.deleteDistributed (fun _ => true)
    (history (mirror UInt8) (fun _ => blank) small.chunkId writes releases) small.chunkId

lemma blank_freed (id : ChunkId) : blank.Freed id := ⟨rfl, fun _ => rfl⟩

/-- One replicated write, one release on its node. -/
theorem delete_distributed_frees_copy :
    ((afterDelete [smallCopy] [firstNode]).2 2).Freed small.chunkId ∧
      ((afterDelete [smallCopy] [firstNode]).2 3).Freed small.chunkId := by
  have hids : ∀ w ∈ [smallCopy], w.envelope.chunkId = small.chunkId := by decide
  have hreport : (firstNode.deleteDistributed (fun _ => true) (history (mirror UInt8)
      (fun _ => blank) small.chunkId [smallCopy] [firstNode]) small.chunkId).1.peersFailed = 0 :=
        rfl
  have hcounts : ∀ p ∈ firstNode.peers, (history (mirror UInt8) (fun _ => blank) small.chunkId
      [smallCopy] [firstNode] p).store.count small.chunkId ≤ 1 :=
    forall_mem_cons.2 ⟨by decide, forall_mem_singleton.2 (by decide)⟩
  have hfreed := (delete_distributed_frees_iff (fun _ => blank_freed small.chunkId) hids (by decide)
    hreport).1.2 (by
      intro p hp
      refine ⟨hcounts p hp, ?_⟩
      intro w hw i hsends
      rw [mem_singleton.1 hw] at hsends
      obtain ⟨route, hroute, _⟩ := hsends
      cases hroute)
  exact ⟨hfreed 2 (by decide), hfreed 3 (by decide)⟩

/-- Two replicated writes leave references on the peers, an EC write its shards. -/
theorem delete_distributed_leaves_copies :
    (afterDelete [smallCopy, smallCopy] [firstNode, firstNode]).1 = ⟨2, 0, 0⟩ ∧
    ((afterDelete [smallCopy, smallCopy] [firstNode, firstNode]).2 2).store.count
      small.chunkId = 1 ∧
    (afterDelete [smallShards] [firstNode]).1 = ⟨2, 0, 0⟩ ∧
    ((afterDelete [smallShards] [firstNode]).2 2).store.listsFragment small.chunkId 1 = true ∧
    ((afterDelete [smallShards] [firstNode]).2 3).store.listsFragment small.chunkId 2 = true :=
  ⟨rfl, rfl, rfl, rfl, rfl⟩

end Small

end Kiseki.Fabric
