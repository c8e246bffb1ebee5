import Kiseki.Fabric.EcPath
import Kiseki.Fabric.Scrub

namespace Kiseki.Fabric

open Erasure Kiseki.Chunk Function Relation Finmap List Option Prod Bool Node

section Nodes

structure Node.Unaware (node : Node) (id : ChunkId) : Prop where
  chunk : node.store.chunks.lookup id = none
  fragment : ∀ i, node.store.fragments.lookup (id, i) = none
  inner : node.chunkEnvelopeMeta.inner.lookup id = none
  disk : ∀ disk, node.chunkEnvelopeMeta.disk = some disk → disk.lookup id = none

structure Node.Carries (node : Node) (id : ChunkId) (index : Nat) (bytes : Bytes)
    (fields : EnvelopeMeta) : Prop where
  inner : node.chunkEnvelopeMeta.inner.lookup id = some fields
  stored : node.store.fragments.lookup (id, index) = some bytes ∨
    index = 0 ∧ node.store.fragments.lookup (id, 0) = none ∧
      ∃ n, node.store.chunks.lookup id = some (n, fields.envelope id bytes)

def Node.forget (node : Node) (id : ChunkId) : Node where
  store := ⟨node.store.chunks.erase id,
    Maps.retain (fun key _ => key.1 ≠ id) node.store.fragments⟩
  chunkEnvelopeMeta := ⟨node.chunkEnvelopeMeta.inner.erase id,
    node.chunkEnvelopeMeta.disk.map fun disk => disk.erase id⟩

variable {node : Node} {id : ChunkId} {index : Nat} {bytes : Bytes} {fields fields' : EnvelopeMeta}

lemma Node.unaware_forget : (node.forget id).Unaware id where
  chunk := lookup_erase id _
  fragment i := by
    rw [forget, Maps.lookup_retain]
    exact filter_eq_none_iff.2 fun _ _ => by simp
  inner := lookup_erase id _
  disk disk h := by
    obtain ⟨old, _, rfl⟩ := map_eq_some_iff.1 h
    exact lookup_erase id _

lemma Node.Unaware.get (h : node.Unaware id) (index : Nat) :
    ∃ err, node.handleGetFragment id index = .error err := by
  rw [handleGetFragment, LocalStore.readFragment, h.fragment]
  dsimp only
  split
  · rw [LocalStore.readChunk, h.chunk]
    exact ⟨_, rfl⟩
  · exact ⟨_, rfl⟩

lemma Node.Carries.get (h : node.Carries id index bytes fields) :
    node.handleGetFragment id index = .ok (fields.envelope id bytes) := by
  rw [handleGetFragment, LocalStore.readFragment]
  rcases h.stored with hrow | ⟨rfl, hnone, n, hchunk⟩
  · rw [hrow]
    dsimp only
    rw [envelopeFromBytes, ChunkEnvelopeRegistry.lookup_of_inner h.inner, getD_some]
  · rw [hnone]
    dsimp only
    rw [if_pos rfl, LocalStore.readChunk, hchunk]

lemma Node.Carries.put (h : node.Carries id index bytes fields) (fields' : EnvelopeMeta) :
    (node.handlePutFragment index (fields'.envelope id bytes)).2.Carries id index bytes fields := by
  have hregistry := ChunkEnvelopeRegistry.record_of_inner h.inner fields'
  by_cases hindex : index = 0
  · subst hindex
    cases hchunk : node.store.chunks.lookup id with
    | none =>
      rw [handlePutFragment_new hchunk, chunkId_envelope, metaOf_envelope, hregistry]
      rcases h.stored with hrow | ⟨_, _, n, hsome⟩
      · exact ⟨h.inner, Or.inl hrow⟩
      · rw [hchunk] at hsome
        cases hsome
    | some entry =>
      rw [handlePutFragment_old hchunk, chunkId_envelope, metaOf_envelope, hregistry]
      split
      · rcases h.stored with hrow | ⟨_, hnone, n, hsome⟩
        · exact ⟨h.inner, Or.inl hrow⟩
        · rw [hchunk] at hsome
          cases hsome
          exact ⟨h.inner, Or.inr ⟨rfl, hnone, n + 1, lookup_insert _⟩⟩
      · exact h
  · rw [handlePutFragment_pos hindex, chunkId_envelope, metaOf_envelope, hregistry]
    exact ⟨h.inner, Or.inl (lookup_insert _)⟩

lemma Node.Unaware.put (h : node.Unaware id) (index : Nat) (bytes : Bytes) (fields : EnvelopeMeta) :
    (node.handlePutFragment index (fields.envelope id bytes)).2.Carries id index bytes fields := by
  have hinner := ChunkEnvelopeRegistry.inner_record h.inner fields
  by_cases hindex : index = 0
  · subst hindex
    rw [handlePutFragment_new h.chunk]
    exact ⟨hinner, Or.inr ⟨rfl, h.fragment 0, 1, lookup_insert _⟩⟩
  · rw [handlePutFragment_pos hindex]
    exact ⟨hinner, Or.inl (lookup_insert _)⟩

end Nodes

inductive Standing where
  | absent
  | original
  | repaired
deriving DecidableEq, Repr

def Standing.fields (envelope : Envelope) : Standing → Option EnvelopeMeta
  | absent => none
  | original => some (metaOf envelope)
  | repaired => some .zeroed

lemma Standing.fields_eq_none {standing : Standing} :
    standing.fields envelope = none ↔ standing = .absent := by
  cases standing with
  | absent => exact ⟨fun _ => rfl, fun _ => rfl⟩
  | original => exact iff_of_false (fun h => by cases h) (fun h => by cases h)
  | repaired => exact iff_of_false (fun h => by cases h) (fun h => by cases h)

structure Ledger where
  cluster : Cluster
  standing : NodeId → Standing

def Ledger.written (rs : Coder UInt8) (cfg : ClusterCfg) (landed : NodeId → Bool)
    (cluster : Cluster) (envelope : Envelope) (placement : List NodeId) (k m : Nat) : Ledger where
  cluster := (writeChunkEc rs cfg landed cluster envelope placement (.ec k m)).2
  standing peerId :=
    if peerId ∈ placement ∧ (cfg.isSelf peerId ∨ peerId ∈ cfg.peers ∧ landed peerId) then .original
    else .absent

/-- A node loses what it has, or a repair of a placement peer succeeds. -/
inductive Ledger.Step (rs : Coder UInt8) (envelope : Envelope) (placement : List NodeId)
    (k m : Nat) : Ledger → Ledger → Prop
  | lose (l : Ledger) (peerId : NodeId) : Step rs envelope placement k m l
      ⟨update l.cluster peerId ((l.cluster peerId).forget envelope.chunkId),
        update l.standing peerId .absent⟩
  | repair (l : Ledger) (peers : List NodeId) (healthy : List (NodeId × Nat))
      (missing : NodeId × Nat) (hhealthy : ∀ x ∈ healthy, placement[x.2]? = some x.1)
      (hmissing : placement[missing.2]? = some missing.1)
      (hok : (repairEc rs peers l.cluster envelope.chunkId healthy missing (.ec k m)
        envelope.ciphertext.length).1 = .ok ()) :
      Step rs envelope placement k m l
        ⟨(repairEc rs peers l.cluster envelope.chunkId healthy missing (.ec k m)
            envelope.ciphertext.length).2,
          update l.standing missing.1
            (if l.standing missing.1 = .absent then .repaired else l.standing missing.1)⟩

structure Coded (rs : Coder UInt8) (envelope : Envelope) (placement : List NodeId) (k m : Nat)
    (fragments : List Bytes) : Prop where
  lawful : rs.Lawful
  encoded : encode rs envelope.ciphertext k m = .ok fragments
  length : placement.length = k + m
  distinct : placement.Nodup

def Node.Stands (node : Node) (id : ChunkId) (index : Nat) (bytes : Bytes) :
    Option EnvelopeMeta → Prop
  | none => node.Unaware id
  | some fields => node.Carries id index bytes fields

def Ledger.Tracks (envelope : Envelope) (placement : List NodeId) (fragments : List Bytes)
    (l : Ledger) : Prop :=
  ∀ (i : Nat) (peerId : NodeId) (bytes : Bytes), placement[i]? = some peerId →
    fragments[i]? = some bytes →
    (l.cluster peerId).Stands envelope.chunkId i bytes ((l.standing peerId).fields envelope)

section Runs
variable {rs : Coder UInt8} {cfg : ClusterCfg} {landed : NodeId → Bool} {cluster : Cluster}
  {envelope : Envelope} {placement : List NodeId} {k m : Nat} {fragments : List Bytes}
  {l l' : Ledger}

lemma Coded.length_fragments (h : Coded rs envelope placement k m fragments) :
    fragments.length = placement.length :=
  ((encode_ok h.encoded).2.2.length h.lawful).trans h.length.symm

lemma Coded.exists_fragment {i : Nat} (h : Coded rs envelope placement k m fragments)
    (hpeer : placement[i]? = some peerId) : ∃ bytes, fragments[i]? = some bytes := by
  obtain ⟨hlt, _⟩ := List.getElem?_eq_some_iff.1 hpeer
  exact ⟨_, getElem?_eq_getElem (h.length_fragments ▸ hlt)⟩

lemma map_peerId_shardRoutes (h : placement.length = fragments.length) :
    (shardRoutes placement fragments).map FragmentRoute.peerId = placement := by
  rw [shardRoutes, List.mapIdx_eq_zipIdx_map, List.map_map]
  calc (placement.zip fragments).zipIdx.map _
      = ((placement.zip fragments).zipIdx.map fst).map fst := by
        rw [List.map_map]
        rfl
    _ = (placement.zip fragments).map fst := by rw [zipIdx_map_fst]
    _ = placement := map_fst_zip (Nat.le_of_eq h)

lemma Coded.written {i : Nat} (h : Coded rs envelope placement k m fragments)
    (hpeer : placement[i]? = some peerId) (hbytes : fragments[i]? = some bytes) :
    (writeChunkEc rs cfg landed cluster envelope placement (.ec k m)).2 peerId =
      (receive cfg landed envelope ⟨peerId, i, bytes⟩ (cluster peerId)).2 := by
  have hroute : (⟨peerId, i, bytes⟩ : FragmentRoute) ∈ shardRoutes placement fragments :=
    mem_of_getElem? (getElem?_shardRoutes.2 ⟨hpeer, rfl, hbytes⟩)
  have hdistinct : ((shardRoutes placement fragments).map FragmentRoute.peerId).Nodup := by
    rw [map_peerId_shardRoutes h.length_fragments.symm]
    exact h.distinct
  rw [writeChunkEc, encodeForPlacement_of_encode h.encoded h.length]
  exact deliver_of_mem hdistinct hroute

lemma Ledger.tracks_written (h : Coded rs envelope placement k m fragments)
    (hfresh : ∀ peerId, (cluster peerId).Unaware envelope.chunkId) :
    (Ledger.written rs cfg landed cluster envelope placement k m).Tracks envelope placement
      fragments := by
  intro i peerId bytes hpeer hbytes
  have hmem := mem_of_getElem? hpeer
  rw [Ledger.written]
  dsimp only
  rw [h.written hpeer hbytes, receive]
  dsimp only
  by_cases hself : cfg.isSelf peerId = true
  · rw [if_pos hself, if_pos ⟨hmem, Or.inl hself⟩]
    exact ⟨ChunkEnvelopeRegistry.inner_record (hfresh peerId).inner _, Or.inl (lookup_insert _)⟩
  · rw [if_neg hself]
    by_cases hlanded : peerId ∈ cfg.peers ∧ landed peerId = true
    · rw [if_pos hlanded, if_pos ⟨hmem, Or.inr hlanded⟩]
      exact (hfresh peerId).put i bytes (metaOf envelope)
    · rw [if_neg hlanded, if_neg (fun hcond => hcond.2.elim hself hlanded)]
      exact hfresh peerId

lemma Ledger.Tracks.update {standing : Standing} (hl : l.Tracks envelope placement fragments)
    (hnode : ∀ i bytes, placement[i]? = some peerId → fragments[i]? = some bytes →
      node.Stands envelope.chunkId i bytes (standing.fields envelope)) :
    Ledger.Tracks envelope placement fragments
      ⟨update l.cluster peerId node, update l.standing peerId standing⟩ := by
  intro i p bytes hp hbytes
  dsimp only
  by_cases heq : p = peerId
  · subst heq
    rw [update_self, update_self]
    exact hnode i bytes hp hbytes
  · rw [update_of_ne heq, update_of_ne heq]
    exact hl i p bytes hp hbytes

variable (hl : l.Tracks envelope placement fragments)
  (h : Coded rs envelope placement k m fragments)
include hl h

lemma Ledger.Tracks.source (hx : placement[x.2]? = some x.1)
    (hr : source peers l.cluster envelope.chunkId x = some r) :
    fragments[r.fragmentIndex]? = some r.bytes := by
  obtain ⟨bytes, hbytes⟩ := h.exists_fragment hx
  have hstands := hl x.2 x.1 _ hx hbytes
  rw [Fabric.source] at hr
  split at hr
  · cases hstanding : (l.standing x.1).fields envelope with
    | none =>
      rw [hstanding] at hstands
      obtain ⟨err, herr⟩ := Node.Unaware.get hstands x.2
      rw [herr] at hr
      cases hr
    | some fields =>
      rw [hstanding] at hstands
      rw [Node.Carries.get hstands] at hr
      cases hr
      exact hbytes
  · cases hr

lemma Ledger.Tracks.recover (hhealthy : ∀ x ∈ healthy, placement[x.2]? = some x.1)
    (hroute : recover rs peers l.cluster envelope.chunkId healthy i (.ec k m)
      envelope.ciphertext.length = .ok route) : fragments[i]? = some route.bytes := by
  obtain ⟨plaintext, routes, hdecode, hencode, hmem, hindex⟩ := recover_ok hroute
  have hplaintext := decodeFromResponses_sound h.lawful h.encoded (fun r hr => by
    obtain ⟨x, hx, hr'⟩ := mem_filterMap.1 hr
    exact hl.source h (hhealthy x hx) hr') (fun hempty => by rw [hempty]; rfl) hdecode
  rw [take_padded] at hplaintext
  rw [hplaintext, encodeForPlacement_of_encode h.encoded (length_synthetic k m)] at hencode
  cases hencode
  obtain ⟨j, hj⟩ := mem_iff_getElem?.1 hmem
  obtain ⟨_, hindex', hbytes⟩ := getElem?_shardRoutes.1 hj
  rw [← hindex, hindex']
  exact hbytes

lemma Ledger.Tracks.step (hstep : Ledger.Step rs envelope placement k m l l') :
    l'.Tracks envelope placement fragments := by
  cases hstep with
  | lose peerId =>
    apply hl.update
    intro i bytes _ _
    exact unaware_forget
  | repair peers healthy missing hhealthy hmissing hok =>
    obtain ⟨route, hrecover, hcluster⟩ := repairEc_ok hok
    have hfragment := hl.recover h hhealthy hrecover
    rw [hcluster]
    apply hl.update
    intro i bytes hpeer hbytes
    have hi : i = missing.2 := by
      obtain ⟨hlt, _⟩ := List.getElem?_eq_some_iff.1 hpeer
      exact (getElem?_inj hlt h.distinct).1 (hpeer.trans hmissing.symm)
    rw [hi] at hbytes ⊢
    rw [hbytes] at hfragment
    rw [← some.inj hfragment]
    have hstands := hl missing.2 missing.1 bytes hmissing hbytes
    cases hstanding : l.standing missing.1 with
    | absent =>
      rw [hstanding] at hstands
      exact Node.Unaware.put hstands missing.2 bytes .zeroed
    | original =>
      rw [hstanding] at hstands
      exact Node.Carries.put hstands .zeroed
    | repaired =>
      rw [hstanding] at hstands
      exact Node.Carries.put hstands .zeroed

lemma Ledger.Tracks.run (hrun : ReflTransGen (Ledger.Step rs envelope placement k m) l l') :
    l'.Tracks envelope placement fragments := by
  induction hrun with
  | refl => exact hl
  | tail _ hstep ih => exact ih.step h hstep

end Runs

/-- A peer answers if it has the chunk, the reader only from its fragment. -/
def Ledger.answers (cfg : ClusterCfg) (id : ChunkId) (placement : List NodeId) (l : Ledger)
    (i : Nat) : Bool :=
  match placement[i]? with
  | none => false
  | some peerId =>
    if cfg.isSelf peerId then ((l.cluster peerId).store.fragments.lookup (id, i)).isSome
    else peerId ∈ cfg.peers && l.standing peerId ≠ .absent

def Ledger.remote (cfg : ClusterCfg) (id : ChunkId) (placement : List NodeId) (l : Ledger)
    (i : Nat) : Option NodeId :=
  if l.answers cfg id placement i then (placement[i]?).filter fun peerId => !cfg.isSelf peerId
  else none

/-- The first peer that answers, or the reader. -/
def Ledger.origin (cfg : ClusterCfg) (id : ChunkId) (placement : List NodeId) (l : Ledger)
    (order : List Nat) : NodeId :=
  (order.findSome? (l.remote cfg id placement)).getD cfg.selfNodeId

lemma Node.Stands.row {node : Node} {id : ChunkId} {bytes bytes' : Bytes}
    {fields : Option EnvelopeMeta} (h : Node.Stands node id index bytes fields)
    (hrow : node.store.fragments.lookup (id, index) = some bytes') : bytes' = bytes := by
  cases fields with
  | none =>
    rw [h.fragment] at hrow
    cases hrow
  | some fields =>
    rcases h.stored with hstored | ⟨rfl, hnone, _⟩
    · rw [hstored] at hrow
      exact (some.inj hrow).symm
    · rw [hnone] at hrow
      cases hrow

section Read
variable {rs : Coder UInt8} {cfg : ClusterCfg} {envelope : Envelope} {placement : List NodeId}
  {k m : Nat} {fragments : List Bytes} {l : Ledger} {order : List Nat} {len : Option Nat}
  {id : ChunkId}

lemma envelope_eq_iff (fields : EnvelopeMeta) (bytes : Bytes) :
    fields.envelope envelope.chunkId bytes = envelope ↔
      bytes = envelope.ciphertext ∧ fields = metaOf envelope := by
  constructor
  · intro h
    rw [← h]
    exact ⟨rfl, rfl⟩
  · intro h
    rw [h.1, h.2]
    rfl

lemma findSome?_bind {f : α → Option β} {g : β → Option γ}
    (h : ∀ a b, f a = some b → (g b).isSome) (xs : List α) :
    xs.findSome? (fun a => (f a).bind g) = (xs.findSome? f).bind g := by
  induction xs with
  | nil => rfl
  | cons a xs ih =>
    rw [findSome?_cons, findSome?_cons]
    cases hf : f a with
    | none => exact ih
    | some b =>
      obtain ⟨c, hc⟩ := isSome_iff_exists.1 (h a b hf)
      rw [bind_some, hc]

lemma Ledger.answers_self (l : Ledger) (id : ChunkId) (hpeer : placement[i]? = some peerId)
    (hself : cfg.isSelf peerId = true) : l.answers cfg id placement i =
      ((l.cluster peerId).store.fragments.lookup (id, i)).isSome := by
  rw [Ledger.answers, hpeer]
  exact if_pos hself

lemma Ledger.answers_peer (l : Ledger) (id : ChunkId) (hpeer : placement[i]? = some peerId)
    (hself : ¬cfg.isSelf peerId = true) : l.answers cfg id placement i =
      (peerId ∈ cfg.peers && l.standing peerId ≠ .absent) := by
  rw [Ledger.answers, hpeer]
  exact if_neg hself

lemma Ledger.answers_peerId (h : l.answers cfg id placement i = true) :
    ∃ peerId, placement[i]? = some peerId := by
  cases hpeer : placement[i]? with
  | none =>
    rw [Ledger.answers, hpeer] at h
    cases h
  | some peerId => exact ⟨peerId, rfl⟩

lemma Ledger.remote_some (h : l.remote cfg id placement i = some peerId) :
    placement[i]? = some peerId ∧ l.standing peerId ≠ .absent := by
  rw [Ledger.remote] at h
  split at h
  · rename_i hanswers
    obtain ⟨hpeer, hother⟩ := filter_eq_some_iff.1 h
    have hself : ¬cfg.isSelf peerId = true := by
      intro hself
      rw [hself] at hother
      cases hother
    rw [l.answers_peer id hpeer hself] at hanswers
    exact ⟨hpeer, of_decide_eq_true (and_eq_true_iff.1 hanswers).2⟩
  · cases h

lemma Ledger.remote_none (hanswers : l.answers cfg id placement i = true)
    (h : l.remote cfg id placement i = none) :
    placement[i]? = some cfg.selfNodeId ∧
      ((l.cluster cfg.selfNodeId).store.fragments.lookup (id, i)).isSome := by
  cases hpeer : placement[i]? with
  | none =>
    rw [Ledger.answers, hpeer] at hanswers
    cases hanswers
  | some peerId =>
    rw [Ledger.remote, if_pos hanswers, hpeer, filter_some] at h
    by_cases hself : cfg.isSelf peerId = true
    · have heq : peerId = cfg.selfNodeId := of_decide_eq_true (and_eq_true_iff.1 hself).2
      rw [l.answers_self id hpeer hself] at hanswers
      rw [heq] at hanswers
      exact ⟨by rw [heq], hanswers⟩
    · rw [eq_false_iff.2 hself] at h
      cases h

section
variable (hl : l.Tracks envelope placement fragments)
  (h : Coded rs envelope placement k m fragments)
include hl h

lemma Ledger.Tracks.fetch (i : Nat) :
    Fabric.fetch cfg l.cluster envelope.chunkId placement i =
      if l.answers cfg envelope.chunkId placement i then
        some (fragments.getD i [], (l.remote cfg envelope.chunkId placement i).bind fun peerId =>
          (l.standing peerId).fields envelope)
      else none := by
  rw [Fabric.fetch, Ledger.remote]
  cases hpeer : placement[i]? with
  | none =>
    rw [Ledger.answers, hpeer]
    rfl
  | some peerId =>
    obtain ⟨part, hpart⟩ := h.exists_fragment hpeer
    have hstands := hl i peerId part hpeer hpart
    rw [getD_eq_getElem?_getD, hpart, getD_some]
    dsimp only
    by_cases hself : cfg.isSelf peerId = true
    · have hanswers := l.answers_self envelope.chunkId hpeer hself
      rw [if_pos hself, LocalStore.readFragment]
      cases hrow : (l.cluster peerId).store.fragments.lookup (envelope.chunkId, i) with
      | none =>
        rw [hrow, isSome_none] at hanswers
        rw [if_neg (eq_false_iff.1 hanswers)]
        rfl
      | some bytes =>
        rw [hrow, isSome_some] at hanswers
        rw [if_pos hanswers, if_pos hanswers, filter_some, hself, hstands.row hrow]
        rfl
    have hanswers := l.answers_peer envelope.chunkId hpeer hself
    rw [if_neg hself]
    by_cases hknown : peerId ∈ cfg.peers
    · rw [if_pos hknown]
      rw [decide_eq_true hknown, Bool.true_and] at hanswers
      cases hfields : (l.standing peerId).fields envelope with
      | none =>
        rw [hfields] at hstands
        obtain ⟨err, herr⟩ := Node.Unaware.get hstands i
        rw [decide_eq_false (not_not.2 (Standing.fields_eq_none.1 hfields))] at hanswers
        rw [herr, if_neg (eq_false_iff.1 hanswers)]
        rfl
      | some fields =>
        rw [hfields] at hstands
        have hpresent : l.standing peerId ≠ .absent := by
          intro habsent
          rw [Standing.fields_eq_none.2 habsent] at hfields
          cases hfields
        rw [decide_eq_true hpresent] at hanswers
        rw [Node.Carries.get hstands, if_pos hanswers, if_pos hanswers, filter_some,
          Bool.eq_false_iff.2 hself, Bool.not_false, if_pos rfl, bind_some, hfields]
        rfl
    · rw [decide_eq_false hknown, Bool.false_and] at hanswers
      rw [if_neg hknown, if_neg (eq_false_iff.1 hanswers)]

lemma Ledger.Tracks.collect :
    Fabric.collect cfg l.cluster envelope.chunkId placement order =
      (order.filter (l.answers cfg envelope.chunkId placement)).map fun i =>
        (i, fragments.getD i [], (l.remote cfg envelope.chunkId placement i).bind fun peerId =>
          (l.standing peerId).fields envelope) := by
  rw [Fabric.collect, ← filterMap_eq_map, filterMap_filter]
  apply filterMap_congr
  intro i _
  rw [hl.fetch h]
  split
  · rfl
  · rfl

lemma Ledger.Tracks.findSome?_collect :
    (Fabric.collect cfg l.cluster envelope.chunkId placement order).findSome? (fun x => x.2.2) =
      (order.findSome? (l.remote cfg envelope.chunkId placement)).bind fun peerId =>
        (l.standing peerId).fields envelope := by
  rw [Fabric.collect, ← head?_filterMap, filterMap_filterMap, head?_filterMap, ← findSome?_bind]
  · congr 1
    funext i
    rw [hl.fetch h]
    split
    · rfl
    · rename_i hanswers
      rw [Ledger.remote, if_neg hanswers]
      rfl
  · intro i peerId hremote
    rw [isSome_iff_ne_none, Ne, Standing.fields_eq_none]
    exact (Ledger.remote_some hremote).2

lemma Ledger.Tracks.fields
    (hsome : order.filter (l.answers cfg envelope.chunkId placement) ≠ []) :
    ∃ fields,
      (l.standing (l.origin cfg envelope.chunkId placement order)).fields envelope = some fields ∧
      ((Fabric.collect cfg l.cluster envelope.chunkId placement order).findSome? fun x =>
        x.2.2).or ((l.cluster cfg.selfNodeId).chunkEnvelopeMeta.lookup envelope.chunkId) =
        some fields := by
  rw [hl.findSome?_collect h, Ledger.origin]
  cases hfirst : order.findSome? (l.remote cfg envelope.chunkId placement) with
  | some peerId =>
    obtain ⟨i, _, hremote⟩ := exists_of_findSome?_eq_some hfirst
    have hpresent := (Ledger.remote_some hremote).2
    rw [getD_some, bind_some]
    cases hfields : (l.standing peerId).fields envelope with
    | none => exact absurd (Standing.fields_eq_none.1 hfields) hpresent
    | some fields => exact ⟨fields, rfl, rfl⟩
  | none =>
    obtain ⟨i, hi⟩ := exists_mem_of_ne_nil _ hsome
    obtain ⟨hmem, hanswers⟩ := mem_filter.1 hi
    obtain ⟨hpeer, hrow⟩ := Ledger.remote_none hanswers (findSome?_eq_none_iff.1 hfirst i hmem)
    obtain ⟨part, hpart⟩ := h.exists_fragment hpeer
    have hstands := hl i cfg.selfNodeId part hpeer hpart
    rw [getD_none]
    cases hfields : (l.standing cfg.selfNodeId).fields envelope with
    | none =>
      rw [hfields] at hstands
      rw [Node.Unaware.fragment hstands] at hrow
      cases hrow
    | some fields =>
      rw [hfields] at hstands
      exact ⟨fields, rfl, ChunkEnvelopeRegistry.lookup_of_inner (Node.Carries.inner hstands)⟩

lemma Ledger.Tracks.read (horder : order.Nodup)
    (hlen : ∀ n, len = some n → n = envelope.ciphertext.length) :
    (order.filter (l.answers cfg envelope.chunkId placement)).length < k ∧
        readChunkEc rs cfg l.cluster envelope.chunkId placement (.ec k m) len order =
          .error (.chunk .chunkLost) ∨
      k ≤ (order.filter (l.answers cfg envelope.chunkId placement)).length ∧ ∃ fields,
        (l.standing (l.origin cfg envelope.chunkId placement order)).fields envelope =
          some fields ∧
        readChunkEc rs cfg l.cluster envelope.chunkId placement (.ec k m) len order =
          .ok (fields.envelope envelope.chunkId (readBytes len envelope.ciphertext)) := by
  have hk := (encode_ok h.encoded).1
  have hcollect : Fabric.collect cfg l.cluster envelope.chunkId placement order = _ := hl.collect h
  have hslots : ∀ x ∈ Fabric.collect cfg l.cluster envelope.chunkId placement order,
      fragments[x.1]? = some x.2.1 := by
    intro x hx
    rw [hcollect] at hx
    obtain ⟨i, hi, rfl⟩ := mem_map.1 hx
    obtain ⟨peerId, hpeer⟩ := Ledger.answers_peerId (mem_filter.1 hi).2
    obtain ⟨part, hpart⟩ := h.exists_fragment hpeer
    rw [getD_eq_getElem?_getD, hpart]
    rfl
  have hnodup : ((Fabric.collect cfg l.cluster envelope.chunkId placement order).map
      fst).Nodup := by
    rw [hcollect, List.map_map]
    exact (horder.filter _).map fun i j hij => hij
  have hlength := congrArg length hcollect
  rw [length_map] at hlength
  rw [readChunkEc_ec h.lawful h.encoded hslots hnodup hlen, hlength]
  rcases Nat.lt_or_ge (order.filter (l.answers cfg envelope.chunkId placement)).length k with
    hfew | henough
  · exact Or.inl ⟨hfew, if_pos hfew⟩
  · have hsome := length_pos_iff.1 (Nat.lt_of_lt_of_le hk henough)
    obtain ⟨fields, hstanding, hfields⟩ := hl.fields h hsome
    rw [if_neg (Nat.not_lt.2 henough), hfields]
    exact Or.inr ⟨henough, fields, hstanding, rfl⟩

end

/-- A read is right exactly if slots, length and envelope fields are intact. -/
theorem read_after_repair_iff (h : Coded rs envelope placement k m fragments)
    {writer : ClusterCfg} {landed : NodeId → Bool} {cluster : Cluster}
    (hfresh : ∀ peerId, (cluster peerId).Unaware envelope.chunkId)
    (hrun : ReflTransGen (Ledger.Step rs envelope placement k m)
      (Ledger.written rs writer landed cluster envelope placement k m) l)
    (horder : order.Nodup) (hlen : ∀ n, len = some n → n = envelope.ciphertext.length) :
    readChunkEc rs cfg l.cluster envelope.chunkId placement (.ec k m) len order = .ok envelope ↔
      k ≤ (order.filter (l.answers cfg envelope.chunkId placement)).length ∧
      (len.isSome ∨ envelope.ciphertext.getLast? ≠ some 0) ∧
      (l.standing (l.origin cfg envelope.chunkId placement order) = .original ∨
        metaOf envelope = .zeroed) := by
  have hl := (Ledger.tracks_written h hfresh : (Ledger.written rs writer landed cluster envelope
    placement k m).Tracks envelope placement fragments).run h hrun
  rcases hl.read h horder hlen with ⟨hfew, hlost⟩ | ⟨henough, fields, hstanding, hok⟩
  · rw [hlost]
    exact iff_of_false (fun heq => by cases heq) (fun hcond => Nat.not_lt.2 hcond.1 hfew)
  · have hsource : fields = metaOf envelope ↔
        l.standing (l.origin cfg envelope.chunkId placement order) = .original ∨
          metaOf envelope = .zeroed := by
      cases hcase : l.standing (l.origin cfg envelope.chunkId placement order) with
      | absent =>
        rw [hcase] at hstanding
        cases hstanding
      | original =>
        rw [hcase] at hstanding
        cases hstanding
        exact iff_of_true rfl (Or.inl rfl)
      | repaired =>
        rw [hcase] at hstanding
        cases hstanding
        exact ⟨fun heq => Or.inr heq.symm, fun hor => hor.elim (fun heq => by cases heq) Eq.symm⟩
    rw [hok, Except.ok.injEq, envelope_eq_iff, readBytes_eq, hsource]
    exact (and_iff_right henough).symm

end Read

section Small

def thirdNode : ClusterCfg := ⟨3, [1, 2], 2⟩

def smallWritten : Ledger :=
  Ledger.written (mirror UInt8) thirdNode (fun _ => true) (fun _ => blank) small [1, 2, 3] 1 2

def smallLost : Ledger :=
  ⟨update smallWritten.cluster 1 ((smallWritten.cluster 1).forget small.chunkId),
    update smallWritten.standing 1 .absent⟩

def repairFirst : Except RepairError Unit × Cluster :=
  repairEc (mirror UInt8) [1, 2] smallLost.cluster small.chunkId [(2, 1)] (1, 0) (.ec 1 2)
    small.ciphertext.length

def smallRepaired : Ledger :=
  ⟨repairFirst.2, update smallLost.standing 1
    (if smallLost.standing 1 = .absent then .repaired else smallLost.standing 1)⟩

lemma smallRepaired_reached :
    ReflTransGen (Ledger.Step (mirror UInt8) small [1, 2, 3] 1 2) smallWritten
      smallRepaired := by
  have hlose : Ledger.Step (mirror UInt8) small [1, 2, 3] 1 2 smallWritten smallLost :=
    Ledger.Step.lose smallWritten 1
  have hrepair : Ledger.Step (mirror UInt8) small [1, 2, 3] 1 2 smallLost smallRepaired :=
    Ledger.Step.repair smallLost [1, 2] [(2, 1)] (1, 0) (by decide) rfl rfl
  exact (ReflTransGen.single hlose).tail hrepair

/-- The second node answers first and has the fields of the write. -/
theorem read_after_repair_second :
    readChunkEc (mirror UInt8) thirdNode smallRepaired.cluster small.chunkId [1, 2, 3] (.ec 1 2)
      (some 5) [1, 0, 2] = .ok small := by
  have hcoded : Coded (mirror UInt8) small [1, 2, 3] 1 2
      [small.ciphertext, small.ciphertext, small.ciphertext] :=
    ⟨mirror_lawful, by decide, rfl, by decide⟩
  have hfresh : ∀ peerId, ((fun _ => blank : Cluster) peerId).Unaware small.chunkId :=
    fun _ => ⟨rfl, fun _ => rfl, rfl, fun _ h => by cases h⟩
  apply (read_after_repair_iff hcoded hfresh smallRepaired_reached (by decide) ?_).2
  · exact ⟨by decide, Or.inl rfl, Or.inl rfl⟩
  · intro n hn
    cases hn
    rfl

/-- The repaired node answers first, without authentication tag and nonce. -/
theorem read_after_repair_loses_fields :
    ReflTransGen (Ledger.Step (mirror UInt8) small [1, 2, 3] 1 2) smallWritten
      smallRepaired ∧
    readChunkEc (mirror UInt8) thirdNode smallRepaired.cluster small.chunkId [1, 2, 3] (.ec 1 2)
      (some 5) [0, 1, 2] = .ok (EnvelopeMeta.zeroed.envelope small.chunkId small.ciphertext) ∧
    EnvelopeMeta.zeroed.authTag ≠ small.authTag ∧ EnvelopeMeta.zeroed.nonce ≠ small.nonce :=
  ⟨smallRepaired_reached, rfl, by decide, by decide⟩

end Small

end Kiseki.Fabric
