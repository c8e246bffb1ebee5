import Kiseki.Fabric.RepairedRead

namespace Kiseki.Fabric

open Erasure Kiseki.Chunk Function Nat LittleEndian

structure SlabId where
  uuid : Uuid
deriving DecidableEq, Repr

def slabIdAsChunkId (id : SlabId) : ChunkId :=
  ⟨id.uuid ++ (#v[0x53, 0x4C, 0x41, 0x42] : Vector UInt8 4) ++
    (Vector.replicate 12 0 : Vector UInt8 12)⟩

open List

structure SlabHeader where
  version : UInt16
  dataShards : UInt16
  parityShards : UInt16
  byteSize : UInt64
  extentCount : UInt64
  originalLen : UInt64
deriving DecidableEq, Repr

structure SlabExtent where
  chunkId : ChunkId
  offset : UInt64
  length : UInt32
  refcount : UInt32
deriving DecidableEq, Repr

structure Slab where
  id : SlabId
  header : SlabHeader
  extents : List SlabExtent
  data : Bytes
deriving DecidableEq, Repr

section Format

def SlabExtent.bytes (e : SlabExtent) : Bytes :=
  e.chunkId.bytes.toList ++ (LittleEndian.bytes 8 e.offset.toNat ++
    (LittleEndian.bytes 4 e.length.toNat ++ LittleEndian.bytes 4 e.refcount.toNat))

def extentBytes (extents : List SlabExtent) : Bytes := extents.flatMap SlabExtent.bytes

def Slab.head (slab : Slab) : Bytes :=
  bytes 2 slab.header.version.toNat ++
    (bytes 2 slab.header.dataShards.toNat ++
      (bytes 2 slab.header.parityShards.toNat ++ (bytes 2 0 ++
        (bytes 8 slab.header.byteSize.toNat ++
          (bytes 8 slab.header.extentCount.toNat ++
            (bytes 8 slab.header.originalLen.toNat ++
              bytes 4 slab.extents.length))))))

def serialiseSlab (slab : Slab) : Bytes :=
  slab.head ++ (extentBytes slab.extents ++ slab.data)

def readExtent (input : Bytes) : SlabExtent × Bytes :=
  let offset := read 8 (input.drop 32)
  let length := read 4 offset.2
  let refcount := read 4 length.2
  (⟨⟨Vector.ofFn fun i => input.getD i 0⟩, UInt64.ofNat offset.1, UInt32.ofNat length.1,
    UInt32.ofNat refcount.1⟩, refcount.2)

def readExtents : Nat → Bytes → List SlabExtent × Bytes
  | 0, input => ([], input)
  | n + 1, input =>
    let e := readExtent input
    let r := readExtents n e.2
    (e.1 :: r.1, r.2)

/-- The count after the header gives the number of extents. -/
def deserialiseSlab (id : SlabId) (input : Bytes) : Except ChunkError Slab :=
  if input.length < 32 + 4 then .error (.slabNotFound id.uuid)
  else
    let version := read 2 input
    let dataShards := read 2 version.2
    let parityShards := read 2 dataShards.2
    let reserved := read 2 parityShards.2
    let byteSize := read 8 reserved.2
    let extentCount := read 8 byteSize.2
    let originalLen := read 8 extentCount.2
    let count := read 4 originalLen.2
    if input.length < 36 + 48 * count.1 + originalLen.1 then .error (.slabNotFound id.uuid)
    else
      let extents := readExtents count.1 count.2
      .ok
        { id := id
          header :=
            { version := UInt16.ofNat version.1
              dataShards := UInt16.ofNat dataShards.1
              parityShards := UInt16.ofNat parityShards.1
              byteSize := UInt64.ofNat byteSize.1
              extentCount := UInt64.ofNat count.1
              originalLen := UInt64.ofNat originalLen.1 }
          extents := extents.1
          data := extents.2.take originalLen.1 }

variable {slab : Slab} {id : SlabId} {rest : Bytes}

lemma SlabExtent.length_bytes (e : SlabExtent) : e.bytes.length = 48 := by
  simp only [SlabExtent.bytes, length_append, Vector.length_toList, LittleEndian.length_bytes]

lemma length_extentBytes (extents : List SlabExtent) :
    (extentBytes extents).length = 48 * extents.length := by
  induction extents with
  | nil => rfl
  | cons e extents ih =>
    rw [extentBytes, flatMap_cons, length_append, e.length_bytes, ← extentBytes, ih,
      length_cons, mul_succ, add_comm]

lemma Slab.length_head (slab : Slab) : slab.head.length = 36 := by
  simp only [Slab.head, length_append, length_bytes]

lemma ofNat_mod_16 (x : UInt16) : UInt16.ofNat (x.toNat % 256 ^ 2) = x := by
  have hlt : x.toNat < 256 ^ 2 := x.toNat_lt
  rw [mod_eq_of_lt hlt, UInt16.ofNat_toNat]

lemma ofNat_mod_32 (x : UInt32) : UInt32.ofNat (x.toNat % 256 ^ 4) = x := by
  have hlt : x.toNat < 256 ^ 4 := x.toNat_lt
  rw [mod_eq_of_lt hlt, UInt32.ofNat_toNat]

lemma ofNat_mod_64 (x : UInt64) : UInt64.ofNat (x.toNat % 256 ^ 8) = x := by
  have hlt : x.toNat < 256 ^ 8 := x.toNat_lt
  rw [mod_eq_of_lt hlt, UInt64.ofNat_toNat]

variable {e : SlabExtent}

lemma readExtent_bytes : readExtent (e.bytes ++ rest) = (e, rest) := by
  have hid : e.chunkId.bytes.toList.length = 32 := e.chunkId.bytes.length_toList
  have hvector : (Vector.ofFn fun i : Fin 32 => (e.bytes ++ rest).getD i 0) = e.chunkId.bytes := by
    apply Vector.ext
    intro i hi
    rw [Vector.getElem_ofFn, SlabExtent.bytes, append_assoc, getD_eq_getElem?_getD,
      getElem?_append_left (hi.trans_eq hid.symm), Vector.getElem?_toList,
        Vector.getElem?_eq_getElem hi]
    rfl
  rw [readExtent, hvector, SlabExtent.bytes, append_assoc, drop_left' hid]
  simp only [append_assoc, read_bytes]
  rw [ofNat_mod_64, ofNat_mod_32, ofNat_mod_32]

lemma readExtents_bytes (extents : List SlabExtent) (rest : Bytes) :
    readExtents extents.length (extentBytes extents ++ rest) = (extents, rest) := by
  induction extents with
  | nil => rfl
  | cons e extents ih =>
    rw [length_cons, extentBytes, flatMap_cons, append_assoc, readExtents, readExtent_bytes]
    dsimp only
    rw [← extentBytes, ih]

variable {n : Nat} {input : Bytes}

lemma length_readExtents : (readExtents n input).1.length = n := by
  induction n generalizing input with
  | zero => rfl
  | succ n ih => rw [readExtents, length_cons, ih]

lemma rest_readExtents : (readExtents n input).2 = input.drop (48 * n) := by
  induction n generalizing input with
  | zero => rfl
  | succ n ih =>
    rw [readExtents, ih, readExtent]
    simp only [LittleEndian.read, drop_drop]
    congr 1
    omega

lemma deserialise_head :
    deserialiseSlab slab.id (slab.head ++ rest) =
      if rest.length < 48 * (slab.extents.length % 256 ^ 4) + slab.header.originalLen.toNat then
        .error (.slabNotFound slab.id.uuid)
      else .ok
        { id := slab.id
          header := { slab.header with
            extentCount := UInt64.ofNat (slab.extents.length % 256 ^ 4) }
          extents := (readExtents (slab.extents.length % 256 ^ 4) rest).1
          data := (readExtents (slab.extents.length % 256 ^ 4) rest).2.take
            slab.header.originalLen.toNat } := by
  have hlong : ¬(slab.head ++ rest).length < 32 + 4 := by
    rw [length_append, slab.length_head]
    omega
  have hlen : slab.header.originalLen.toNat % 256 ^ 8 = slab.header.originalLen.toNat :=
    mod_eq_of_lt slab.header.originalLen.toNat_lt
  rw [deserialiseSlab, if_neg hlong, length_append, slab.length_head, Slab.head]
  simp only [append_assoc, read_bytes]
  rw [hlen, add_assoc, ofNat_mod_16, ofNat_mod_16, ofNat_mod_16, ofNat_mod_64, UInt64.ofNat_toNat]
  simp only [Nat.add_lt_add_iff_left]

lemma deserialise_serialise (hlen : slab.header.originalLen.toNat = slab.data.length)
    (hcount : slab.extents.length < 2 ^ 32) :
    ∃ header, deserialiseSlab slab.id (serialiseSlab slab) =
      .ok { slab with header := header } := by
  have hmod : slab.extents.length % 256 ^ 4 = slab.extents.length := mod_eq_of_lt hcount
  have hlong : ¬(extentBytes slab.extents ++ slab.data).length <
      48 * slab.extents.length + slab.data.length := by
    rw [length_append, length_extentBytes]
    exact lt_irrefl _
  rw [serialiseSlab, deserialise_head, hmod, hlen, if_neg hlong, readExtents_bytes, take_length]
  exact ⟨_, rfl⟩

lemma deserialise_prefix {input : Bytes} {slab' : Slab} (hinput : input <+: serialiseSlab slab)
    (h : deserialiseSlab slab.id input = .ok slab')
    (hextents : slab'.extents.length = slab.extents.length)
    (hdata : slab'.data.length = slab.data.length) :
    input = serialiseSlab slab ∧ slab.header.originalLen.toNat = slab.data.length ∧
      slab.extents.length < 2 ^ 32 := by
  have hlong : 36 ≤ input.length := by
    rw [deserialiseSlab] at h
    split at h
    · cases h
    · omega
  rw [serialiseSlab] at hinput ⊢
  obtain ⟨rest, rfl⟩ := prefix_of_prefix_length_le (prefix_append _ _) hinput
    (slab.length_head.trans_le hlong)
  have hrest := (prefix_append_right_inj _).1 hinput
  rw [deserialise_head] at h
  split at h
  · cases h
  · rename_i henough
    cases h
    rw [length_readExtents] at hextents
    have hcount : slab.extents.length < 256 ^ 4 := hextents ▸ mod_lt _ (by decide)
    rw [hextents] at henough hdata
    rw [rest_readExtents, length_take, length_drop] at hdata
    have hlen : slab.header.originalLen.toNat = slab.data.length := by omega
    have hwhole : (extentBytes slab.extents ++ slab.data).length ≤ rest.length := by
      rw [length_append, length_extentBytes]
      omega
    rw [hrest.eq_of_length_le hwhole]
    exact ⟨rfl, hlen, hcount⟩

/-- The last byte that is stored of a slab is not 0. -/
def Slab.Solid (slab : Slab) : Prop :=
  match slab.data.getLast?, slab.extents.getLast? with
  | some b, _ => b ≠ 0
  | none, some e => 256 ^ 3 ≤ e.refcount.toNat
  | none, none => False

lemma getLast?_extentBytes (extents : List SlabExtent) :
    (extentBytes (extents ++ [e])).getLast? = some 0 ↔ e.refcount.toNat < 256 ^ 3 := by
  have hne : bytes 4 e.refcount.toNat ≠ [] := cons_ne_nil _ _
  rw [extentBytes, flatMap_append, flatMap_singleton, SlabExtent.bytes]
  simp only [← append_assoc]
  rw [getLast?_append_of_ne_nil _ hne]
  exact getLast?_bytes e.refcount.toNat_lt

lemma getLast?_serialise : (serialiseSlab slab).getLast? ≠ some 0 ↔ slab.Solid := by
  rw [serialiseSlab, Slab.Solid]
  cases hdata : slab.data.getLast? with
  | some b =>
    have hne : slab.data ≠ [] := fun hnil => by rw [hnil] at hdata; cases hdata
    rw [← append_assoc, getLast?_append_of_ne_nil _ hne, hdata]
    simp only [Option.some.injEq, ne_eq]
  | none =>
    rw [getLast?_eq_none_iff.1 hdata, append_nil]
    rcases eq_nil_or_concat slab.extents with hnil | ⟨init, e, hconcat⟩
    · have hne : bytes 4 0 ≠ [] := cons_ne_nil _ _
      rw [hnil, getLast?_nil, extentBytes, flatMap_nil, append_nil, Slab.head, hnil]
      simp only [← append_assoc]
      rw [length_nil, getLast?_append_of_ne_nil _ hne]
      exact iff_of_false (fun h => h rfl) (fun h => h)
    · have hne : extentBytes (init ++ [e]) ≠ [] := by
        intro hempty
        have hlength := length_extentBytes (init ++ [e])
        rw [hempty, length_append] at hlength
        cases hlength
      rw [concat_eq_append] at hconcat
      rw [hconcat, getLast?_append_of_ne_nil _ hne, getLast?_concat, ne_eq,
        getLast?_extentBytes, not_lt]

end Format

variable {id : ChunkId}

section Overlay

def setRefcount (id : ChunkId) (refcount : UInt32) : List SlabExtent → List SlabExtent
  | [] => []
  | e :: extents =>
    if e.chunkId = id then { e with refcount := refcount } :: extents
    else e :: setRefcount id refcount extents

def overlay (live extents : List SlabExtent) : List SlabExtent :=
  live.foldl (fun extents e => setRefcount e.chunkId e.refcount extents) extents

/-- The refcounts that some chunks are to have, each on its first extent. -/
def settle (f : ChunkId → Option UInt32) : List SlabExtent → List SlabExtent
  | [] => []
  | e :: extents =>
    { e with refcount := (f e.chunkId).getD e.refcount } ::
      settle (update f e.chunkId none) extents

lemma settle_none (extents : List SlabExtent) : settle (fun _ => none) extents = extents := by
  induction extents with
  | nil => rfl
  | cons e extents ih =>
    rw [settle, update_eq_self_iff.2 rfl, ih]
    rfl

variable {f : ChunkId → Option UInt32}

lemma length_settle (extents : List SlabExtent) : (settle f extents).length = extents.length := by
  induction extents generalizing f with
  | nil => rfl
  | cons e extents ih => rw [settle, length_cons, length_cons, ih]

lemma setRefcount_settle (refcount : UInt32) (extents : List SlabExtent) :
    setRefcount id refcount (settle f extents) =
      settle (update f id (some refcount)) extents := by
  induction extents generalizing f with
  | nil => rfl
  | cons e extents ih =>
    rw [settle, settle, setRefcount]
    dsimp only
    by_cases heq : e.chunkId = id
    · rw [if_pos heq, heq, update_self, update_idem]
      rfl
    · rw [if_neg heq, update_of_ne heq, ih, update_comm heq]

def lastRefcount (live : List SlabExtent) (id : ChunkId) : Option UInt32 :=
  (live.reverse.find? fun e => e.chunkId = id).map SlabExtent.refcount

variable {live extents : List SlabExtent}

lemma overlay_eq_settle : overlay live extents = settle (lastRefcount live) extents := by
  induction live using reverseRecOn with
  | nil => exact (settle_none extents).symm
  | append_singleton live e ih =>
    rw [overlay, foldl_append, foldl_cons, foldl_nil, ← overlay, ih, setRefcount_settle]
    congr 1
    funext id
    rw [lastRefcount, reverse_concat, find?_cons]
    by_cases heq : id = e.chunkId
    · rw [heq, update_self, decide_eq_true rfl]
      rfl
    · rw [update_of_ne heq, decide_eq_false (Ne.symm heq)]
      rfl

lemma settle_eq_self (extents : List SlabExtent) :
    settle f extents = extents ↔ ∀ id e, extents.find? (fun e => e.chunkId = id) = some e →
      ∀ refcount ∈ f id, e.refcount = refcount := by
  induction extents generalizing f with
  | nil => exact iff_of_true rfl (fun id e h => by cases h)
  | cons x extents ih =>
    have hhead : ∀ id, x.chunkId = id →
        (x :: extents).find? (fun e => e.chunkId = id) = some x := by
      intro id heq
      rw [find?_cons, decide_eq_true heq]
    have htail : ∀ id, ¬x.chunkId = id → (x :: extents).find? (fun e => e.chunkId = id) =
        extents.find? fun e => e.chunkId = id := by
      intro id hne
      rw [find?_cons, decide_eq_false hne]
    rw [settle, cons.injEq, ih]
    constructor
    · intro h id e hfind refcount hmem
      obtain ⟨hfirst, hrest⟩ := h
      by_cases heq : x.chunkId = id
      · rw [hhead id heq] at hfind
        cases hfind
        have hrefcount := congrArg SlabExtent.refcount hfirst
        rw [heq, hmem] at hrefcount
        exact hrefcount.symm
      · rw [htail id heq] at hfind
        apply hrest id e hfind
        rw [update_of_ne (Ne.symm heq)]
        exact hmem
    · intro h
      refine ⟨?_, ?_⟩
      · cases hf : f x.chunkId with
        | none => rfl
        | some refcount =>
          rw [Option.getD_some, ← h x.chunkId x (hhead _ rfl) refcount hf]
      · intro id e hfind refcount hmem
        by_cases heq : x.chunkId = id
        · rw [← heq, update_self] at hmem
          cases hmem
        · rw [update_of_ne (Ne.symm heq)] at hmem
          exact h id e ((htail id heq).trans hfind) refcount hmem

lemma overlay_self (extents : List SlabExtent) : overlay extents extents = extents ↔
    ∀ id first last, extents.find? (fun e => e.chunkId = id) = some first →
      extents.reverse.find? (fun e => e.chunkId = id) = some last →
      first.refcount = last.refcount := by
  rw [overlay_eq_settle, settle_eq_self]
  constructor
  · intro h id first last hfirst hlast
    apply h id first hfirst
    rw [lastRefcount, hlast]
    rfl
  · intro h id first hfirst refcount hmem
    obtain ⟨last, hlast, rfl⟩ := Option.map_eq_some_iff.1 hmem
    exact h id first last hfirst hlast

lemma length_overlay : (overlay live extents).length = extents.length := by
  rw [overlay_eq_settle, length_settle]

end Overlay

section Store

def syntheticEnvelope (id : SlabId) (serialised : Bytes) : Envelope where
  ciphertext := serialised
  authTag := .replicate 16 0
  nonce := .replicate 12 0
  systemEpoch := 0
  tenantEpoch := none
  tenantWrappedMaterial := none
  chunkId := slabIdAsChunkId id

structure SlabState where
  cluster : Cluster
  refs : Finmap fun _ : SlabId => Bytes

def SlabState.extents (st : SlabState) (id : SlabId) : Option (List SlabExtent) :=
  (st.refs.lookup id).bind fun raw =>
    if raw.length % 48 ≠ 0 then none else some (readExtents (raw.length / 48) raw).1

lemma SlabState.extents_insert (st : SlabState) (id : SlabId) (extents : List SlabExtent) :
    SlabState.extents { st with refs := st.refs.insert id (extentBytes extents) } id =
      some extents := by
  have hlength := length_extentBytes extents
  have hwhole : ¬(extentBytes extents).length % 48 ≠ 0 := by omega
  have hcount : (extentBytes extents).length / 48 = extents.length := by omega
  have hread := readExtents_bytes extents []
  rw [append_nil] at hread
  rw [SlabState.extents, Finmap.lookup_insert, Option.bind_some, if_neg hwhole, hcount, hread]

def putSlab (rs : Coder UInt8) (cfg : ClusterCfg) (landed : NodeId → Bool)
    (placement : List NodeId) (strategy : EcStrategy) (st : SlabState) (slab : Slab) :
    Except FabricError Unit × SlabState :=
  let r := writeChunkEc rs cfg landed st.cluster
    (syntheticEnvelope slab.id (serialiseSlab slab)) placement strategy
  match r.1 with
  | .error err => (.error err, ⟨r.2, st.refs⟩)
  | .ok () => (.ok (), ⟨r.2, st.refs.insert slab.id (extentBytes slab.extents)⟩)

/-- The order is that of the fetches; the read has no length. -/
def getSlab (rs : Coder UInt8) (cfg : ClusterCfg) (placement : List NodeId)
    (strategy : EcStrategy) (order : List Nat) (st : SlabState) (id : SlabId) :
    Except FabricError Slab :=
  match readChunkEc rs cfg st.cluster (slabIdAsChunkId id) placement strategy none order with
  | .error err => .error err
  | .ok envelope =>
    match deserialiseSlab id envelope.ciphertext with
    | .error err => .error (.chunk err)
    | .ok slab =>
      match st.extents id with
      | none => .ok slab
      | some live => .ok { slab with extents := overlay live slab.extents }

end Store

section Read
variable {rs : Coder UInt8} {cfg : ClusterCfg} {cluster cluster' : Cluster} {envelope : Envelope}
  {placement : List NodeId} {order : List Nat} {k m n : Nat} {fragments : List Bytes}

lemma exists_fields {slots : List (Nat × Bytes × Option EnvelopeMeta)}
    {registry : Option EnvelopeMeta} (hne : slots ≠ [])
    (h : ∀ x ∈ slots, x.2.2 = none → registry.isSome) :
    ∃ fields, (slots.findSome? fun x => x.2.2).or registry = some fields := by
  cases hfind : slots.findSome? fun x => x.2.2 with
  | some fields => exact ⟨fields, rfl⟩
  | none =>
    obtain ⟨x, hx⟩ := exists_mem_of_ne_nil slots hne
    exact Option.isSome_iff_exists.1 (h x hx (findSome?_eq_none_iff.1 hfind x hx))

lemma fetch_received {i : Nat} {p : NodeId} {part : Bytes}
    (hfresh : (cluster p).Unaware envelope.chunkId)
    (hknown : cfg.isSelf p = true ∨ p ∈ cfg.peers) (hp : placement[i]? = some p)
    (hnode : cluster' p = (receive cfg (fun _ => true) envelope ⟨p, i, part⟩ (cluster p)).2) :
    ∃ fields, fetch cfg cluster' envelope.chunkId placement i = some (part, fields) ∧
      (fields = none →
        ((cluster' cfg.selfNodeId).chunkEnvelopeMeta.lookup envelope.chunkId).isSome) := by
  rw [fetch, hp]
  rw [receive] at hnode
  dsimp only at hnode ⊢
  by_cases hself : cfg.isSelf p = true
  · have heq : p = cfg.selfNodeId := of_decide_eq_true (Bool.and_eq_true_iff.1 hself).2
    rw [if_pos hself] at hnode ⊢
    refine ⟨none, ?_, ?_⟩
    · rw [hnode, LocalStore.readFragment, LocalStore.writeFragment, Finmap.lookup_insert]
      rfl
    · intro _
      rw [← heq, hnode, ChunkEnvelopeRegistry.lookup_of_inner
        (ChunkEnvelopeRegistry.inner_record hfresh.inner _)]
      rfl
  · have hpeer := hknown.resolve_left hself
    rw [if_neg hself, if_pos ⟨hpeer, rfl⟩] at hnode
    refine ⟨some (metaOf envelope), ?_, fun h => by cases h⟩
    rw [if_neg hself, if_pos hpeer, hnode, (hfresh.put i part (metaOf envelope)).get]
    rfl

lemma mem_collect {id : ChunkId} {x : Nat × Bytes × Option EnvelopeMeta} :
    x ∈ collect cfg cluster id placement order ↔
      x.1 ∈ order ∧ fetch cfg cluster id placement x.1 = some x.2 := by
  rw [collect, mem_filterMap]
  constructor
  · intro h
    obtain ⟨i, hi, hmap⟩ := h
    obtain ⟨y, hy, rfl⟩ := Option.map_eq_some_iff.1 hmap
    exact ⟨hi, hy⟩
  · intro h
    refine ⟨x.1, h.1, ?_⟩
    rw [h.2]
    rfl

lemma Coded.read (h : Coded rs envelope placement k m fragments)
    (hfresh : ∀ p, (cluster p).Unaware envelope.chunkId)
    (hknown : ∀ p ∈ placement, cfg.isSelf p = true ∨ p ∈ cfg.peers) (horder : order.Nodup)
    (hall : ∀ i < placement.length, i ∈ order) :
    ∃ fields : EnvelopeMeta, readChunkEc rs cfg
      (writeChunkEc rs cfg (fun _ => true) cluster envelope placement (.ec k m)).2
      envelope.chunkId placement (.ec k m) none order =
        .ok (fields.envelope envelope.chunkId (envelope.ciphertext.rdropWhile (· = 0))) := by
  let l := Ledger.written rs cfg (fun _ => true) cluster envelope placement k m
  have hl : l.Tracks envelope placement fragments := Ledger.tracks_written h hfresh
  have hanswers : ∀ i < placement.length, l.answers cfg envelope.chunkId placement i = true := by
    intro i hi
    have hp := getElem?_eq_getElem hi
    have hmem := mem_of_getElem? hp
    by_cases hself : cfg.isSelf placement[i] = true
    · obtain ⟨part, hpart⟩ := h.exists_fragment hp
      have hnode : l.cluster placement[i] = _ := h.written hp hpart
      rw [l.answers_self _ hp hself, hnode, receive, if_pos hself, LocalStore.writeFragment,
        Finmap.lookup_insert]
      rfl
    · have hpeer := (hknown _ hmem).resolve_left hself
      have hstanding : l.standing placement[i] = .original := if_pos ⟨hmem, .inr ⟨hpeer, rfl⟩⟩
      rw [l.answers_peer _ hp hself, decide_eq_true hpeer, hstanding]
      rfl
  have hslots : range placement.length ⊆ order.filter (l.answers cfg envelope.chunkId placement) :=
    fun i hi => mem_filter.2 ⟨hall i (mem_range.1 hi), hanswers i (mem_range.1 hi)⟩
  have hle := (nodup_range.subperm hslots).length_le
  rw [length_range, h.length] at hle
  have hnone : ∀ n, none = some n → n = envelope.ciphertext.length := by simp
  rcases hl.read h horder hnone with ⟨hfew, _⟩ | ⟨_, fields, _, hok⟩
  · exact absurd hfew (not_lt.2 (le_of_add_right_le hle))
  · exact ⟨fields, hok⟩

lemma fetch_copy_none {i : Nat} {p : NodeId} {part : Bytes}
    (hfresh : (cluster p).Unaware envelope.chunkId) (hp : placement[i]? = some p) (hi : i ≠ 0)
    (hnode : cluster' p = (receive cfg (fun _ => true) envelope ⟨p, 0, part⟩ (cluster p)).2) :
    fetch cfg cluster' envelope.chunkId placement i = none := by
  rw [fetch, hp]
  rw [receive] at hnode
  dsimp only at hnode ⊢
  by_cases hself : cfg.isSelf p = true
  · have hne : (envelope.chunkId, i) ≠ (envelope.chunkId, 0) := fun h => hi (Prod.mk.inj h).2
    rw [if_pos hself] at hnode ⊢
    rw [hnode, LocalStore.readFragment, LocalStore.writeFragment,
      Finmap.lookup_insert_of_ne _ hne, hfresh.fragment]
    rfl
  · rw [if_neg hself] at hnode ⊢
    by_cases hpeer : p ∈ cfg.peers
    · have hchunk : (cluster p).store.chunks.lookup
          ((metaOf envelope).envelope envelope.chunkId part).chunkId = none := hfresh.chunk
      rw [if_pos ⟨hpeer, rfl⟩, Node.handlePutFragment_new hchunk] at hnode
      rw [if_pos hpeer, hnode, Node.handleGetFragment, LocalStore.readFragment, hfresh.fragment]
      dsimp only
      rw [if_neg hi]
      rfl
    · rw [if_neg hpeer]

lemma read_copies (hdistinct : placement.Nodup) (hcopies : placement.length = n)
    (hfresh : ∀ p, (cluster p).Unaware envelope.chunkId)
    (hknown : ∀ p ∈ placement, cfg.isSelf p = true ∨ p ∈ cfg.peers) (hpos : 0 < n)
    (hall : ∀ i < placement.length, i ∈ order) :
    ∃ fields : EnvelopeMeta, readChunkEc rs cfg
      (writeChunkEc rs cfg (fun _ => true) cluster envelope placement (.replication n)).2
      envelope.chunkId placement (.replication n) none order =
        .ok (fields.envelope envelope.chunkId (envelope.ciphertext.rdropWhile (· = 0))) := by
  have hnode : ∀ p ∈ placement,
      (writeChunkEc rs cfg (fun _ => true) cluster envelope placement (.replication n)).2 p =
        (receive cfg (fun _ => true) envelope ⟨p, 0, envelope.ciphertext⟩ (cluster p)).2 := by
    intro p hp
    have hroute : (⟨p, 0, envelope.ciphertext⟩ : FragmentRoute) ∈
        placement.map fun peerId => (⟨peerId, 0, envelope.ciphertext⟩ : FragmentRoute) :=
      mem_map_of_mem hp
    have hpeers : ((placement.map fun peerId =>
        (⟨peerId, 0, envelope.ciphertext⟩ : FragmentRoute)).map FragmentRoute.peerId).Nodup := by
      rw [map_map]
      exact hdistinct.map fun _ _ heq => heq
    have htotal : ¬placement.length ≠ (EcStrategy.replication n).totalFragments := not_not.2 hcopies
    rw [writeChunkEc, encodeForPlacement, if_neg htotal]
    exact deliver_of_mem hpeers hroute
  generalize (writeChunkEc rs cfg (fun _ => true) cluster envelope placement
    (.replication n)).2 = cluster' at *
  have hlt : 0 < placement.length := hcopies ▸ hpos
  have hfirst := getElem?_eq_getElem hlt
  have hmem := mem_of_getElem? hfirst
  obtain ⟨fields, hfetch, hregistry⟩ :=
    fetch_received (hfresh _) (hknown _ hmem) hfirst (hnode _ hmem)
  have hslots : ∀ x ∈ collect cfg cluster' envelope.chunkId placement order,
      x.2 = (envelope.ciphertext, fields) := by
    intro x hx
    have hx := (mem_collect.1 hx).2
    by_cases hzero : x.1 = 0
    · rw [hzero] at hx
      exact Option.some.inj (hx.symm.trans hfetch)
    · cases hp : placement[x.1]? with
      | none =>
        rw [fetch, hp] at hx
        cases hx
      | some p =>
        rw [fetch_copy_none (hfresh p) hp hzero (hnode p (mem_of_getElem? hp))] at hx
        cases hx
  have hin : (0, envelope.ciphertext, fields) ∈
      collect cfg cluster' envelope.chunkId placement order :=
    mem_collect.2 ⟨hall 0 hlt, hfetch⟩
  obtain ⟨found, hfound⟩ := exists_fields (ne_nil_of_mem hin)
    fun x hx hnone => hregistry (by rw [hslots x hx] at hnone; exact hnone)
  refine ⟨found, ?_⟩
  rw [readChunkEc]
  dsimp only
  rw [hfound]
  generalize collect cfg cluster' envelope.chunkId placement order = slots at *
  cases slots with
  | nil => exact absurd hin not_mem_nil
  | cons x slots =>
    have hbytes : x.2.1 = envelope.ciphertext := by rw [hslots x mem_cons_self]
    have henough : ¬(x :: slots).length < (EcStrategy.replication n).minFragmentsForRead :=
      not_lt.2 (succ_pos _)
    rw [if_neg henough, map_cons, decodeFromResponses_replication]
    dsimp only
    rw [hbytes]
    rfl

end Read

section RoundTrip
variable {rs : Coder UInt8} {cfg : ClusterCfg} {st : SlabState} {placement : List NodeId}
  {strategy : EcStrategy} {order : List Nat} {slab : Slab}
  (hrs : rs.Lawful) (hdistinct : placement.Nodup)
  (hknown : ∀ p ∈ placement, cfg.isSelf p = true ∨ p ∈ cfg.peers)
  (hfresh : ∀ p, (st.cluster p).Unaware (slabIdAsChunkId slab.id)) (horder : order.Nodup)
  (hall : ∀ i < placement.length, i ∈ order)
  (hput : (putSlab rs cfg (fun _ => true) placement strategy st slab).1 = .ok ())
include hrs hdistinct hknown hfresh horder hall hput

lemma read_put :
    (∃ fields : EnvelopeMeta, readChunkEc rs cfg
      (putSlab rs cfg (fun _ => true) placement strategy st slab).2.cluster
      (slabIdAsChunkId slab.id) placement strategy none order =
        .ok (fields.envelope (slabIdAsChunkId slab.id)
          ((serialiseSlab slab).rdropWhile (· = 0)))) ∧
    (putSlab rs cfg (fun _ => true) placement strategy st slab).2.extents slab.id =
      some slab.extents := by
  rw [putSlab] at hput ⊢
  cases hwrite : (writeChunkEc rs cfg (fun _ => true) st.cluster
      (syntheticEnvelope slab.id (serialiseSlab slab)) placement strategy).1 with
  | error err =>
    rw [hwrite] at hput
    cases hput
  | ok _ =>
    refine ⟨?_, ?_⟩
    · cases hencode : encodeForPlacement rs strategy (serialiseSlab slab) placement with
      | error err =>
        have hwritten := hwrite
        rw [writeChunkEc, syntheticEnvelope, hencode] at hwritten
        cases hwritten
      | ok routes =>
        cases strategy with
        | ec k m =>
          obtain ⟨fragments, hfragments, hlength, _⟩ := encodeForPlacement_ec hencode
          exact Coded.read ⟨hrs, hfragments, hlength, hdistinct⟩ hfresh hknown horder hall
        | replication n =>
          have hcopies := (encodeForPlacement_replication hencode).1
          have hpos : 0 < n := by
            rcases n.eq_zero_or_pos with hzero | hpos
            · have hnil := eq_nil_of_length_eq_zero (hcopies.trans hzero)
              have hfew : ¬max cfg.minAcks (EcStrategy.replication n).minFragmentsForRead ≤ 0 :=
                not_le.2 (lt_of_lt_of_le one_pos (le_max_right _ _))
              rw [hnil, hzero] at hwrite
              rw [hzero] at hfew
              have hlost := (if_neg hfew).symm.trans hwrite
              cases hlost
            · exact hpos
          exact read_copies hdistinct hcopies hfresh hknown hpos hall
    · exact SlabState.extents_insert _ _ _

/-- A slab comes back exactly if header, last byte and refcounts are regular. -/
theorem slab_round_trip_iff :
    (∃ slab', getSlab rs cfg placement strategy order
        (putSlab rs cfg (fun _ => true) placement strategy st slab).2 slab.id = .ok slab' ∧
        slab'.extents = slab.extents ∧ slab'.data = slab.data) ↔
      slab.header.originalLen.toNat = slab.data.length ∧ slab.extents.length < 2 ^ 32 ∧
        slab.Solid ∧ ∀ id first last, slab.extents.find? (fun e => e.chunkId = id) = some first →
          slab.extents.reverse.find? (fun e => e.chunkId = id) = some last →
          first.refcount = last.refcount := by
  obtain ⟨⟨fields, hread⟩, hlive⟩ := read_put hrs hdistinct hknown hfresh horder hall hput
  have htrim : readBytes none (serialiseSlab slab) = serialiseSlab slab ↔ _ := readBytes_eq
  rw [getLast?_serialise, Option.isSome_none, or_iff_right Bool.false_ne_true] at htrim
  rw [getSlab, hread]
  dsimp only [ciphertext_envelope]
  constructor
  · intro h
    obtain ⟨slab', hget, hextents, hdata⟩ := h
    split at hget
    · cases hget
    · rename_i slab'' hdeserialise
      rw [hlive] at hget
      cases hget
      have hlength : slab''.extents.length = slab.extents.length := by
        rw [← length_overlay]
        exact congrArg length hextents
      have hshort := rdropWhile_prefix (fun x => decide (x = 0)) (serialiseSlab slab)
      obtain ⟨hwhole, hlen, hcount⟩ :=
        deserialise_prefix hshort hdeserialise hlength (congrArg length hdata)
      obtain ⟨header, hslab⟩ := deserialise_serialise hlen hcount
      rw [hwhole, hslab] at hdeserialise
      cases hdeserialise
      exact ⟨hlen, hcount, htrim.1 hwhole, (overlay_self _).1 hextents⟩
  · intro h
    obtain ⟨hlen, hcount, hsolid, hrefcounts⟩ := h
    obtain ⟨header, hslab⟩ := deserialise_serialise hlen hcount
    have hwhole : (serialiseSlab slab).rdropWhile (· = 0) = serialiseSlab slab := htrim.2 hsolid
    rw [hwhole, hslab]
    dsimp only
    rw [hlive]
    exact ⟨_, rfl, (overlay_self _).2 hrefcounts, rfl⟩

end RoundTrip

section Small

def smallSlab (data : Bytes) : Slab where
  id := ⟨.replicate 16 7⟩
  header := ⟨1, 1, 2, UInt64.ofNat data.length, 1, UInt64.ofNat data.length⟩
  extents := [⟨small.chunkId, 0, UInt32.ofNat data.length, 1⟩]
  data := data

def blankSlabs : SlabState := ⟨fun _ => blank, ∅⟩

def smallPut (strategy : EcStrategy) (data : Bytes) : Except FabricError Unit × SlabState :=
  putSlab (mirror UInt8) thirdNode (fun _ => true) [1, 2, 3] strategy blankSlabs (smallSlab data)

def smallGot (strategy : EcStrategy) (data : Bytes) : Except FabricError Slab :=
  getSlab (mirror UInt8) thirdNode [1, 2, 3] strategy [0, 1, 2] (smallPut strategy data).2
    (smallSlab data).id

theorem slab_round_trip_small : ∃ slab, smallGot (.ec 1 2) [5, 6] = .ok slab ∧
    slab.extents = (smallSlab [5, 6]).extents ∧ slab.data = (smallSlab [5, 6]).data := by
  have hput : (putSlab (mirror UInt8) thirdNode (fun _ => true) [1, 2, 3] (.ec 1 2) blankSlabs
      (smallSlab [5, 6])).1 = .ok () := by decide
  apply (slab_round_trip_iff mirror_lawful (by decide)
    (by simp [thirdNode, ClusterCfg.isSelf])
      (fun _ => ⟨rfl, fun _ => rfl, rfl, fun _ h => by cases h⟩) (by decide) (by decide) hput).2
  have hsolid : (smallSlab [5, 6]).Solid := (by decide : (6 : UInt8) ≠ 0)
  refine ⟨by decide, by decide, hsolid, ?_⟩
  intro id first last hfirst hlast
  rw [mem_singleton.1 (mem_of_find?_eq_some hfirst), mem_singleton.1 (mem_of_find?_eq_some hlast)]

/-- Data that ends in a zero byte does not come back. -/
theorem slab_round_trip_fails :
    (smallPut (.ec 1 2) [5, 0]).1 = .ok () ∧
    smallGot (.ec 1 2) [5, 0] = .error (.chunk (.slabNotFound (smallSlab [5, 0]).id.uuid)) ∧
    (smallPut (.replication 3) []).1 = .ok () ∧
    smallGot (.replication 3) [] = .error (.chunk (.slabNotFound (smallSlab []).id.uuid)) :=
  ⟨by decide, by decide +kernel, by decide, by decide +kernel⟩

end Small

end Kiseki.Fabric
