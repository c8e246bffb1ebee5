import Kiseki.Log.PruneGuard

namespace Kiseki.Log
open Intent Raft Relation Finmap MemShardStore Prod
open List hiding mem_keys

def qualityToU8 : ClockQuality → UInt8
  | .ntp => 0
  | .ptp => 1
  | .gps => 2
  | .unsync => 3

def u8ToQuality (v : UInt8) : ClockQuality :=
  if v = 1 then .ptp
  else if v = 2 then .gps
  else if v = 3 then .unsync
  else .ntp

lemma u8ToQuality_qualityToU8 (q : ClockQuality) : u8ToQuality (qualityToU8 q) = q := by
  cases q <;> rfl

structure PersistedDelta where
  shardIdBytes : Uuid
  tenantIdBytes : Uuid
  operation : UInt8
  hashedKey : Key32
  payload : Bytes
  hasInlineData : Bool
  hlcPhysicalMs : UInt64
  hlcLogical : UInt32
  hlcNodeId : NodeId
  wallMillis : Nat
  wallTimezone : String
  clockQuality : UInt8
deriving DecidableEq, Repr

/-- The in-memory store with the log keyspace, one record per sequence number. -/
structure PersistentShardStore where
  mem : MemShardStore := {}
  store : LogMap PersistedDelta := ∅

def persistedOf (req : AppendDeltaRequest) : PersistedDelta where
  shardIdBytes := req.shardId.uuid
  tenantIdBytes := req.tenantId.uuid
  operation := opToU8 req.operation
  hashedKey := req.hashedKey
  payload := req.payload
  hasInlineData := req.hasInlineData
  hlcPhysicalMs := req.timestamp.hlc.physicalMs
  hlcLogical := req.timestamp.hlc.logical
  hlcNodeId := req.timestamp.hlc.nodeId
  wallMillis := req.timestamp.wall.millisSinceEpoch
  wallTimezone := req.timestamp.wall.timezone
  clockQuality := qualityToU8 req.timestamp.quality

namespace PersistedDelta

def shardId (e : PersistedDelta) : ShardId := ⟨e.shardIdBytes⟩

/-- The request that `reload` replays; a record has no chunk references. -/
def request (e : PersistedDelta) : AppendDeltaRequest where
  shardId := e.shardId
  tenantId := ⟨e.tenantIdBytes⟩
  operation := u8ToOp e.operation
  timestamp := {
    hlc := ⟨e.hlcPhysicalMs, e.hlcLogical, e.hlcNodeId⟩
    wall := ⟨e.wallMillis, e.wallTimezone⟩
    quality := u8ToQuality e.clockQuality }
  hashedKey := e.hashedKey
  chunkRefs := []
  payload := e.payload
  hasInlineData := e.hasInlineData

end PersistedDelta

namespace PersistentShardStore

def createShard (p : PersistentShardStore) (shardId : ShardId) (tenantId : OrgId)
    (config : ShardConfig) : PersistentShardStore :=
  { p with mem := p.mem.createShard shardId tenantId config }

def appendDelta (p : PersistentShardStore) (req : AppendDeltaRequest) :
    PersistentShardStore × Except LogError Nat :=
  match p.mem.appendDelta req with
  | (mem, .error e) => ({ p with mem := mem }, .error e)
  | (mem, .ok seq) => (⟨mem, p.store.insert seq (persistedOf req)⟩, .ok seq)

def entries (store : LogMap PersistedDelta) : List (Nat × PersistedDelta) :=
  store.toList.filter fun entry => decide (1 ≤ entry.1)

def createAll (mem : MemShardStore) (es : List PersistedDelta) : MemShardStore :=
  es.foldl (fun mem e => mem.createShard e.shardId ⟨e.tenantIdBytes⟩ {}) mem

def appendAll (mem : MemShardStore) (reqs : List AppendDeltaRequest) : MemShardStore :=
  reqs.foldl (fun mem req => (mem.appendDelta req).1) mem

def reload (store : LogMap PersistedDelta) : MemShardStore :=
  let es := (entries store).map Prod.snd
  appendAll (createAll {} es) (es.map PersistedDelta.request)

def reopen (p : PersistentShardStore) : PersistentShardStore where
  mem := reload p.store
  store := p.store

inductive Step : PersistentShardStore → PersistentShardStore → Prop
  | create (shardId : ShardId) (tenantId : OrgId) (config : ShardConfig) :
      Step p (p.createShard shardId tenantId config)
  | append (req : AppendDeltaRequest) : Step p (p.appendDelta req).1

end PersistentShardStore

def MemShardStore.deltasOf (m : MemShardStore) (id : ShardId) : List Delta :=
  ((m.shards.lookup id).map MemShard.deltas).getD []

def Delta.facets (d : Delta) :
    Nat × OperationType × Key32 × List ChunkId × Bytes × DeltaTimestamp :=
  (d.header.sequence, d.header.operation, d.header.hashedKey, d.header.chunkRefs,
    d.payload.ciphertext, d.header.timestamp)

def Owned (key : Key32) : Prop :=
  InRange (.replicate 32 0) (.replicate 32 0xFF) key

def Formed (id : ShardId) (d : Delta) : Prop :=
  ∃ req : AppendDeltaRequest, req.shardId = id ∧ Owned req.hashedKey ∧
    d = MemShardStore.deltaOf req d.header.sequence false

structure MemShard.Plain (id : ShardId) (shard : MemShard) : Prop where
  state : shard.state = .healthy
  rangeStart : shard.rangeStart = Vector.replicate 32 0
  rangeEnd : shard.rangeEnd = Vector.replicate 32 0xFF
  whole : Whole shard.deltas shard.tip
  formed : ∀ d ∈ shard.deltas, Formed id d

structure MemShardStore.Plain (m : MemShardStore) : Prop where
  inline : m.inlineStore = none
  shards : ∀ id shard, m.shards.lookup id = some shard → shard.Plain id

def numbered (first : Nat) : List AppendDeltaRequest → List Delta
  | [] => []
  | req :: reqs => MemShardStore.deltaOf req first false :: numbered (first + 1) reqs

section
variable {m : MemShardStore} {id : ShardId} {req : AppendDeltaRequest} {d : Delta}

lemma Whole.length_eq {deltas : List Delta} (h : Whole deltas tip) : deltas.length = tip := by
  have hlength := congrArg length h
  rw [sequences, length_map, length_range'] at hlength
  exact hlength

namespace MemShardStore

lemma deltasOf_of_some (h : m.shards.lookup id = some shard) : m.deltasOf id = shard.deltas := by
  rw [deltasOf, h]
  rfl

lemma Plain.whole (h : m.Plain) (id : ShardId) :
    Whole (m.deltasOf id) (m.deltasOf id).length := by
  cases hshard : m.shards.lookup id with
  | none =>
    rw [deltasOf, hshard]
    rfl
  | some shard =>
    have hwhole := (h.shards id shard hshard).whole
    rw [deltasOf_of_some hshard, hwhole.length_eq]
    exact hwhole

lemma Plain.formed (h : m.Plain) (hd : d ∈ m.deltasOf id) : Formed id d := by
  cases hshard : m.shards.lookup id with
  | none =>
    rw [deltasOf, hshard] at hd
    exact absurd hd not_mem_nil
  | some shard =>
    rw [deltasOf_of_some hshard] at hd
    exact (h.shards id shard hshard).formed d hd

lemma Plain.insert (h : m.Plain) {m' : MemShardStore} {shard : MemShard}
    (hm : m'.shards = m.shards.insert id shard) (hinline : m'.inlineStore = none)
    (hshard : shard.Plain id) : m'.Plain := by
  refine ⟨hinline, ?_⟩
  rw [hm]
  exact Maps.forall_insert h.shards hshard

lemma Plain.createShard (h : m.Plain) (id : ShardId) (tenantId : OrgId) (config : ShardConfig) :
    (m.createShard id tenantId config).Plain ∧
      ∀ i, (m.createShard id tenantId config).deltasOf i = m.deltasOf i := by
  rw [MemShardStore.createShard]
  split
  · exact ⟨h, fun _ => rfl⟩
  · rename_i hid
    refine ⟨h.insert rfl h.inline ⟨rfl, rfl, rfl, rfl, fun _ hd => absurd hd not_mem_nil⟩, ?_⟩
    intro i
    by_cases hi : i = id
    · subst hi
      rw [deltasOf, deltasOf, lookup_insert, lookup_eq_none.2 hid]
      rfl
    · rw [deltasOf, deltasOf, lookup_insert_of_ne _ hi]

lemma Plain.appendDelta_cases (h : m.Plain) (req : AppendDeltaRequest) :
    (∃ e, m.appendDelta req = (m, .error e) ∧
        ¬(req.shardId ∈ m.shards ∧ Owned req.hashedKey)) ∨
      ∃ shard, m.shards.lookup req.shardId = some shard ∧ Owned req.hashedKey ∧
        m.appendDelta req = m.append shard req := by
  rcases m.appendDelta_cases req with
    ⟨hnot, ⟨e, heq⟩ | ⟨shard, _, hshard, hsplit, _⟩⟩ | ⟨htakes, shard, hshard, heq⟩
  · refine .inl ⟨e, heq, fun ⟨hin, hkey⟩ => hnot ?_⟩
    obtain ⟨shard, hshard⟩ := mem_iff.1 hin
    have hplain := h.shards req.shardId shard hshard
    rw [Owned, ← hplain.rangeStart, ← hplain.rangeEnd] at hkey
    exact ⟨shard, hshard, by rw [hplain.state, rejects], hkey⟩
  · rw [(h.shards req.shardId shard hshard).state] at hsplit
    cases hsplit
  · refine .inr ⟨shard, hshard, ?_, heq⟩
    obtain ⟨_, hsame, _, hin⟩ := htakes
    obtain rfl := Option.some.inj (hshard.symm.trans hsame)
    have hplain := h.shards req.shardId shard hshard
    rw [hplain.rangeStart, hplain.rangeEnd] at hin
    exact hin

lemma Plain.append (h : m.Plain) {shard : MemShard}
    (hshard : m.shards.lookup req.shardId = some shard) (hkey : Owned req.hashedKey) :
    (m.append shard req).1.Plain ∧
      (m.append shard req).2 = .ok ((m.deltasOf req.shardId).length + 1) ∧
      (∀ i, i ∈ (m.append shard req).1.shards ↔ i ∈ m.shards) ∧
      ∀ i, (m.append shard req).1.deltasOf i = m.deltasOf i ++
        if req.shardId = i then [deltaOf req ((m.deltasOf i).length + 1) false] else [] := by
  have hplain := h.shards req.shardId shard hshard
  have hlength : (m.deltasOf req.shardId).length = shard.tip := by
    rw [deltasOf_of_some hshard]
    exact hplain.whole.length_eq
  simp only [MemShardStore.append, h.inline, Option.isSome_none, Bool.and_false]
  refine ⟨h.insert rfl rfl ⟨hplain.state, hplain.rangeStart, hplain.rangeEnd, ?_, ?_⟩, ?_, ?_, ?_⟩
  · have hone : sequences [deltaOf req (shard.tip + 1) false] = range' (shard.tip + 1) 1 := rfl
    exact hplain.whole.append hone
  · exact forall_mem_append.2 ⟨hplain.formed, forall_mem_singleton.2 ⟨req, rfl, hkey, rfl⟩⟩
  · rw [hlength]
  · intro i
    rw [mem_insert]
    constructor
    · rintro (rfl | hi)
      · exact mem_of_lookup_eq_some hshard
      · exact hi
    · exact .inr
  · intro i
    by_cases hi : req.shardId = i
    · subst hi
      rw [if_pos rfl, hlength, deltasOf_of_some hshard, deltasOf, lookup_insert]
      rfl
    · rw [if_neg hi, append_nil, deltasOf, deltasOf, lookup_insert_of_ne _ (Ne.symm hi)]

end MemShardStore

variable {reqs : List AppendDeltaRequest}

namespace PersistentShardStore

lemma createAll_plain (es : List PersistedDelta) (h : m.Plain) :
    (createAll m es).Plain ∧ (∀ i, (createAll m es).deltasOf i = m.deltasOf i) ∧
      (∀ i ∈ m.shards, i ∈ (createAll m es).shards) ∧
      ∀ e ∈ es, e.shardId ∈ (createAll m es).shards := by
  induction es generalizing m with
  | nil => exact ⟨h, fun _ => rfl, fun _ hi => hi, fun _ he => absurd he not_mem_nil⟩
  | cons e es ih =>
    obtain ⟨hplain, hsame⟩ := h.createShard e.shardId ⟨e.tenantIdBytes⟩ {}
    obtain ⟨hplain', hsame', hkeep, hnew⟩ := ih hplain
    have hcreated : ∀ i, i = e.shardId ∨ i ∈ m.shards →
        i ∈ (m.createShard e.shardId ⟨e.tenantIdBytes⟩ {}).shards := by
      intro i hi
      rw [MemShardStore.createShard]
      split
      · rcases hi with rfl | hi
        · exact ‹_›
        · exact hi
      · exact mem_insert.2 hi
    refine ⟨hplain', fun i => (hsame' i).trans (hsame i), fun i hi => ?_,
      forall_mem_cons.2 ⟨?_, hnew⟩⟩
    · exact hkeep i (hcreated i (.inr hi))
    · exact hkeep _ (hcreated _ (.inl rfl))

lemma appendAll_plain (h : m.Plain)
    (hreqs : ∀ req ∈ reqs, req.shardId ∈ m.shards ∧ Owned req.hashedKey) :
    ∀ i, (appendAll m reqs).deltasOf i = m.deltasOf i ++
      numbered ((m.deltasOf i).length + 1) (reqs.filter fun req => decide (req.shardId = i)) := by
  induction reqs generalizing m with
  | nil =>
    intro i
    exact (append_nil _).symm
  | cons req reqs ih =>
    intro i
    obtain ⟨hreq, hreqs⟩ := forall_mem_cons.1 hreqs
    rcases h.appendDelta_cases req with ⟨e, _, hrefused⟩ | ⟨shard, hshard, hkey, heq⟩
    · exact absurd hreq hrefused
    obtain ⟨hplain, _, hshards, hdeltas⟩ := h.append hshard hkey
    have hrest := ih hplain (fun r hr => ⟨(hshards _).2 (hreqs r hr).1, (hreqs r hr).2⟩) i
    rw [appendAll, foldl_cons, heq]
    refine hrest.trans ?_
    rw [hdeltas i, filter_cons]
    by_cases hi : req.shardId = i
    · rw [if_pos hi, if_pos (decide_eq_true hi), append_assoc, length_append]
      rfl
    · rw [if_neg hi, if_neg (by simpa using hi), append_nil]

end PersistentShardStore

def Delta.persisted (d : Delta) : PersistedDelta := persistedOf (d.requestFor d.header.shardId)

structure PersistentShardStore.Mirrors (p : PersistentShardStore) : Prop where
  plain : p.mem.Plain
  records : ∀ k e, p.store[k]? = some e →
    ∃ d ∈ p.mem.deltasOf e.shardId, d.header.sequence = k ∧ d.persisted = e
  present : ∀ id, ∀ d ∈ p.mem.deltasOf id, d.header.sequence ∈ p.store

lemma request_persistedOf (h : req.chunkRefs = []) : (persistedOf req).request = req := by
  obtain ⟨shardId, tenantId, operation, timestamp, hashedKey, chunkRefs, payload, inline⟩ := req
  subst h
  simp only [PersistedDelta.request, persistedOf, PersistedDelta.shardId, u8ToOp_opToU8,
    u8ToQuality_qualityToU8]

lemma Formed.owned (h : Formed id d) : Owned d.persisted.hashedKey := by
  obtain ⟨req, _, hkey, hd⟩ := h
  rw [hd]
  exact hkey

lemma Formed.replayed (h : Formed id d) (hrefs : d.header.chunkRefs = []) :
    MemShardStore.deltaOf d.persisted.request d.header.sequence false = d := by
  obtain ⟨req, _, _, hd⟩ := h
  rw [hd] at hrefs ⊢
  have hnone : req.chunkRefs = [] := hrefs
  have hrequest : (deltaOf req d.header.sequence false).persisted.request = req :=
    request_persistedOf hnone
  rw [hrequest]
  rfl

lemma length_numbered (first : Nat) : (numbered first reqs).length = reqs.length := by
  induction reqs generalizing first with
  | nil => rfl
  | cons req reqs ih => rw [numbered, length_cons, length_cons, ih]

lemma chunkRefs_of_mem_numbered {reqs : List AppendDeltaRequest}
    (hreqs : ∀ req ∈ reqs, req.chunkRefs = []) (hd : d ∈ numbered first reqs) :
    d.header.chunkRefs = [] := by
  induction reqs generalizing first with
  | nil => exact absurd hd not_mem_nil
  | cons req reqs ih =>
    obtain ⟨hreq, hreqs⟩ := forall_mem_cons.1 hreqs
    rcases mem_cons.1 hd with rfl | hd
    · exact hreq
    · exact ih hreqs hd

lemma numbered_replayed {ds : List Delta} (hds : sequences ds = List.range' first ds.length)
    (hformed : ∀ d ∈ ds, Formed id d) (hrefs : ∀ d ∈ ds, d.header.chunkRefs = []) :
    numbered first (ds.map fun d => d.persisted.request) = ds := by
  induction ds generalizing first with
  | nil => rfl
  | cons d ds ih =>
    obtain ⟨hd, hformed⟩ := forall_mem_cons.1 hformed
    obtain ⟨hr, hrefs⟩ := forall_mem_cons.1 hrefs
    rw [sequences, map_cons, length_cons, range'_succ] at hds
    obtain ⟨hfirst, hrest⟩ := cons.inj hds
    rw [map_cons, numbered, ih hrest hformed hrefs, ← hfirst, hd.replayed hr]

namespace PersistentShardStore
variable {p p' : PersistentShardStore}

lemma Mirrors.step (h : p.Mirrors) (hstep : Step p p') : p'.Mirrors := by
  cases hstep with
  | create shardId tenantId config =>
    obtain ⟨hplain, hsame⟩ := h.plain.createShard shardId tenantId config
    refine ⟨hplain, fun k e hk => ?_, fun i d hd => ?_⟩
    · rw [createShard, hsame]
      exact h.records k e hk
    · rw [createShard, hsame] at hd
      exact h.present i d hd
  | append req =>
    rcases h.plain.appendDelta_cases req with ⟨e, heq, _⟩ | ⟨shard, hshard, hkey, heq⟩
    · rw [appendDelta, heq]
      exact h
    obtain ⟨hplain, hok, _, hdeltas⟩ := h.plain.append hshard hkey
    have hstore : p.appendDelta req = (⟨(p.mem.append shard req).1, p.store.insert
        ((p.mem.deltasOf req.shardId).length + 1) (persistedOf req)⟩,
        .ok ((p.mem.deltasOf req.shardId).length + 1)) := by
      rw [appendDelta, heq]
      rcases hresult : p.mem.append shard req with ⟨mem, result⟩
      rw [hresult] at hok
      subst hok
      rfl
    rw [hstore]
    refine ⟨hplain, fun k e hk => ?_, fun i d hd => ?_⟩
    · rw [LogMap.getElem?_insert] at hk
      rw [hdeltas]
      split at hk
      · subst k
        cases hk
        refine ⟨deltaOf req ((p.mem.deltasOf req.shardId).length + 1) false,
          mem_append_right _ ?_, rfl, rfl⟩
        change _ ∈ if req.shardId = req.shardId then _ else _
        rw [if_pos rfl]
        exact mem_singleton.2 rfl
      · obtain ⟨d, hd, hseq, hpersisted⟩ := h.records k e hk
        exact ⟨d, mem_append_left _ hd, hseq, hpersisted⟩
    · rw [hdeltas] at hd
      rw [Std.ExtTreeMap.mem_insert]
      rcases mem_append.1 hd with hd | hd
      · exact .inr (h.present i d hd)
      · split at hd
        · subst i
          obtain rfl := mem_singleton.1 hd
          exact .inl (Std.compare_self)
        · exact absurd hd not_mem_nil

lemma Mirrors.run (h : p.Mirrors) (hrun : ReflTransGen Step p p') : p'.Mirrors := by
  induction hrun with
  | refl => exact h
  | tail _ hstep ih => exact ih.step hstep

lemma mirrors_new : Mirrors {} where
  plain := ⟨rfl, fun id shard hshard => by rw [lookup_empty] at hshard; exact nomatch hshard⟩
  records := fun k e hk => by
    change (∅ : LogMap PersistedDelta)[k]? = some e at hk
    rw [Std.ExtTreeMap.getElem?_empty] at hk
    exact nomatch hk
  present := fun _ _ hd => absurd hd not_mem_nil

lemma entries_sorted (store : LogMap PersistedDelta) :
    (entries store).Pairwise fun x y => x.1 < y.1 := by
  refine List.Pairwise.filter _ (store.ordered_keys_toList.imp fun h => ?_)
  exact Nat.compare_eq_lt.1 h

lemma mem_entries (store : LogMap PersistedDelta) :
    x ∈ entries store ↔ store[x.1]? = some x.2 ∧ 1 ≤ x.1 := by
  rw [entries, mem_filter, decide_eq_true_eq]
  exact and_congr_left fun _ => Std.ExtTreeMap.mem_toList_iff_getElem?_eq_some

def entriesOf (p : PersistentShardStore) (id : ShardId) : List (Nat × PersistedDelta) :=
  (entries p.store).filter fun entry => decide (entry.2.shardId = id)

lemma Mirrors.deltasOf_reopen (h : p.Mirrors) :
    p.reopen.mem.deltasOf id =
      numbered 1 ((p.entriesOf id).map fun entry => entry.2.request) := by
  have hempty := mirrors_new.plain
  obtain ⟨hplain, hsame, _, hcreated⟩ := createAll_plain ((entries p.store).map snd) hempty
  have hreqs : ∀ req ∈ ((entries p.store).map snd).map PersistedDelta.request,
      req.shardId ∈ (createAll {} ((entries p.store).map snd)).shards ∧
        Owned req.hashedKey := by
    intro req hreq
    obtain ⟨e, he, rfl⟩ := mem_map.1 hreq
    obtain ⟨entry, hentry, rfl⟩ := mem_map.1 he
    obtain ⟨d, hd, _, hpersisted⟩ := h.records _ _ ((mem_entries p.store).1 hentry).1
    refine ⟨hcreated _ he, ?_⟩
    rw [← hpersisted]
    exact (h.plain.formed hd).owned
  have hall := appendAll_plain hplain hreqs id
  rw [hsame] at hall
  refine hall.trans ?_
  rw [List.filter_map, List.filter_map, List.map_map]
  rfl

lemma Mirrors.mem_entriesOf (h : p.Mirrors) (hx : x ∈ p.entriesOf id) :
    ∃ d ∈ p.mem.deltasOf id, (d.header.sequence, d.persisted) = x := by
  obtain ⟨hentry, hid⟩ := mem_filter.1 hx
  obtain ⟨d, hd, hseq, hpersisted⟩ := h.records _ _ ((mem_entries p.store).1 hentry).1
  rw [of_decide_eq_true hid] at hd
  exact ⟨d, hd, Prod.ext hseq hpersisted⟩

lemma Mirrors.entriesOf_eq (h : p.Mirrors)
    (hone : ∀ i i', p.mem.deltasOf i ≠ [] → p.mem.deltasOf i' ≠ [] → i = i') :
    p.entriesOf id = (p.mem.deltasOf id).map fun d => (d.header.sequence, d.persisted) := by
  have hwhole : sequences (p.mem.deltasOf id) = _ := h.plain.whole id
  have hsorted : ((p.mem.deltasOf id).map fun d => (d.header.sequence, d.persisted)).Pairwise
      fun x y => x.1 < y.1 := by
    have hlt : (sequences (p.mem.deltasOf id)).Pairwise (· < ·) := by
      rw [hwhole]
      exact pairwise_lt_range'
    rw [sequences, pairwise_map] at hlt
    exact pairwise_map.2 hlt
  refine ((entries_sorted p.store).filter _).eq_of_mem_iff hsorted fun x => ?_
  constructor
  · exact fun hx => mem_map.2 (h.mem_entriesOf hx)
  · intro hx
    obtain ⟨d, hd, rfl⟩ := mem_map.1 hx
    have hformed := h.plain.formed hd
    have hpos : 1 ≤ d.header.sequence := by
      have hmem : d.header.sequence ∈ sequences (p.mem.deltasOf id) := mem_map.2 ⟨d, hd, rfl⟩
      rw [hwhole] at hmem
      exact (mem_range'_1.1 hmem).1
    obtain ⟨e, he⟩ : ∃ e, p.store[d.header.sequence]? = some e :=
      ⟨_, Std.ExtTreeMap.getElem?_eq_some_getElem (h.present id d hd)⟩
    obtain ⟨d', hd', hseq, hpersisted⟩ := h.records _ e he
    have hid : e.shardId = id :=
      hone _ _ (ne_nil_of_mem hd') (ne_nil_of_mem hd)
    rw [hid] at hd'
    -- Within one shard a number names one delta.
    have hsame : d' = d := by
      have hnodup : (sequences (p.mem.deltasOf id)).Nodup := by
        rw [hwhole]
        exact nodup_range'
      exact inj_on_of_nodup_map hnodup hd' hd hseq
    subst hsame
    rw [hpersisted]
    exact mem_filter.2 ⟨(mem_entries p.store).2 ⟨he, hpos⟩, decide_eq_true hid⟩

lemma Mirrors.length_entriesOf_lt (h : p.Mirrors) (hid : p.mem.deltasOf id ≠ [])
    (hfirst : ∀ e, p.store[1]? = some e → e.shardId ≠ id) :
    (p.entriesOf id).length < (p.mem.deltasOf id).length := by
  have hwhole : sequences (p.mem.deltasOf id) = _ := h.plain.whole id
  have hpos : 0 < (p.mem.deltasOf id).length := length_pos_iff.2 hid
  have hnodup : ((p.entriesOf id).map fst).Nodup := by
    have hsorted := (entries_sorted p.store).filter fun entry => decide (entry.2.shardId = id)
    exact pairwise_map.2 (hsorted.imp fun h => Nat.ne_of_lt h)
  have hsub : (p.entriesOf id).map fst ⊆ range' 2 ((p.mem.deltasOf id).length - 1) := by
    intro k hk
    obtain ⟨x, hx, rfl⟩ := mem_map.1 hk
    obtain ⟨d, hd, heq⟩ := h.mem_entriesOf hx
    have hmem : d.header.sequence ∈ sequences (p.mem.deltasOf id) := mem_map.2 ⟨d, hd, rfl⟩
    rw [hwhole, mem_range'_1] at hmem
    have hkey : d.header.sequence = x.1 := congrArg fst heq
    have hne : x.1 ≠ 1 := by
      intro hx1
      obtain ⟨hentry, hshard⟩ := mem_filter.1 hx
      have hstored := ((mem_entries p.store).1 hentry).1
      rw [hx1] at hstored
      exact hfirst _ hstored (of_decide_eq_true hshard)
    rw [mem_range'_1]
    omega
  have hle := (hnodup.subperm hsub).length_le
  rw [length_map, length_range'] at hle
  omega

/-- Deltas survive a reopen exactly for one shard without chunk references. -/
theorem reopen_same_deltas_iff (hrun : ReflTransGen Step {} p) :
    (∀ id, (p.reopen.mem.deltasOf id).map Delta.facets = (p.mem.deltasOf id).map Delta.facets) ↔
      (∀ id id', p.mem.deltasOf id ≠ [] → p.mem.deltasOf id' ≠ [] → id = id') ∧
        ∀ id, ∀ d ∈ p.mem.deltasOf id, d.header.chunkRefs = [] := by
  have h := mirrors_new.run hrun
  constructor
  · intro hsame
    refine ⟨fun id id' hid hid' => by_contra fun hne => ?_, fun id d hd => ?_⟩
    · -- The first record belongs to one of the two.
      have hlength : ∀ i, (p.entriesOf i).length = (p.mem.deltasOf i).length := by
        intro i
        have := congrArg length (hsame i)
        rw [h.deltasOf_reopen, length_map, length_numbered, length_map, length_map] at this
        exact this
      by_cases hfirst : ∃ e, p.store[1]? = some e ∧ e.shardId = id
      · obtain ⟨e, he, hshard⟩ := hfirst
        refine absurd (hlength id') (h.length_entriesOf_lt hid' fun e' he' => ?_).ne
        rw [he] at he'
        cases he'
        rw [hshard]
        exact hne
      · refine absurd (hlength id) (h.length_entriesOf_lt hid fun e he hshard => ?_).ne
        exact hfirst ⟨e, he, hshard⟩
    · have hmem : d.facets ∈ (p.reopen.mem.deltasOf id).map Delta.facets := by
        rw [hsame]
        exact mem_map.2 ⟨d, hd, rfl⟩
      obtain ⟨d', hd', hfacets⟩ := mem_map.1 hmem
      rw [h.deltasOf_reopen] at hd'
      have hrefs : d'.header.chunkRefs = [] := by
        refine chunkRefs_of_mem_numbered (fun req hreq => ?_) hd'
        obtain ⟨x, _, rfl⟩ := mem_map.1 hreq
        rfl
      have heq : d'.header.chunkRefs = d.header.chunkRefs := congrArg (fun f => f.2.2.2.1) hfacets
      rw [← heq, hrefs]
  · rintro ⟨hone, hrefs⟩ id
    have hreplay : p.reopen.mem.deltasOf id = p.mem.deltasOf id := by
      rw [h.deltasOf_reopen, h.entriesOf_eq hone, List.map_map]
      exact numbered_replayed (h.plain.whole id) (fun d hd => h.plain.formed hd) (hrefs id)
    rw [hreplay]

def oneShard : PersistentShardStore :=
  let p := createShard {} ⟨.replicate 16 0⟩ ⟨.replicate 16 0⟩ {}
  (p.appendDelta (plainIntent 5).append.delta).1

def twoShards : PersistentShardStore :=
  let p := oneShard.createShard ⟨.replicate 16 1⟩ ⟨.replicate 16 0⟩ {}
  (p.appendDelta { (plainIntent 6).append.delta with shardId := ⟨.replicate 16 1⟩ }).1

def oneChunk : PersistentShardStore :=
  let p := createShard {} ⟨.replicate 16 0⟩ ⟨.replicate 16 0⟩ {}
  (p.appendDelta { (plainIntent 5).append.delta with chunkRefs := [⟨.replicate 32 7⟩] }).1

lemma oneShard_run : ReflTransGen Step {} oneShard :=
  .tail (.single (.create _ _ _)) (.append (plainIntent 5).append.delta)

lemma mem_oneShard (hd : d ∈ oneShard.mem.deltasOf i) :
    i = ⟨.replicate 16 0⟩ ∧ d.header.chunkRefs = [] := by
  have hi : i = ⟨.replicate 16 0⟩ := by
    by_contra hne
    have hkeys : oneShard.mem.shards.keys = {⟨.replicate 16 0⟩} := by decide
    have hnone : oneShard.mem.shards.lookup i = none := by
      rw [lookup_eq_none, ← mem_keys, hkeys, Finset.mem_singleton]
      exact hne
    rw [deltasOf, hnone] at hd
    exact absurd hd not_mem_nil
  subst hi
  exact ⟨rfl, congrArg (fun d => d.header.chunkRefs) (mem_singleton.1 hd)⟩

/-- One shard without chunk references comes back. -/
theorem reopen_same_deltas_oneShard :
    (oneShard.reopen.mem.deltasOf ⟨.replicate 16 0⟩).map Delta.facets =
        (oneShard.mem.deltasOf ⟨.replicate 16 0⟩).map Delta.facets ∧
      (oneShard.mem.deltasOf ⟨.replicate 16 0⟩).length = 1 := by
  refine ⟨(reopen_same_deltas_iff oneShard_run).2 ⟨fun i i' hi hi' => ?_, fun i d hd => ?_⟩ _, rfl⟩
  · obtain ⟨d, hd⟩ := exists_mem_of_ne_nil _ hi
    obtain ⟨d', hd'⟩ := exists_mem_of_ne_nil _ hi'
    rw [(mem_oneShard hd).1, (mem_oneShard hd').1]
  · exact (mem_oneShard hd).2

/-- The second shard's record takes the place of the first's. -/
theorem reopen_loses_deltas :
    (ReflTransGen Step {} twoShards ∧
      (twoShards.mem.deltasOf ⟨.replicate 16 0⟩).length = 1 ∧
      twoShards.reopen.mem.deltasOf ⟨.replicate 16 0⟩ = []) ∧
    ReflTransGen Step {} oneChunk ∧
      (oneChunk.mem.deltasOf ⟨.replicate 16 0⟩).map (fun d => d.header.chunkRefs) =
        [[⟨.replicate 32 7⟩]] ∧
      (oneChunk.reopen.mem.deltasOf ⟨.replicate 16 0⟩).map (fun d => d.header.chunkRefs) =
        [[]] := by
  refine ⟨⟨?_, rfl, ?_⟩, ?_, rfl, ?_⟩
  · exact .tail (.tail oneShard_run (.create _ _ _)) (.append _)
  · rfl
  · exact .tail (.single (.create _ _ _)) (.append _)
  · rfl

end PersistentShardStore

end

end Kiseki.Log
