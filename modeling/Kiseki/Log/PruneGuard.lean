import Kiseki.Log.Shape

namespace Kiseki.Log
open Intent Relation List Nat

def Whole (deltas : List Delta) (tip : Nat) : Prop :=
  sequences deltas = List.range' 1 tip

lemma Whole.append {deltas ds : List Delta} {tip : Nat} (h : Whole deltas tip)
    (hds : sequences ds = List.range' (tip + 1) ds.length) :
    Whole (deltas ++ ds) (tip + ds.length) := by
  rw [Whole, sequences, map_append, ← sequences, ← sequences, h, hds, add_comm tip 1,
    range'_append_1]

lemma Whole.filter {deltas : List Delta} {tip boundary : Nat} (h : Whole deltas tip)
    (hle : boundary ≤ 1) :
    Whole (deltas.filter fun d => decide (boundary ≤ d.header.sequence)) tip := by
  have hall : ∀ d ∈ deltas, decide (boundary ≤ d.header.sequence) = true := by
    intro d hd
    have hmem : d.header.sequence ∈ sequences deltas := mem_map_of_mem hd
    rw [h, mem_range'_1] at hmem
    exact decide_eq_true (hle.trans hmem.1)
  rw [filter_eq_self.2 hall]
  exact h

/-- Registrations and advances both propose `AdvanceWatermark`. -/
inductive PruneStep (ok : ShardSmInner → String → Nat → Prop) :
    ShardSmInner → ShardSmInner → Prop
  | watermark (consumer : String) (position logIndex nowMs : Nat) (hok : ok s consumer position) :
      PruneStep ok s (s.apply ⟨.advanceWatermark consumer position, logIndex, nowMs⟩)
  | entry (e : Applied)
      (he : ∀ consumer position, e.cmd ≠ .advanceWatermark consumer position) :
      PruneStep ok s (s.apply e)
  | truncate : PruneStep ok s s.truncateLog.1

inductive MemPruneStep (ok : MemShard → String → Nat → Prop) :
    MemShardStore → MemShardStore → Prop
  | create (shardId : ShardId) (tenantId : OrgId) (config : ShardConfig) :
      MemPruneStep ok m (m.createShard shardId tenantId config)
  | append (req : AppendDeltaRequest) : MemPruneStep ok m (m.appendDelta req).1
  | register (shardId : ShardId) (consumer : String) (position : Nat)
      (hok : ∀ shard, m.shards.lookup shardId = some shard → ok shard consumer position) :
      MemPruneStep ok m (m.registerConsumer shardId consumer position).1
  | advance (shardId : ShardId) (consumer : String) (position : Nat)
      (hok : ∀ shard, m.shards.lookup shardId = some shard → ok shard consumer position) :
      MemPruneStep ok m (m.advanceWatermark shardId consumer position).1
  | truncate (shardId : ShardId) : MemPruneStep ok m (m.truncateLog shardId).1

/-- A new consumer does not start in a pruned log's beginning. -/
def ShardSmInner.StartsInLog (s : ShardSmInner) (consumer : String) (position : Nat) : Prop :=
  consumer ∉ s.watermarks → position ≤ 1 → s.gcBoundary ≤ 1

def MemShard.StartsInLog (shard : MemShard) (consumer : String) (position : Nat) : Prop :=
  consumer ∉ shard.watermarks → position ≤ 1 → shard.gcFloor ≤ 1

structure ShardSmInner.Guarded (s : ShardSmInner) : Prop where
  sequenced : s.Sequenced
  whole : s.gcBoundary ≤ 1 → Whole s.deltas s.tip

/-- A truncation at the boundary would not lower the floor to one. -/
structure MemShard.Guarded (shard : MemShard) : Prop where
  floor : shard.watermarks.gcBoundary.getD 0 ≤ 1 → shard.gcFloor ≤ 1
  whole : shard.gcFloor ≤ 1 → Whole shard.deltas shard.tip

section
variable {s s' : ShardSmInner} {m m' : MemShardStore} {shard : MemShard} {shardId : ShardId}
  {consumer : String} {position : Nat}

lemma ShardSmInner.Guarded.watermark (h : s.Guarded) (hok : s.StartsInLog consumer position)
    (logIndex nowMs : Nat) :
    (s.apply ⟨.advanceWatermark consumer position, logIndex, nowMs⟩).Guarded := by
  obtain ⟨boundary, hboundary, hdeltas, _, htip, _, hmarks, _⟩ := apply_advanceWatermark
    (e := ⟨.advanceWatermark consumer position, logIndex, nowMs⟩) h.sequenced.sorted rfl
  refine ⟨h.sequenced.apply _, fun hle => ?_⟩
  have hbefore : s.gcBoundary ≤ 1 := by
    rw [gcBoundary, hmarks] at hle
    exact ConsumerWatermarks.of_gcBoundary_advance_le (fun hold => hold) hok hle
  rw [gcBoundary, hboundary] at hle
  rw [hdeltas, htip]
  exact (h.whole hbefore).filter hle

lemma ShardSmInner.Guarded.step (h : s.Guarded) (hstep : PruneStep StartsInLog s s') :
    s'.Guarded := by
  cases hstep with
  | watermark consumer position logIndex nowMs hok => exact h.watermark hok logIndex nowMs
  | entry e he =>
    obtain ⟨ds, hext⟩ := Extends.apply s e he
    refine ⟨h.sequenced.apply e, fun hle => ?_⟩
    rw [gcBoundary, hext.watermarks] at hle
    rw [hext.deltas, hext.tip]
    exact (h.whole hle).append hext.numbered
  | truncate =>
    refine ⟨⟨h.sequenced.sorted.filter _, fun d hd => ?_⟩, fun hle => (h.whole hle).filter hle⟩
    exact h.sequenced.bounds d (mem_of_mem_filter hd)

lemma ShardSmInner.guarded_new (tenantId : OrgId)
    (windowEntries windowMs : Nat) (inlineStore : Option InlineMap) :
    (new shardId tenantId windowEntries windowMs inlineStore).Guarded :=
  ⟨⟨List.Pairwise.nil, fun _ hd => absurd hd not_mem_nil⟩, fun _ => rfl⟩

def MemShardStore.Guarded (m : MemShardStore) : Prop :=
  ∀ shardId shard, m.shards.lookup shardId = some shard → shard.Guarded

lemma MemShardStore.Guarded.insert (h : m.Guarded)
    (hm : m'.shards = m.shards.insert shardId shard) (hshard : shard.Guarded) : m'.Guarded := by
  rw [MemShardStore.Guarded, hm]
  exact Maps.forall_insert h hshard

def MemShardStore.Takes (m : MemShardStore) (id : ShardId) (key : Key32) : Prop :=
  ∃ shard, m.shards.lookup id = some shard ∧ rejects id shard.state = none ∧
    InRange shard.rangeStart shard.rangeEnd key

lemma MemShardStore.appendDelta_cases (m : MemShardStore) (req : AppendDeltaRequest) :
    ¬m.Takes req.shardId req.hashedKey ∧ ((∃ e, m.appendDelta req = (m, .error e)) ∨
        ∃ shard buffered, m.shards.lookup req.shardId = some shard ∧ shard.state = .splitting ∧
          m.appendDelta req =
            ({ m with splitBuffer := m.splitBuffer.insert req.shardId buffered }, .ok u64Max)) ∨
      m.Takes req.shardId req.hashedKey ∧
        ∃ shard, m.shards.lookup req.shardId = some shard ∧
          m.appendDelta req = m.append shard req := by
  rw [appendDelta, Takes]
  cases hshard : m.shards.lookup req.shardId with
  | none => exact .inl ⟨fun ⟨_, h, _⟩ => (nomatch h), .inl ⟨_, rfl⟩⟩
  | some shard =>
    simp only [Option.some.injEq, exists_eq_left']
    split
    · next hrejects =>
      exact .inl ⟨fun h => (nomatch hrejects.symm.trans h.1), .inl ⟨_, rfl⟩⟩
    · next hopen =>
      split
      · next hin => exact .inr ⟨⟨hopen, hin⟩, rfl⟩
      · next hout =>
        refine .inl ⟨fun h => hout h.2, ?_⟩
        split
        · next hsplit => exact .inr ⟨shard, _, rfl, hsplit.1, rfl⟩
        · exact .inl ⟨_, rfl⟩

lemma MemShardStore.Guarded.updateWatermarks (h : m.Guarded)
    {f : ConsumerWatermarks → ConsumerWatermarks}
    (hf : ∀ shard, m.shards.lookup shardId = some shard →
      (f shard.watermarks).gcBoundary.getD 0 ≤ 1 → shard.gcFloor ≤ 1) :
    (m.updateWatermarks shardId f).1.Guarded := by
  rw [MemShardStore.updateWatermarks]
  split
  · exact h
  · rename_i shard hshard
    have hold := h shardId shard hshard
    exact h.insert rfl ⟨hf shard hshard, hold.whole⟩

lemma MemShardStore.Guarded.step (h : m.Guarded)
    (hstep : MemPruneStep MemShard.StartsInLog m m') : m'.Guarded := by
  cases hstep with
  | create shardId tenantId config =>
    rw [createShard]
    split
    · exact h
    · exact h.insert rfl ⟨fun _ => zero_le 1, fun _ => rfl⟩
  | append req =>
    rcases m.appendDelta_cases req with
      ⟨_, ⟨_, heq⟩ | ⟨_, _, _, _, heq⟩⟩ | ⟨_, shard, hshard, heq⟩
    · rw [heq]
      exact h
    · rw [heq]
      exact h
    · rw [heq]
      have hold := h req.shardId shard hshard
      refine h.insert rfl ⟨hold.floor, fun hle => ?_⟩
      exact (hold.whole hle).append (show sequences [deltaOf req (shard.tip + 1) _] = _ from rfl)
  | register shardId consumer position hok =>
    refine h.updateWatermarks fun shard hshard hle => ?_
    have hold := h shardId shard hshard
    by_cases hmem : consumer ∈ shard.watermarks
    · rw [ConsumerWatermarks.register_of_mem hmem] at hle
      exact hold.floor hle
    · rw [ConsumerWatermarks.register_of_not_mem hmem] at hle
      exact ConsumerWatermarks.of_gcBoundary_advance_le hold.floor (hok shard hshard) hle
  | advance shardId consumer position hok =>
    rw [advanceWatermark]
    split
    · exact h
    · refine h.updateWatermarks fun shard hshard hle => ?_
      exact ConsumerWatermarks.of_gcBoundary_advance_le (h shardId shard hshard).floor
        (hok shard hshard) hle
  | truncate shardId =>
    rw [truncateLog]
    split
    · exact h
    · rename_i shard hshard
      have hold := h shardId shard hshard
      refine h.insert rfl ⟨fun hle => hle, fun hle => ?_⟩
      exact (hold.whole (hold.floor hle)).filter hle

end

/-- If consumers start in the log, a boundary of one means no loss. -/
theorem prune_guard_sound (shardId : ShardId) (tenantId : OrgId) (windowEntries windowMs : Nat)
    (inlineStore : Option InlineMap) (s : ShardSmInner) (m : MemShardStore)
    (hs : ReflTransGen (PruneStep ShardSmInner.StartsInLog)
      (.new shardId tenantId windowEntries windowMs inlineStore) s)
    (hm : ReflTransGen (MemPruneStep MemShard.StartsInLog) {} m) :
    (s.gcBoundary ≤ 1 → Whole s.deltas s.tip) ∧
      ∀ id boundary, m.gcBoundary id = .ok boundary → boundary ≤ 1 →
        ∃ shard, m.shards.lookup id = some shard ∧ Whole shard.deltas shard.tip := by
  have hraft : s.Guarded := by
    induction hs with
    | refl => exact ShardSmInner.guarded_new tenantId windowEntries windowMs inlineStore
    | tail _ hstep ih => exact ih.step hstep
  have hmem : m.Guarded := by
    induction hm with
    | refl => exact fun _ _ hnone => nomatch hnone
    | tail _ hstep ih => exact ih.step hstep
  refine ⟨hraft.whole, fun id boundary hboundary hle => ?_⟩
  rw [MemShardStore.gcBoundary] at hboundary
  split at hboundary
  · cases hboundary
  · rename_i shard hshard
    cases hboundary
    exact ⟨shard, hshard, (hmem id shard hshard).whole hle⟩

def twoDeltas : ShardSmInner :=
  (plainShard 2 60000).run [incorporateAt 5 1 0, incorporateAt 6 2 0]

def memTwoDeltas : MemShardStore :=
  let m := MemShardStore.createShard {} ⟨.replicate 16 0⟩ ⟨.replicate 16 0⟩ {}
  ((m.appendDelta (plainIntent 5).append.delta).1.appendDelta (plainIntent 6).append.delta).1

lemma twoDeltas_run (ok : ShardSmInner → String → Nat → Prop) :
    ReflTransGen (PruneStep ok) (plainShard 2 60000) twoDeltas :=
  .tail (.single (.entry (incorporateAt 5 1 0) nofun)) (.entry (incorporateAt 6 2 0) nofun)

lemma memTwoDeltas_run (ok : MemShard → String → Nat → Prop) :
    ReflTransGen (MemPruneStep ok) {} memTwoDeltas :=
  .tail (.tail (.single (.create _ _ _)) (.append (plainIntent 5).append.delta))
    (.append (plainIntent 6).append.delta)

/-- A first consumer at the beginning of the log prunes nothing. -/
theorem prune_guard_sound_at_start :
    Whole (twoDeltas.apply ⟨.advanceWatermark "view" 1, 3, 0⟩).deltas 2 ∧
      ∃ shard, (memTwoDeltas.registerConsumer ⟨.replicate 16 0⟩ "view" 1).1.shards.lookup
        ⟨.replicate 16 0⟩ = some shard ∧ Whole shard.deltas shard.tip := by
  have hboth := prune_guard_sound _ _ 2 60000 none _ _
    (.tail (twoDeltas_run _) (.watermark "view" 1 3 0 fun _ _ => zero_le 1))
    (.tail (memTwoDeltas_run _) (.register ⟨.replicate 16 0⟩ "view" 1 ?_))
  · exact ⟨hboth.1 (by decide), hboth.2 ⟨.replicate 16 0⟩ 0 rfl (zero_le 1)⟩
  · intro shard hshard _ _
    cases hshard
    exact zero_le 1

def hiddenPrune : ShardSmInner :=
  twoDeltas.run [⟨.advanceWatermark "view" 3, 3, 0⟩, ⟨.advanceWatermark "audit" 1, 4, 0⟩]

def memHiddenPrune : MemShardStore :=
  let id : ShardId := ⟨.replicate 16 0⟩
  let m := ((memTwoDeltas.registerConsumer id "view" 3).1.truncateLog id).1
  ((m.registerConsumer id "audit" 1).1.truncateLog id).1

/-- The late consumer takes the boundary back to one, and both deltas are gone. -/
theorem late_consumer_hides_prune :
    (ReflTransGen (PruneStep fun _ _ _ => True) (plainShard 2 60000) hiddenPrune ∧
      hiddenPrune.gcBoundary = 1 ∧ hiddenPrune.tip = 2 ∧ hiddenPrune.deltas = []) ∧
    ReflTransGen (MemPruneStep fun _ _ _ => True) {} memHiddenPrune ∧
      memHiddenPrune.gcBoundary ⟨.replicate 16 0⟩ = .ok 1 ∧
      ∃ shard, memHiddenPrune.shards.lookup ⟨.replicate 16 0⟩ = some shard ∧
        shard.tip = 2 ∧ shard.deltas = [] := by
  refine ⟨⟨?_, by decide, by decide, by decide⟩, ?_, rfl, _, rfl, rfl, rfl⟩
  · exact .tail (.tail (twoDeltas_run _) (.watermark "view" 3 3 0 trivial))
      (.watermark "audit" 1 4 0 trivial)
  · exact .tail (.tail (.tail (.tail (memTwoDeltas_run _)
      (.register _ "view" 3 fun _ _ => trivial)) (.truncate _))
      (.register _ "audit" 1 fun _ _ => trivial)) (.truncate _)

end Kiseki.Log
