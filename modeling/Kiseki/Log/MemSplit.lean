import Kiseki.Log.Persistent
import Kiseki.Log.Split

namespace Kiseki.Log
open Intent List Relation

def MemShard.stays (shard : MemShard) (d : Delta) : Bool :=
  decide (d.header.hashedKey.toList < (midpoint shard.rangeStart shard.rangeEnd).toList)

def MemShard.moved (shard : MemShard) : List Delta := shard.deltas.filter fun d => !shard.stays d

def MemShard.kept (shard : MemShard) : List Delta := shard.deltas.filter shard.stays

def byteSizeOf (deltas : List Delta) : Nat := (deltas.map fun d => d.header.payloadSize + 128).sum

structure MemShard.Sequenced (shard : MemShard) : Prop where
  sorted : shard.deltas.Pairwise fun d d' => d.header.sequence < d'.header.sequence
  bounded : ∀ d ∈ shard.deltas, d.header.sequence ≤ shard.tip

def MemShard.MovesFirst (shard : MemShard) : Prop :=
  ∀ d ∈ shard.moved, d.header.sequence ≤ shard.moved.length

namespace MemShardStore

/-- A moved delta keeps its number; the new tip counts the moved ones. -/
def splitShard (m : MemShardStore) (shardId newShardId : ShardId) :
    MemShardStore × Except LogError ShardId :=
  match m.shards.lookup shardId with
  | none => (m, .error (.shardNotFound shardId))
  | some shard =>
    let mid := midpoint shard.rangeStart shard.rangeEnd
    let source := { shard with
      rangeEnd := mid
      deltas := shard.kept
      deltaCount := shard.kept.length
      byteSize := byteSizeOf shard.kept }
    let new : MemShard :=
      { shardId := newShardId
        tenantId := shard.tenantId
        tip := shard.moved.length
        deltaCount := shard.moved.length
        byteSize := byteSizeOf shard.moved
        config := shard.config
        rangeStart := mid
        rangeEnd := shard.rangeEnd
        deltas := shard.moved }
    ({ m with shards := (m.shards.insert shardId source).insert newShardId new }, .ok newShardId)

def readDeltas (m : MemShardStore) (shardId : ShardId) (first last : Nat) :
    Except LogError (List Delta) :=
  match m.shards.lookup shardId with
  | none => .error (.shardNotFound shardId)
  | some shard =>
    if first > last then .error (.invalidRange shardId)
    else .ok (shard.deltas.filter fun d =>
      decide (first ≤ d.header.sequence) && decide (d.header.sequence ≤ last))

inductive SplitStep (ok : MemShard → Prop) : MemShardStore → MemShardStore → Prop
  | create (shardId : ShardId) (tenantId : OrgId) (config : ShardConfig) :
      SplitStep ok m (m.createShard shardId tenantId config)
  | append (req : AppendDeltaRequest) : SplitStep ok m (m.appendDelta req).1
  | split (shardId newShardId : ShardId)
      (hok : ∀ shard, m.shards.lookup shardId = some shard → ok shard) :
      SplitStep ok m (m.splitShard shardId newShardId).1

def Sequenced (m : MemShardStore) : Prop :=
  ∀ id shard, m.shards.lookup id = some shard → shard.Sequenced

section
variable {m m' : MemShardStore} {shard : MemShard} {source target : ShardId}

lemma Sequenced.append (h : m.Sequenced) {req : AppendDeltaRequest}
    (hshard : m.shards.lookup req.shardId = some shard) : (m.append shard req).1.Sequenced := by
  have hold := h req.shardId shard hshard
  refine Maps.forall_insert h ⟨?_, ?_⟩
  · refine pairwise_append.2 ⟨hold.sorted, pairwise_singleton _ _, fun d hd d' hd' => ?_⟩
    rw [mem_singleton.1 hd']
    exact Nat.lt_succ_of_le (hold.bounded d hd)
  · exact forall_mem_append.2 ⟨fun d hd => Nat.le_succ_of_le (hold.bounded d hd),
      forall_mem_singleton.2 (Nat.le_refl _)⟩

lemma Sequenced.split_iff (h : m.Sequenced) (hshard : m.shards.lookup source = some shard) :
    (m.splitShard source target).1.Sequenced ↔ shard.MovesFirst := by
  have hold := h source shard hshard
  simp only [splitShard, hshard]
  constructor
  · intro hsplit
    exact (hsplit target _ (Finmap.lookup_insert _)).bounded
  · intro hfirst
    refine Maps.forall_insert (Maps.forall_insert h ⟨hold.sorted.filter _, fun d hd => ?_⟩)
      ⟨hold.sorted.filter _, hfirst⟩
    exact hold.bounded d (mem_of_mem_filter hd)

lemma Sequenced.step (h : m.Sequenced) (hstep : SplitStep MemShard.MovesFirst m m') :
    m'.Sequenced := by
  cases hstep with
  | create shardId tenantId config =>
    rw [createShard]
    split
    · exact h
    · exact Maps.forall_insert h ⟨.nil, forall_mem_nil _⟩
  | append req =>
    rcases m.appendDelta_cases req with
      ⟨_, ⟨_, heq⟩ | ⟨_, _, _, _, heq⟩⟩ | ⟨_, shard, hshard, heq⟩
    · rw [heq]
      exact h
    · rw [heq]
      exact h
    · rw [heq]
      exact h.append hshard
  | split shardId newShardId hok =>
    cases hshard : m.shards.lookup shardId with
    | none =>
      simp only [splitShard, hshard]
      exact h
    | some shard => exact (h.split_iff hshard).2 (hok shard hshard)

/-- Numbers rise to the tip as long as splits move first deltas. -/
theorem split_keeps_sequences (hrun : ReflTransGen (SplitStep MemShard.MovesFirst) {} m) :
    m.Sequenced ∧
      (∀ id shard first last ds, m.shards.lookup id = some shard →
        m.readDeltas id first last = .ok ds → ds.Nodup ∧ ∀ d, d ∈ ds ↔
          d ∈ shard.deltas ∧ first ≤ d.header.sequence ∧ d.header.sequence ≤ last) ∧
      ∀ source target shard, m.shards.lookup source = some shard →
        ((m.splitShard source target).1.Sequenced ↔ shard.MovesFirst) := by
  have h : m.Sequenced := by
    induction hrun with
    | refl => exact fun _ _ hnone => by rw [Finmap.lookup_empty] at hnone; cases hnone
    | tail _ hstep ih => exact ih.step hstep
  refine ⟨h, fun id shard first last ds hshard hread => ?_, fun _ _ _ => h.split_iff⟩
  simp only [readDeltas, hshard] at hread
  split at hread
  · cases hread
  · obtain rfl := Except.ok.inj hread
    refine ⟨((h id shard hshard).sorted.imp fun hlt heq => ?_).filter _, fun d => ?_⟩
    · exact absurd (heq ▸ hlt) (lt_irrefl _)
    · rw [mem_filter, Bool.and_eq_true, decide_eq_true_eq, decide_eq_true_eq]

end

def shardOf (n : UInt8) : ShardId := ⟨.replicate 16 n⟩

def keyed (first : UInt8) : AppendDeltaRequest :=
  { (plainIntent 5).append.delta with hashedKey := (Vector.replicate 32 0).set 0 first }

def lowThenHigh : MemShardStore :=
  let m := createShard {} (shardOf 0) ⟨.replicate 16 0⟩ {}
  ((m.appendDelta (keyed 0)).1.appendDelta (keyed 0x80)).1

lemma lowThenHigh_run (ok : MemShard → Prop) : ReflTransGen (SplitStep ok) {} lowThenHigh :=
  .tail (.tail (.single (.create _ _ _)) (.append (keyed 0))) (.append (keyed 0x80))

def highThenLow : MemShardStore :=
  let m := createShard {} (shardOf 0) ⟨.replicate 16 0⟩ {}
  ((m.appendDelta (keyed 0x80)).1.appendDelta (keyed 0)).1

/-- The first delta moves, and the new shard numbers on. -/
theorem split_keeps_sequences_highThenLow :
    let split := (highThenLow.splitShard (shardOf 0) (shardOf 1)).1
    let m := (split.appendDelta { keyed 0x80 with shardId := shardOf 1 }).1
    m.Sequenced ∧ ∃ ds, m.readDeltas (shardOf 1) 1 2 = .ok ds ∧ ds.Nodup ∧
      ds.map (fun d => d.header.sequence) = [1, 2] := by
  intro split m
  have hfirst : ∀ shard, highThenLow.shards.lookup (shardOf 0) = some shard →
      shard.MovesFirst := by
    intro shard hshard
    obtain rfl := Option.some.inj hshard
    exact forall_mem_singleton.2 (Nat.le_refl 1)
  have hrun : ReflTransGen (SplitStep MemShard.MovesFirst) {} m :=
    .tail (.tail (.tail (.tail (.single (.create (shardOf 0) ⟨.replicate 16 0⟩ {}))
      (.append (keyed 0x80))) (.append (keyed 0))) (.split (shardOf 0) (shardOf 1) hfirst))
      (.append { keyed 0x80 with shardId := shardOf 1 })
  obtain ⟨hsequenced, hreads, _⟩ := split_keeps_sequences hrun
  exact ⟨hsequenced, _, rfl, (hreads (shardOf 1) _ 1 2 _ rfl rfl).1, by decide +kernel⟩

/-- A moved second delta and the next append have the same number. -/
theorem number_given_twice : ∃ m, ReflTransGen (SplitStep fun _ => True) {} m ∧
    (m.deltasOf (shardOf 1)).map (fun d => d.header.sequence) = [2, 2] :=
  ⟨_, .tail (.tail (lowThenHigh_run _) (.split (shardOf 0) (shardOf 1) fun _ _ => trivial))
    (.append { keyed 0x80 with shardId := shardOf 1 }), by decide +kernel⟩

/-- The loop of `drain_split_buffer`, up to the first append that fails. -/
def appendEach (m : MemShardStore) : List AppendDeltaRequest → MemShardStore × Option LogError
  | [] => (m, none)
  | req :: reqs =>
    match m.appendDelta req with
    | (m', .error e) => (m', some e)
    | (m', .ok _) => m'.appendEach reqs

def retarget (target : ShardId) (req : AppendDeltaRequest) : AppendDeltaRequest :=
  { req with shardId := target }

def drainSplitBuffer (m : MemShardStore) (source : ShardId) : MemShardStore × Except LogError Nat :=
  match m.splitTargets.lookup source with
  | none => (m, .error (.shardNotFound source))
  | some target =>
    let buffered := (m.splitBuffer.lookup source).getD []
    let taken := { m with splitBuffer := m.splitBuffer.erase source }
    let (m', failed) := taken.appendEach (buffered.map (retarget target))
    (m', failed.elim (.ok buffered.length) .error)

def Wrote (req : AppendDeltaRequest) (d : Delta) : Prop :=
  ∃ seq offloaded, d = deltaOf req seq offloaded

section
variable {m : MemShardStore} {req : AppendDeltaRequest} {source target : ShardId}

lemma appendEach_spec (m : MemShardStore) (hne : source ≠ target) (reqs : List AppendDeltaRequest)
    (hreqs : ∀ req ∈ reqs, req.shardId = target) :
    ((m.appendEach reqs).1.splitBuffer.lookup source = m.splitBuffer.lookup source ∧
        (m.appendEach reqs).1.splitTargets = m.splitTargets) ∧
      ∃ ds, (m.appendEach reqs).1.deltasOf target = m.deltasOf target ++ ds ∧
        ((∀ req ∈ reqs, m.Takes target req.hashedKey) ∧
            Forall₂ Wrote reqs ds ∧ (m.appendEach reqs).2 = none ∨
          (∃ req ∈ reqs, ¬m.Takes target req.hashedKey) ∧ ds.length < reqs.length) := by
  induction reqs generalizing m with
  | nil => exact ⟨⟨rfl, rfl⟩, [], (append_nil _).symm, .inl ⟨nofun, .nil, rfl⟩⟩
  | cons req reqs ih =>
    obtain ⟨rfl, hreqs⟩ := forall_mem_cons.1 hreqs
    rw [appendEach]
    rcases m.appendDelta_cases req with
      ⟨hnot, ⟨_, heq⟩ | ⟨_, _, _, _, heq⟩⟩ | ⟨htakes, shard, hshard, heq⟩
    · rw [heq]
      exact ⟨⟨rfl, rfl⟩, [], (append_nil _).symm,
        .inr ⟨⟨req, mem_cons_self, hnot⟩, Nat.succ_pos _⟩⟩
    · rw [heq]
      obtain ⟨⟨hkept, htargets⟩, ds, hds, hor⟩ := ih _ hreqs
      refine ⟨⟨hkept.trans (Finmap.lookup_insert_of_ne _ hne), htargets⟩, ds, hds,
        .inr ⟨⟨req, mem_cons_self, hnot⟩, ?_⟩⟩
      rcases hor with ⟨_, hwrote, _⟩ | ⟨_, hlt⟩
      · exact Nat.lt_succ_of_le hwrote.length_eq.ge
      · exact Nat.lt_succ_of_lt hlt
    · obtain ⟨hkept, ds, hds, hor⟩ := ih (m.append shard req).1 hreqs
      have hsame : (m.append shard req).1.Takes req.shardId = m.Takes req.shardId := by
        funext key
        simp only [Takes, append, Finmap.lookup_insert, hshard, Option.some.injEq, exists_eq_left']
      rw [hsame] at hor
      rw [heq]
      refine ⟨hkept, deltaOf req (shard.tip + 1) (req.hasInlineData && m.inlineStore.isSome) :: ds,
        hds.trans ?_, ?_⟩
      · simp only [deltasOf, append, Finmap.lookup_insert, hshard]
        exact append_assoc _ [_] ds
      rcases hor with ⟨hall, hwrote, hnone⟩ | ⟨⟨r, hr, hnot⟩, hlt⟩
      · exact .inl ⟨forall_mem_cons.2 ⟨htakes, hall⟩, .cons ⟨_, _, rfl⟩ hwrote, hnone⟩
      · exact .inr ⟨⟨r, mem_cons_of_mem _ hr, hnot⟩, Nat.succ_lt_succ hlt⟩

lemma drainSplitBuffer_none (htarget : m.splitTargets.lookup source = some target)
    (hnone : m.splitBuffer.lookup source = none) : m.drainSplitBuffer source = (m, .ok 0) := by
  have herase : m.splitBuffer.erase source = m.splitBuffer := by
    refine Finmap.ext_lookup fun id => ?_
    by_cases hid : id = source
    · rw [hid, Finmap.lookup_erase, hnone]
    · exact Finmap.lookup_erase_ne hid
  simp only [drainSplitBuffer, htarget, hnone, herase]
  rfl

/-- No buffered write is lost exactly if the target takes them all. -/
theorem drain_lossless_iff (m : MemShardStore) (source target : ShardId)
    (htarget : m.splitTargets.lookup source = some target) (hne : source ≠ target) :
    let buffered := (m.splitBuffer.lookup source).getD []
    let m' := (m.drainSplitBuffer source).1
    ((∃ k ds, m'.deltasOf target = m.deltasOf target ++ ds ∧
        Forall₂ Wrote ((buffered.take k).map (retarget target)) ds ∧
        (m'.splitBuffer.lookup source).getD [] = buffered.drop k) ↔
      ∀ req ∈ buffered, m.Takes target req.hashedKey) ∧
    ((∀ req ∈ buffered, m.Takes target req.hashedKey) →
      (∃ ds, m'.deltasOf target = m.deltasOf target ++ ds ∧
        Forall₂ Wrote (buffered.map (retarget target)) ds) ∧
      (m.drainSplitBuffer source).2 = .ok buffered.length ∧
      m'.splitBuffer.lookup source = none ∧ m'.drainSplitBuffer source = (m', .ok 0)) := by
  intro buffered m'
  let taken := { m with splitBuffer := m.splitBuffer.erase source }
  let drained := taken.appendEach (buffered.map (retarget target))
  have hdrain : m.drainSplitBuffer source =
      (drained.1, drained.2.elim (.ok buffered.length) .error) := by
    simp only [drainSplitBuffer, htarget]
    rfl
  obtain ⟨⟨hbuffer, htargets⟩, ds, hds, hor⟩ := taken.appendEach_spec hne
    (buffered.map (retarget target)) (forall_mem_map.2 fun _ _ => rfl)
  have hm' : m' = drained.1 := congrArg Prod.fst hdrain
  have hnone : m'.splitBuffer.lookup source = none := by
    rw [hm', hbuffer]
    exact Finmap.lookup_erase _ _
  have hds : m'.deltasOf target = m.deltasOf target ++ ds := by
    rw [hm', hds]
    rfl
  rw [forall_mem_map, length_map] at hor
  have hwrites : (∀ req ∈ buffered, m.Takes target req.hashedKey) →
      Forall₂ Wrote (buffered.map (retarget target)) ds ∧ drained.2 = none := by
    intro hall
    rcases hor with ⟨_, hwrote⟩ | ⟨⟨_, hmem, hnot⟩, _⟩
    · exact hwrote
    · obtain ⟨req, hreq, rfl⟩ := mem_map.1 hmem
      exact absurd (hall req hreq) hnot
  refine ⟨⟨?_, fun hall => ?_⟩, fun hall => ?_⟩
  · rintro ⟨k, ds', heq, hwrote, hdrop⟩
    obtain rfl := append_cancel_left (hds.symm.trans heq)
    rw [hnone, Option.getD_none] at hdrop
    rcases hor with ⟨hall, _⟩ | ⟨_, hlt⟩
    · exact hall
    · rw [take_of_length_le (drop_eq_nil_iff.1 hdrop.symm)] at hwrote
      exact absurd (length_map _ ▸ hwrote.length_eq) hlt.ne'
  · refine ⟨buffered.length, ds, hds, ?_, ?_⟩
    · rw [take_length]
      exact (hwrites hall).1
    · rw [hnone, drop_length]
      rfl
  · have hstill : m'.splitTargets.lookup source = some target := by
      rw [hm', htargets]
      exact htarget
    refine ⟨⟨ds, hds, (hwrites hall).1⟩, ?_, hnone, drainSplitBuffer_none hstill hnone⟩
    rw [hdrain, (hwrites hall).2]
    rfl

end

def buffering : MemShardStore :=
  let m := (createShard {} (shardOf 0) ⟨.replicate 16 0⟩ {}).createShard (shardOf 1)
    ⟨.replicate 16 0⟩ {}
  let m := (m.setShardState (shardOf 0) .splitting).updateShardRange
    (shardOf 0) (.replicate 32 0) (.replicate 32 0x7F)
  let m := { m with splitTargets := m.splitTargets.insert (shardOf 0) (shardOf 1) }
  ((m.appendDelta (keyed 0x80)).1.appendDelta (keyed 0x81)).1

theorem drain_lossless_buffering :
    let drained := (buffering.drainSplitBuffer (shardOf 0)).1
    (buffering.splitBuffer.lookup (shardOf 0)).getD [] = [keyed 0x80, keyed 0x81] ∧
      (∃ ds, drained.deltasOf (shardOf 1) = ds ∧
        Forall₂ Wrote [retarget (shardOf 1) (keyed 0x80), retarget (shardOf 1) (keyed 0x81)] ds) ∧
      drained.drainSplitBuffer (shardOf 0) = (drained, .ok 0) := by
  intro drained
  have htakes : ∀ req ∈ [keyed 0x80, keyed 0x81], buffering.Takes (shardOf 1) req.hashedKey := by
    refine forall_mem_cons.2 ⟨⟨_, rfl, rfl, by decide⟩, forall_mem_singleton.2 ⟨_, rfl, rfl, ?_⟩⟩
    decide
  obtain ⟨hwrites, _, _, hretry⟩ :=
    (drain_lossless_iff buffering (shardOf 0) (shardOf 1) rfl (by decide)).2 htakes
  exact ⟨by decide +kernel, hwrites, hretry⟩

/-- The target is under maintenance: the drain fails, and the writes are nowhere. -/
theorem buffered_write_lost : ∃ m : MemShardStore,
    m = buffering.setShardState (shardOf 1) .maintenance ∧
    (m.splitBuffer.lookup (shardOf 0)).getD [] = [keyed 0x80, keyed 0x81] ∧
    (m.drainSplitBuffer (shardOf 0)).2 = .error (.maintenanceMode (shardOf 1)) ∧
    (m.drainSplitBuffer (shardOf 0)).1.splitBuffer = ∅ ∧
    (m.drainSplitBuffer (shardOf 0)).1.deltasOf (shardOf 1) = [] :=
  ⟨_, rfl, by decide +kernel, by decide +kernel, by decide +kernel, by decide +kernel⟩

end MemShardStore

end Kiseki.Log
