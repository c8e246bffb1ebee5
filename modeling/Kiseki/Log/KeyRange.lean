import Kiseki.Log.Store

namespace Kiseki.Log
open Intent Finmap List MemShardStore

inductive Request where
  | append (req : AppendDeltaRequest)
  | updateShardRange (rangeStart rangeEnd : Key32)
  | setShardState (state : ShardState)

structure TimedRequest where
  request : Request
  logIndex : Nat
  nowMs : Nat

def ShardSmInner.serve (s : ShardSmInner) (t : TimedRequest) : ShardSmInner × Bool :=
  match t.request with
  | .append req =>
    let (s, answer) := s.appendDelta req t.logIndex t.nowMs
    (s, answer.isOk)
  | .updateShardRange rangeStart rangeEnd =>
    ((s.applyCommandAt (.updateShardRange rangeStart rangeEnd) t.logIndex t.nowMs).1, true)
  | .setShardState state =>
    ((s.applyCommandAt (.setShardState state.asU8) t.logIndex t.nowMs).1, true)

def MemShardStore.serve (m : MemShardStore) (shardId : ShardId) (t : TimedRequest) :
    MemShardStore × Bool :=
  match t.request with
  | .append req =>
    let (m, answer) := m.appendDelta { req with shardId := shardId }
    (m, answer.isOk)
  | .updateShardRange rangeStart rangeEnd => (m.updateShardRange shardId rangeStart rangeEnd, true)
  | .setShardState state => (m.setShardState shardId state, true)

structure Served where
  raft : ShardSmInner
  mem : MemShardStore
  timed : TimedRequest

def serves (shardId : ShardId) :
    List TimedRequest → ShardSmInner → MemShardStore → List Served
  | [], _, _ => []
  | t :: ts, s, m => ⟨s, m, t⟩ :: serves shardId ts (s.serve t).1 (m.serve shardId t).1

def Served.Allowed (t : Served) : Prop :=
  ∀ req, t.timed.request = .append req →
    t.raft.state.acceptsWrites = true ∧ InRange t.raft.rangeStart t.raft.rangeEnd req.hashedKey

def Served.Enforced (t : Served) : Prop :=
  ∀ d, (t.raft.serve t.timed).1.deltas = t.raft.deltas ++ [d] →
    t.raft.state.acceptsWrites = true ∧
      InRange t.raft.rangeStart t.raft.rangeEnd d.header.hashedKey

def Served.Agreed (shardId : ShardId) (t : Served) : Prop :=
  (t.raft.serve t.timed).2 = (t.mem.serve shardId t.timed).2

structure Matches (shardId : ShardId) (s : ShardSmInner) (m : MemShardStore) : Prop where
  open_ : s.maintenance = false
  shard : ∃ shard, m.shards.lookup shardId = some shard ∧ shard.state = s.state ∧
    shard.rangeStart = s.rangeStart ∧ shard.rangeEnd = s.rangeEnd
  target : shardId ∉ m.splitTargets

section
variable {shardId : ShardId} {s : ShardSmInner} {m : MemShardStore}
  {req : AppendDeltaRequest} {logIndex nowMs : Nat}

lemma ShardSmInner.serve_append (h : s.maintenance = false) :
    s.serve ⟨.append req, logIndex, nowMs⟩ =
      ((s.applyCommandAt (.appendDelta (deltaArgsOf req)) logIndex nowMs).1, true) := by
  simp only [serve, appendDelta, h]
  rfl

lemma MemShardStore.rejects_eq_none (state : ShardState) :
    rejects shardId state = none ↔ state.acceptsWrites = true := by
  cases state <;> simp [rejects, ShardState.acceptsWrites]

lemma Matches.mem_accepts (h : Matches shardId s m) :
    (m.serve shardId ⟨.append req, logIndex, nowMs⟩).2 = true ↔
      s.state.acceptsWrites = true ∧ InRange s.rangeStart s.rangeEnd req.hashedKey := by
  obtain ⟨shard, hlook, hstate, hstart, hend⟩ := h.shard
  simp only [serve, appendDelta, hlook]
  rw [← hstate, ← hstart, ← hend, ← rejects_eq_none]
  cases rejects shardId shard.state with
  | some e => exact ⟨nofun, fun h => nomatch h.1⟩
  | none =>
    by_cases hrange : InRange shard.rangeStart shard.rangeEnd req.hashedKey
    · simp only [if_pos hrange]
      exact ⟨fun _ => ⟨trivial, hrange⟩, fun _ => rfl⟩
    · simp only [if_neg hrange, h.target, and_false, if_false]
      exact ⟨nofun, fun h => absurd h.2 hrange⟩

lemma Matches.serve (h : Matches shardId s m) (t : TimedRequest) :
    Matches shardId (s.serve t).1 (m.serve shardId t).1 := by
  obtain ⟨request, logIndex, nowMs⟩ := t
  obtain ⟨shard, hlook, hstate, hstart, hend⟩ := h.shard
  cases request with
  | append req =>
    rw [ShardSmInner.serve_append h.open_]
    simp only [MemShardStore.serve, MemShardStore.appendDelta, hlook]
    split
    · exact ⟨h.open_, ⟨shard, hlook, hstate, hstart, hend⟩, h.target⟩
    · split
      · exact ⟨h.open_, ⟨_, lookup_insert _, hstate, hstart, hend⟩, h.target⟩
      · rw [if_neg fun hcut => h.target hcut.2]
        exact ⟨h.open_, ⟨shard, hlook, hstate, hstart, hend⟩, h.target⟩
  | updateShardRange rangeStart rangeEnd =>
    simp only [MemShardStore.serve, MemShardStore.updateShardRange, hlook]
    exact ⟨h.open_, ⟨_, lookup_insert _, hstate, rfl, rfl⟩, h.target⟩
  | setShardState state =>
    simp only [MemShardStore.serve, MemShardStore.setShardState, hlook, ShardSmInner.serve,
      ShardSmInner.applyCommandAt, ShardState.fromU8_asU8]
    exact ⟨h.open_, ⟨_, lookup_insert _, rfl, hstart, hend⟩, h.target⟩

lemma Matches.serves (h : Matches shardId s m) (ts : List TimedRequest) :
    ∀ t ∈ serves shardId ts s m, Matches shardId t.raft t.mem := by
  induction ts generalizing s m with
  | nil => exact fun t ht => nomatch ht
  | cons r ts ih =>
    exact forall_mem_cons.2 ⟨h, ih (h.serve r)⟩

lemma Matches.enforced_iff {t : Served} (h : Matches shardId t.raft t.mem) :
    t.Enforced ↔ t.Allowed := by
  obtain ⟨s, m, request, logIndex, nowMs⟩ := t
  cases request with
  | append req =>
    simp only [Served.Enforced, Served.Allowed, ShardSmInner.serve_append h.open_]
    constructor
    · rintro henf _ ⟨rfl⟩
      exact henf _ rfl
    · intro hall d hd
      have hkey : d.header.hashedKey = req.hashedKey := by
        obtain rfl := singleton_inj.1 (append_cancel_left hd)
        rfl
      rw [hkey]
      exact hall req rfl
  | updateShardRange rangeStart rangeEnd =>
    refine ⟨fun _ _ => nofun, fun _ d hd => ?_⟩
    exact absurd (self_eq_append_right.1 hd) (cons_ne_nil d [])
  | setShardState state =>
    refine ⟨fun _ _ => nofun, fun _ d hd => ?_⟩
    simp only [ShardSmInner.serve, ShardSmInner.applyCommandAt, ShardState.fromU8_asU8] at hd
    exact absurd (self_eq_append_right.1 hd) (cons_ne_nil d [])

lemma Matches.agreed {t : Served} (h : Matches shardId t.raft t.mem) (hall : t.Allowed) :
    t.Agreed shardId := by
  obtain ⟨s, m, request, logIndex, nowMs⟩ := t
  cases request with
  | append req =>
    rw [Served.Agreed, ShardSmInner.serve_append h.open_]
    exact ((h.mem_accepts).2 (hall req rfl)).symm
  | updateShardRange rangeStart rangeEnd => rfl
  | setShardState state => rfl

end

lemma matches_fresh (shardId : ShardId) (tenantId : OrgId) (windowEntries windowMs : Nat)
    (inlineStore : Option InlineMap) (config : ShardConfig) :
    Matches shardId (.new shardId tenantId windowEntries windowMs inlineStore)
      (MemShardStore.createShard {} shardId tenantId config) where
  open_ := rfl
  shard := ⟨_, lookup_insert _, rfl, rfl, rfl⟩
  target := notMem_empty

/-- Range and state are enforced exactly if every append meets them. -/
theorem range_enforced_iff (ts : List TimedRequest) (shardId : ShardId) (tenantId : OrgId)
    (windowEntries windowMs : Nat) (inlineStore : Option InlineMap) (config : ShardConfig) :
    (∀ t ∈ serves shardId ts (.new shardId tenantId windowEntries windowMs inlineStore)
        (MemShardStore.createShard {} shardId tenantId config),
      t.Enforced ∧ t.Agreed shardId) ↔
      ∀ t ∈ serves shardId ts (.new shardId tenantId windowEntries windowMs inlineStore)
        (MemShardStore.createShard {} shardId tenantId config), t.Allowed := by
  apply forall₂_congr
  intro t ht
  have hmatch := (matches_fresh shardId tenantId windowEntries windowMs inlineStore config).serves
    ts t ht
  constructor
  · exact fun h => hmatch.enforced_iff.1 h.1
  · exact fun h => ⟨hmatch.enforced_iff.2 h, hmatch.agreed h⟩

def plainRequest (byte : UInt8) : AppendDeltaRequest where
  shardId := ⟨.replicate 16 0⟩
  tenantId := ⟨.replicate 16 0⟩
  operation := .create
  timestamp := indexTimestamp 0
  hashedKey := .replicate 32 byte
  chunkRefs := []
  payload := []
  hasInlineData := false

def cutThenAppend : List TimedRequest :=
  [⟨.updateShardRange (.replicate 32 0) (.replicate 32 1), 1, 0⟩,
    ⟨.append (plainRequest 5), 2, 0⟩]

theorem out_of_range_append_applied :
    ¬∀ t ∈ serves ⟨.replicate 16 0⟩ cutThenAppend
        (.new ⟨.replicate 16 0⟩ ⟨.replicate 16 0⟩ 2 60000 none)
        (MemShardStore.createShard {} ⟨.replicate 16 0⟩ ⟨.replicate 16 0⟩ {}),
      t.Enforced ∧ t.Agreed ⟨.replicate 16 0⟩ := by
  intro h
  have hmatch := matches_fresh ⟨.replicate 16 0⟩ ⟨.replicate 16 0⟩ 2 60000 none {}
  obtain ⟨henforced, _⟩ := h _ (mem_cons_of_mem _ mem_cons_self)
  have hallowed := (hmatch.serves cutThenAppend _
    (mem_cons_of_mem _ mem_cons_self)).enforced_iff.1 henforced
  have hrange : InRange (.replicate 32 0) (.replicate 32 1) (.replicate 32 5) :=
    (hallowed _ rfl).2
  exact absurd hrange (by decide)

end Kiseki.Log
