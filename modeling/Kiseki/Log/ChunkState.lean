import Kiseki.Log.Refcount

namespace Kiseki.Log

open Finmap ShardSmInner

/-- Rows without references are tombstoned; parked decrements have no row. -/
structure ShardSmInner.ChunkRows (s : ShardSmInner) : Prop where
  tombstoned : ∀ key entry, s.clusterChunkState.lookup key = some entry →
    (entry.tombstoned = true ↔ entry.refcount = 0)
  apart : ∀ key, key ∈ s.clusterChunkState → key ∉ s.pendingChunkDecrements
  parked : ∀ key n, s.pendingChunkDecrements.lookup key = some n → 1 ≤ n
  capped : s.pendingChunkDecrements.keys.card ≤ pendingChunkDecrementsCap

def ShardSmInner.tombstone (s : ShardSmInner) (key : ChunkKey) : Option Bool :=
  (s.clusterChunkState.lookup key).map ClusterChunkStateEntry.tombstoned

namespace ShardSmInner
variable {s s' : ShardSmInner} {key : ChunkKey}

lemma tombstone_eq_count : s.tombstone key = (s.count key).map Prod.snd := by
  rw [tombstone, count, Option.map_map]
  rfl

section
variable (h : s.ChunkRows)

include h

lemma ChunkRows.congr (hrows : s'.clusterChunkState = s.clusterChunkState)
    (hparked : s'.pendingChunkDecrements = s.pendingChunkDecrements) : s'.ChunkRows := by
  refine ⟨?_, ?_, ?_, ?_⟩
  · rw [hrows]
    exact h.tombstoned
  · rw [hrows, hparked]
    exact h.apart
  · rw [hparked]
    exact h.parked
  · rw [hparked]
    exact h.capped

lemma ChunkRows.update (hkey : key ∈ s.clusterChunkState)
    {entry : ClusterChunkStateEntry} (hentry : entry.tombstoned = true ↔ entry.refcount = 0) :
    ({ s with clusterChunkState := s.clusterChunkState.insert key entry } :
      ShardSmInner).ChunkRows where
  tombstoned := Maps.forall_insert h.tombstoned hentry
  apart := by
    intro k hk
    rcases mem_insert.1 hk with rfl | hk
    · exact h.apart k hkey
    · exact h.apart k hk
  parked := h.parked
  capped := h.capped

lemma ChunkRows.applyNewChunk (tenant : OrgId) (logIndex : Nat)
    (nc : NewChunkMeta) : (s.applyNewChunk tenant logIndex nc).ChunkRows := by
  rw [ShardSmInner.applyNewChunk]
  split
  · exact h
  refine ⟨?_, ?_, ?_, ?_⟩
  · apply Maps.forall_insert h.tombstoned
    simp only [decide_eq_true_eq]
    omega
  · intro k hk hparked
    obtain ⟨hne, hparked⟩ := mem_erase.1 hparked
    rcases mem_insert.1 hk with rfl | hk
    · exact hne rfl
    · exact h.apart k hk hparked
  · exact fun k n hk => h.parked k n (Maps.of_lookup_erase hk).2
  · rw [keys_erase]
    exact (Finset.card_le_card (Finset.erase_subset _ _)).trans h.capped

lemma ChunkRows.applyNewChunks (tenantIdBytes : Uuid)
    (newChunks : List NewChunkMeta) (logIndex : Nat) :
    (s.applyNewChunks tenantIdBytes newChunks logIndex).ChunkRows := by
  induction newChunks generalizing s with
  | nil => exact h
  | cons nc ncs ih => exact ih (h.applyNewChunk _ _ nc)

lemma ChunkRows.afterItems (logIndex nowMs : Nat)
    (items : List IncorporateItem) : (afterItems logIndex nowMs items s).ChunkRows := by
  induction items generalizing s with
  | nil => exact h
  | cons item items ih =>
    apply ih
    rw [applyOneIncorporate]
    split
    · exact h
    · exact (h.applyNewChunks item.tenantIdBytes item.newChunks logIndex).congr rfl rfl

lemma ChunkRows.incrementChunkRefcount (key : ChunkKey) :
    (s.incrementChunkRefcount key).ChunkRows := by
  rw [ShardSmInner.incrementChunkRefcount]
  split
  · rename_i entry hentry
    apply h.update (mem_of_lookup_eq_some hentry)
    have hpos : min (entry.refcount + 1) u64Max ≠ 0 := by
      rw [u64Max]
      omega
    exact ⟨fun htomb => absurd htomb Bool.false_ne_true, fun hzero => absurd hzero hpos⟩
  · exact h

end

lemma tombstoned_decrement {entry : ClusterChunkStateEntry}
    (h : entry.tombstoned = true ↔ entry.refcount = 0) :
    (entry.tombstoned || (decide (entry.refcount - 1 = 0) && !entry.tombstoned)) = true ↔
      entry.refcount - 1 = 0 := by
  cases htomb : entry.tombstoned with
  | true =>
    have hzero := h.1 htomb
    simp only [Bool.true_or, true_iff]
    omega
  | false => simp only [Bool.false_or, Bool.not_false, Bool.and_true, decide_eq_true_eq]

lemma ChunkRows.decrementChunkRefcount (h : s.ChunkRows) (key : ChunkKey) :
    (s.decrementChunkRefcount key).1.ChunkRows := by
  rw [ShardSmInner.decrementChunkRefcount]
  split
  · rename_i entry hentry
    exact h.update (mem_of_lookup_eq_some hentry)
      (tombstoned_decrement (h.tombstoned key entry hentry))
  rename_i hnone
  split
  · exact h
  rename_i hroom
  refine ⟨h.tombstoned, ?_, ?_, ?_⟩
  · intro k hk hparked
    rcases mem_insert.1 hparked with rfl | hparked
    · exact lookup_eq_none.1 hnone hk
    · exact h.apart k hk hparked
  · exact Maps.forall_insert h.parked (Nat.le_add_left 1 _)
  · have hkeys : (s.pendingChunkDecrements.insert key
        ((s.pendingChunkDecrements.lookup key).getD 0 + 1)).keys =
        insert key s.pendingChunkDecrements.keys := by
      ext k
      rw [mem_keys, mem_insert, Finset.mem_insert, mem_keys]
    rw [hkeys]
    -- the cap is only checked for a key that is not parked yet
    by_cases hin : key ∈ s.pendingChunkDecrements
    · rw [Finset.insert_eq_of_mem (mem_keys.2 hin)]
      exact h.capped
    · have hlt : s.pendingChunkDecrements.keys.card < pendingChunkDecrementsCap :=
        Nat.lt_of_not_le fun hle => hroom ⟨hle, hin⟩
      exact (Finset.card_insert_le _ _).trans hlt

lemma ChunkRows.apply (h : s.ChunkRows) (e : Applied) : (s.apply e).ChunkRows := by
  obtain ⟨cmd, logIndex, nowMs⟩ := e
  cases cmd with
  | chunkAndDelta args newChunks inlinePayloads =>
    exact (h.applyNewChunks args.tenantIdBytes newChunks logIndex).congr rfl rfl
  | incorporateIntent item => exact (h.afterItems logIndex nowMs [item]).congr rfl rfl
  | incorporateIntents items =>
    have hitems := h.afterItems logIndex nowMs items
    rw [← applyItems_fst logIndex nowMs items (s, [])] at hitems
    exact hitems.congr rfl rfl
  | incrementChunkRefcount tenantIdBytes chunkId => exact h.incrementChunkRefcount _
  | decrementChunkRefcount tenantIdBytes chunkId => exact h.decrementChunkRefcount _
  | advanceWatermark consumer position =>
    refine h.congr ?_ ?_ <;>
    · simp only [ShardSmInner.apply, applyCommandAt, pruneDeltasBelowGcBoundary]
      split <;> rfl
  | setShardState state =>
    refine h.congr ?_ ?_ <;>
    · simp only [ShardSmInner.apply, applyCommandAt]
      split <;> rfl
  | _ => exact h.congr rfl rfl

lemma ChunkRows.run (h : s.ChunkRows) (es : List Applied) : (s.run es).ChunkRows := by
  induction es generalizing s with
  | nil => exact h
  | cons e es ih => exact ih (h.apply e)

lemma chunkRows_new (shardId : ShardId) (tenantId : OrgId) (windowEntries windowMs : Nat)
    (inlineStore : Option InlineMap) :
    (new shardId tenantId windowEntries windowMs inlineStore).ChunkRows where
  tombstoned := fun _ _ hrow => nomatch hrow
  apart := fun _ hrow => absurd hrow notMem_empty
  parked := fun _ _ hparked => nomatch hparked
  capped := Nat.zero_le _

lemma count_apply_of_some (h : s.count key = some c) {e : Applied}
    (hup : e.cmd ≠ refcountCommand key .up) (hdown : e.cmd ≠ refcountCommand key .down) :
    (s.apply e).count key = some c := by
  obtain ⟨cmd, logIndex, nowMs⟩ := e
  cases cmd with
  | chunkAndDelta args newChunks inlinePayloads =>
    exact count_applyNewChunks_of_some h
  | incorporateIntent item => exact count_afterItems_of_some h logIndex nowMs [item]
  | incorporateIntents items =>
    have hitems := count_afterItems_of_some h logIndex nowMs items
    rw [← applyItems_fst logIndex nowMs items (s, [])] at hitems
    exact hitems
  | incrementChunkRefcount tenantIdBytes chunkId =>
    have hne : key ≠ (⟨tenantIdBytes⟩, ⟨chunkId⟩) := by
      rintro rfl
      exact hup rfl
    simp only [apply, applyCommandAt, incrementChunkRefcount]
    split
    · rw [count, lookup_insert_of_ne _ hne]
      exact h
    · exact h
  | decrementChunkRefcount tenantIdBytes chunkId =>
    have hne : key ≠ (⟨tenantIdBytes⟩, ⟨chunkId⟩) := by
      rintro rfl
      exact hdown rfl
    simp only [apply, applyCommandAt, decrementChunkRefcount]
    split
    · rw [count, lookup_insert_of_ne _ hne]
      exact h
    · split <;> exact h
  | advanceWatermark consumer position =>
    simp only [apply, applyCommandAt, pruneDeltasBelowGcBoundary]
    split <;> exact h
  | setShardState state =>
    simp only [apply, applyCommandAt]
    split <;> exact h
  | _ => exact h

lemma tombstone_incrementChunkRefcount (s : ShardSmInner) (key : ChunkKey) :
    (s.incrementChunkRefcount key).tombstone key ≠ some true := by
  rw [incrementChunkRefcount]
  split
  · rw [tombstone, lookup_insert]
    intro htomb
    cases htomb
  · rw [tombstone, ‹s.clusterChunkState.lookup key = none›]
    intro htomb
    cases htomb

lemma decrementChunkRefcount_outcome (s : ShardSmInner) (key : ChunkKey) :
    (s.decrementChunkRefcount key).2 = true ↔
      s.tombstone key = some false ∧ (s.decrementChunkRefcount key).1.tombstone key =
        some true := by
  rw [decrementChunkRefcount]
  split
  · rename_i entry hentry
    simp only [tombstone, hentry, lookup_insert, Option.map_some, Option.some.injEq]
    cases entry.tombstoned <;> simp
  · rename_i hnone
    have hleft : s.tombstone key ≠ some false := by
      rw [tombstone, hnone]
      intro htomb
      cases htomb
    split <;> exact ⟨fun hfalse => absurd hfalse Bool.false_ne_true,
      fun hboth => absurd hboth.1 hleft⟩

lemma tombstoned_by_step_iff (s : ShardSmInner) (e : Applied) (key : ChunkKey) :
    s.tombstone key = some false ∧ (s.apply e).tombstone key = some true ↔
      e.cmd = .decrementChunkRefcount key.1.uuid key.2.bytes ∧
        (s.applyCommandAt e.cmd e.logIndex e.nowMs).2 = .decrementOutcome true := by
  obtain ⟨cmd, logIndex, nowMs⟩ := e
  by_cases hdown : cmd = refcountCommand key .down
  · subst hdown
    have houtcome := s.decrementChunkRefcount_outcome key
    constructor
    · intro h
      exact ⟨rfl, congrArg LogResponse.decrementOutcome (houtcome.2 h)⟩
    · rintro ⟨_, h⟩
      exact houtcome.1 (LogResponse.decrementOutcome.inj h)
  · refine iff_of_false ?_ fun h => hdown h.1
    rintro ⟨hbefore, hafter⟩
    by_cases hup : cmd = refcountCommand key .up
    · subst hup
      exact s.tombstone_incrementChunkRefcount key hafter
    · rw [tombstone_eq_count, Option.map_eq_some_iff] at hbefore
      obtain ⟨⟨n, t⟩, hcount, rfl⟩ := hbefore
      rw [tombstone_eq_count, count_apply_of_some hcount hup hdown] at hafter
      cases hafter

end ShardSmInner

/-- The invariants of the chunk table, over every command sequence. -/
theorem chunk_table_of_run (shardId : ShardId) (tenantId : OrgId) (windowEntries windowMs : Nat)
    (inlineStore : Option InlineMap) (es : List Applied) :
    let s := (new shardId tenantId windowEntries windowMs inlineStore).run es
    s.ChunkRows ∧ ∀ e key,
      s.tombstone key = some false ∧ (s.apply e).tombstone key = some true ↔
        e.cmd = .decrementChunkRefcount key.1.uuid key.2.bytes ∧
          (s.applyCommandAt e.cmd e.logIndex e.nowMs).2 = .decrementOutcome true := by
  intro s
  exact ⟨(chunkRows_new shardId tenantId windowEntries windowMs inlineStore).run es,
    fun e key => s.tombstoned_by_step_iff e key⟩

end Kiseki.Log
