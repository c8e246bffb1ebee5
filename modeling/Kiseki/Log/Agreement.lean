import Kiseki.Log.Trace

namespace Kiseki.Log

open Option

/-- What replicas agree on; of the inline store only its presence. -/
structure Replicated where
  deltaCount : Nat
  tip : Nat
  maintenance : Bool
  deltas : List Delta
  watermarks : ConsumerWatermarks
  shardId : ShardId
  tenantId : OrgId
  clusterChunkState : Finmap fun _ : ChunkKey => ClusterChunkStateEntry
  rangeStart : Key32
  rangeEnd : Key32
  state : ShardState
  config : ShardConfig
  pendingChunkDecrements : Finmap fun _ : ChunkKey => Nat
  inline : Bool

def ShardSmInner.replicated (s : ShardSmInner) : Replicated where
  deltaCount := s.deltaCount
  tip := s.tip
  maintenance := s.maintenance
  deltas := s.deltas
  watermarks := s.watermarks
  shardId := s.shardId
  tenantId := s.tenantId
  clusterChunkState := s.clusterChunkState
  rangeStart := s.rangeStart
  rangeEnd := s.rangeEnd
  state := s.state
  config := s.config
  pendingChunkDecrements := s.pendingChunkDecrements
  inline := s.inlineStore.isSome

structure Agree (vd : Delta → α) (vc : ClusterChunkStateEntry → β) (a b : Replicated) : Prop where
  deltaCount : a.deltaCount = b.deltaCount
  tip : a.tip = b.tip
  maintenance : a.maintenance = b.maintenance
  deltas : a.deltas.map vd = b.deltas.map vd
  watermarks : a.watermarks = b.watermarks
  shardId : a.shardId = b.shardId
  tenantId : a.tenantId = b.tenantId
  clusterChunkState : ∀ key,
    (a.clusterChunkState.lookup key).map vc = (b.clusterChunkState.lookup key).map vc
  rangeStart : a.rangeStart = b.rangeStart
  rangeEnd : a.rangeEnd = b.rangeEnd
  state : a.state = b.state
  config : a.config = b.config
  pendingChunkDecrements : a.pendingChunkDecrements = b.pendingChunkDecrements
  inline : a.inline = b.inline

lemma Agree.refl (vd : Delta → α) (vc : ClusterChunkStateEntry → β) (a : Replicated) :
    Agree vd vc a a :=
  ⟨rfl, rfl, rfl, rfl, rfl, rfl, rfl, fun _ => rfl, rfl, rfl, rfl, rfl, rfl, rfl⟩

lemma agree_id_iff : Agree id id a b ↔ a = b := by
  constructor
  · intro h
    obtain ⟨h₁, h₂, h₃, h₄, h₅, h₆, h₇, h₈, h₉, h₁₀, h₁₁, h₁₂, h₁₃, h₁₄⟩ := h
    have hchunks : a.clusterChunkState = b.clusterChunkState :=
      Finmap.ext_lookup fun key => by simpa only [map_id_fun, id] using h₈ key
    cases a
    cases b
    simp only [List.map_id_fun, id] at *
    simp only [*]
  · rintro rfl
    exact Agree.refl id id a

structure StampBlind (vd : Delta → α) (vc : ClusterChunkStateEntry → β) (i j : Nat) : Prop where
  delta : ∀ shardId sequence args offloaded,
    vd (mkDelta shardId sequence args offloaded i) = vd (mkDelta shardId sequence args offloaded j)
  chunk : ∀ entry : ClusterChunkStateEntry,
    vc { entry with createdMs := i } = vc { entry with createdMs := j }

lemma stampBlind_self (vd : Delta → α) (vc : ClusterChunkStateEntry → β) (i : Nat) :
    StampBlind vd vc i i :=
  ⟨fun _ _ _ _ => rfl, fun _ => rfl⟩

section
variable {vd : Delta → α} {vc : ClusterChunkStateEntry → β} {a b : ShardSmInner} {i j : Nat}

section
variable (h : Agree vd vc a.replicated b.replicated)

include h

lemma Agree.mem_clusterChunkState (key : ChunkKey) :
    key ∈ a.clusterChunkState ↔ key ∈ b.clusterChunkState := by
  have hsome := congrArg isSome (h.clusterChunkState key)
  rw [isSome_map, isSome_map] at hsome
  rw [← Finmap.lookup_isSome, ← Finmap.lookup_isSome]
  exact Eq.to_iff (congrArg (· = true) hsome)

section
variable (hs : StampBlind vd vc i j)

include hs

lemma Agree.applyNewChunk (tenant : OrgId) (nc : NewChunkMeta) :
    Agree vd vc (a.applyNewChunk tenant i nc).replicated
      (b.applyNewChunk tenant j nc).replicated := by
  have hparked : a.pendingChunkDecrements = b.pendingChunkDecrements := h.pendingChunkDecrements
  simp only [ShardSmInner.applyNewChunk]
  by_cases hm : ((tenant, ⟨nc.chunkId⟩) : ChunkKey) ∈ a.clusterChunkState
  · rw [if_pos hm, if_pos ((h.mem_clusterChunkState _).1 hm)]
    exact h
  · rw [if_neg hm, if_neg (fun hm' => hm ((h.mem_clusterChunkState _).2 hm')), hparked]
    refine { h with clusterChunkState := ?_, pendingChunkDecrements := rfl }
    intro key
    change ((a.clusterChunkState.insert _ _).lookup key).map vc =
      ((b.clusterChunkState.insert _ _).lookup key).map vc
    rw [Maps.lookup_insert, Maps.lookup_insert]
    split
    · exact congrArg some (hs.chunk ⟨_, _, _, 0, _⟩)
    · exact h.clusterChunkState key

lemma Agree.applyNewChunks (tenantIdBytes : Uuid) (newChunks : List NewChunkMeta) :
    Agree vd vc (a.applyNewChunks tenantIdBytes newChunks i).replicated
      (b.applyNewChunks tenantIdBytes newChunks j).replicated := by
  induction newChunks generalizing a b with
  | nil => exact h
  | cons nc ncs ih => exact ih (h.applyNewChunk hs _ nc)

lemma Agree.appendDeltaInner (args : DeltaArgs) (batch batch' : InlineBatch) :
    Agree vd vc (a.appendDeltaInner args i batch).1.replicated
      (b.appendDeltaInner args j batch').1.replicated := by
  have htip : a.tip = b.tip := h.tip
  have hshard : a.shardId = b.shardId := h.shardId
  have hoff : a.offloads args = b.offloads args := congrArg (args.hasInlineData && ·) h.inline
  refine { h with
    tip := congrArg (· + 1) htip, deltaCount := congrArg (· + 1) h.deltaCount, deltas := ?_ }
  change (a.deltas ++ [_]).map vd = (b.deltas ++ [_]).map vd
  rw [List.map_append, List.map_append, htip, hshard, hoff]
  exact congrArg₂ (· ++ ·) h.deltas (congrArg (fun d => [d]) (hs.delta _ _ _ _))

lemma Agree.incorporate (item : IncorporateItem) (nowMs nowMs' : Nat)
    (batch batch' : InlineBatch) :
    Agree vd vc (a.incorporate item i nowMs batch).1.replicated
      (b.incorporate item j nowMs' batch').1.replicated :=
  (h.applyNewChunks hs item.tenantIdBytes item.newChunks).appendDeltaInner hs item.toDeltaArgs
    batch batch'

end

end

end

lemma ShardSmInner.replicated_flushInlineBatch (s : ShardSmInner) (batch : InlineBatch) :
    (s.flushInlineBatch batch).replicated = s.replicated := by
  simp only [replicated, flushInlineBatch, isSome_map]

lemma ShardSmInner.replicated_applyCommandAt {a b : ShardSmInner}
    (h : a.replicated = b.replicated) (cmd : LogCommand) (logIndex nowMs nowMs' : Nat)
    (hc : cmd.items = []) (hb : ∀ items, cmd ≠ .incorporateIntents items) :
    (a.applyCommandAt cmd logIndex nowMs).1.replicated =
      (b.applyCommandAt cmd logIndex nowMs').1.replicated := by
  have hagree := agree_id_iff.2 h
  have hblind := stampBlind_self (id : Delta → Delta) (id : ClusterChunkStateEntry → _) logIndex
  cases cmd with
  | appendDelta args =>
    simp only [applyCommandAt, replicated_flushInlineBatch]
    exact agree_id_iff.1 (hagree.appendDeltaInner hblind args _ _)
  | chunkAndDelta args newChunks inlinePayloads =>
    simp only [applyCommandAt, replicated_flushInlineBatch]
    exact agree_id_iff.1
      ((hagree.applyNewChunks hblind _ newChunks).appendDeltaInner hblind args _ _)
  | incrementChunkRefcount tenant chunk =>
    have hrows : a.clusterChunkState = b.clusterChunkState := congrArg (·.clusterChunkState) h
    simp only [applyCommandAt, incrementChunkRefcount, hrows]
    split
    · exact agree_id_iff.1 { hagree with clusterChunkState := fun _ => rfl }
    · exact h
  | decrementChunkRefcount tenant chunk =>
    have hrows : a.clusterChunkState = b.clusterChunkState := congrArg (·.clusterChunkState) h
    have hparked : a.pendingChunkDecrements = b.pendingChunkDecrements :=
      congrArg (·.pendingChunkDecrements) h
    simp only [applyCommandAt, decrementChunkRefcount, hrows, hparked]
    split
    · exact agree_id_iff.1 { hagree with
        clusterChunkState := fun _ => rfl, pendingChunkDecrements := rfl }
    · split
      · exact h
      · exact agree_id_iff.1 { hagree with
          clusterChunkState := fun _ => rfl, pendingChunkDecrements := rfl }
  | setMaintenance enabled =>
    exact congrArg (fun r : Replicated => { r with maintenance := enabled }) h
  | advanceWatermark consumer position =>
    have hmarks : a.watermarks = b.watermarks := congrArg (·.watermarks) h
    have hdeltas : a.deltas = b.deltas := congrArg (·.deltas) h
    simp only [applyCommandAt, pruneDeltasBelowGcBoundary, hmarks]
    split
    · exact agree_id_iff.1 { hagree with watermarks := rfl }
    · simp only [replicated, isSome_map, hdeltas]
      exact agree_id_iff.1 { hagree with watermarks := rfl, deltas := rfl }
  | setShardState state =>
    simp only [applyCommandAt]
    split
    · exact agree_id_iff.1 { hagree with state := rfl }
    · exact h
  | updateShardRange rangeStart rangeEnd =>
    exact congrArg (fun r : Replicated => { r with rangeStart := rangeStart, rangeEnd := rangeEnd })
      h
  | setShardConfig config => exact congrArg (fun r : Replicated => { r with config := config }) h
  | incorporateIntent item => cases hc
  | incorporateIntents items => exact absurd rfl (hb items)

lemma ShardSmInner.replicated_incorporateIntents (s : ShardSmInner)
    (items : List IncorporateItem) (logIndex nowMs : Nat) :
    (s.applyCommandAt (.incorporateIntents items) logIndex nowMs).1.replicated =
      (afterItems logIndex nowMs items s).replicated := by
  simp only [applyCommandAt, replicated_flushInlineBatch]
  rw [applyItems_fst]

lemma ShardSmInner.replicated_apply {a b : ShardSmInner} (h : a.replicated = b.replicated)
    {cmd : LogCommand} {logIndex nowMs nowMs' : Nat}
    (hitems : (afterItems logIndex nowMs cmd.items a).replicated =
      (afterItems logIndex nowMs' cmd.items b).replicated) :
    (a.apply ⟨cmd, logIndex, nowMs⟩).replicated = (b.apply ⟨cmd, logIndex, nowMs'⟩).replicated := by
  simp only [apply]
  cases cmd with
  | incorporateIntents items =>
    rw [replicated_incorporateIntents, replicated_incorporateIntents]
    exact hitems
  | incorporateIntent item =>
    simp only [applyCommandAt, replicated_flushInlineBatch]
    exact hitems
  | _ =>
    apply replicated_applyCommandAt h _ _ _ _ rfl
    intro items heq
    cases heq

lemma ShardSmInner.tip_applyNewChunks (s : ShardSmInner) (tenantIdBytes : Uuid)
    (newChunks : List NewChunkMeta) (logIndex : Nat) :
    (s.applyNewChunks tenantIdBytes newChunks logIndex).tip = s.tip ∧
      (s.applyNewChunks tenantIdBytes newChunks logIndex).shardId = s.shardId ∧
      (s.applyNewChunks tenantIdBytes newChunks logIndex).inlineStore = s.inlineStore := by
  obtain ⟨_, _, h⟩ := s.applyNewChunks_eq tenantIdBytes newChunks logIndex
  rw [h]
  exact ⟨rfl, rfl, rfl⟩

lemma ShardSmInner.inlineStore_applyItems {s : ShardSmInner} (logIndex nowMs : Nat)
    (items : List IncorporateItem) (batch : InlineBatch) :
    (applyItems logIndex nowMs items (s, batch)).1.inlineStore = s.inlineStore := by
  induction items generalizing s batch with
  | nil => rfl
  | cons item items ih =>
    have hone : (s.applyOneIncorporate item logIndex nowMs batch).1.inlineStore =
        s.inlineStore := by
      rw [applyOneIncorporate]
      split
      · rfl
      · exact (s.tip_applyNewChunks item.tenantIdBytes item.newChunks logIndex).2.2
    exact (ih _).trans hone

lemma ShardSmInner.append_batch_eq {a b : ShardSmInner} (htip : a.tip = b.tip)
    (hinline : a.inlineStore.isSome = b.inlineStore.isSome) (args : DeltaArgs) (logIndex : Nat)
    (batch : InlineBatch) :
    (a.appendDeltaInner args logIndex batch).2 = (b.appendDeltaInner args logIndex batch).2 := by
  have hoff : a.offloads args = b.offloads args := congrArg (args.hasInlineData && ·) hinline
  simp only [appendDeltaInner, hoff, htip]

lemma ShardSmInner.chunkAndDelta_batch_eq {a b : ShardSmInner} (h : a.replicated = b.replicated)
    (args : DeltaArgs) (newChunks : List NewChunkMeta) (payloads : List InlinePayloadEntry)
    (logIndex : Nat) (batch : InlineBatch) :
    let a' := a.applyNewChunks args.tenantIdBytes newChunks logIndex
    let b' := b.applyNewChunks args.tenantIdBytes newChunks logIndex
    (a'.appendDeltaInner args logIndex (a'.queueInlinePayloads payloads batch)).2 =
      (b'.appendDeltaInner args logIndex (b'.queueInlinePayloads payloads batch)).2 := by
  intro a' b'
  obtain ⟨htipA, _, hstoreA⟩ := a.tip_applyNewChunks args.tenantIdBytes newChunks logIndex
  obtain ⟨htipB, _, hstoreB⟩ := b.tip_applyNewChunks args.tenantIdBytes newChunks logIndex
  have htip : a'.tip = b'.tip := htipA.trans ((congrArg Replicated.tip h).trans htipB.symm)
  have hinline : a'.inlineStore.isSome = b'.inlineStore.isSome := by
    rw [hstoreA, hstoreB]
    exact congrArg Replicated.inline h
  rw [append_batch_eq htip hinline, queueInlinePayloads, queueInlinePayloads, hinline]

/-- The stores stay equal if the items leave equal batches. -/
lemma ShardSmInner.inlineStore_apply {a b : ShardSmInner} (h : a.replicated = b.replicated)
    (hstore : a.inlineStore = b.inlineStore) {cmd : LogCommand} {logIndex nowMs nowMs' : Nat}
    (hbatch : (applyItems logIndex nowMs cmd.items (a, [])).2 =
      (applyItems logIndex nowMs' cmd.items (b, [])).2) :
    (a.apply ⟨cmd, logIndex, nowMs⟩).inlineStore =
      (b.apply ⟨cmd, logIndex, nowMs'⟩).inlineStore := by
  by_cases hc : cmd.isControl = true
  · obtain ⟨_, _, _, _, _, _, _, ha⟩ := a.applyCommandAt_control hc logIndex nowMs
    obtain ⟨_, _, _, _, _, _, _, hb⟩ := b.applyCommandAt_control hc logIndex nowMs'
    rw [apply, apply, ha, hb]
    exact hstore
  have hput : ∀ {s s' : ShardSmInner} {batch batch' : InlineBatch},
      s.inlineStore = a.inlineStore → s'.inlineStore = b.inlineStore → batch = batch' →
        (s.flushInlineBatch batch).inlineStore = (s'.flushInlineBatch batch').inlineStore := by
    rintro s s' batch _ hs hs' rfl
    rw [flushInlineBatch, flushInlineBatch, hs, hs', hstore]
  cases cmd with
  | appendDelta args =>
    exact hput rfl rfl (append_batch_eq (congrArg Replicated.tip h) (congrArg Replicated.inline h)
      args logIndex [])
  | chunkAndDelta args newChunks payloads =>
    exact hput (a.tip_applyNewChunks _ newChunks logIndex).2.2
      (b.tip_applyNewChunks _ newChunks logIndex).2.2
      (chunkAndDelta_batch_eq h args newChunks payloads logIndex [])
  | incorporateIntent item =>
    exact hput (inlineStore_applyItems logIndex nowMs [item] [])
      (inlineStore_applyItems logIndex nowMs' [item] []) hbatch
  | incorporateIntents items =>
    exact hput (inlineStore_applyItems logIndex nowMs items [])
      (inlineStore_applyItems logIndex nowMs' items []) hbatch
  | advanceWatermark consumer position =>
    have hmarks : a.watermarks = b.watermarks := congrArg Replicated.watermarks h
    have hdeltas : a.deltas = b.deltas := congrArg Replicated.deltas h
    simp only [apply, applyCommandAt, pruneDeltasBelowGcBoundary, hmarks, hdeltas, hstore]
    split <;> rfl
  | _ => exact absurd rfl hc

end Kiseki.Log
