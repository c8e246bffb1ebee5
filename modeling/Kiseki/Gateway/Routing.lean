import Kiseki.Gateway.Sharing
import Kiseki.Log.Store

namespace Kiseki.Gateway
open Compositions Intent Log Function Relation ShardSmInner Option

structure ShardRange where
  shardId : ShardId
  rangeStart : Key32
  rangeEnd : Key32

structure NamespaceShardMap where
  shards : List ShardRange

/-- The last shard that starts at or below the key. -/
def routeToShard (map : NamespaceShardMap) (hashedKey : Key32) : Option ShardId :=
  let below := map.shards.takeWhile fun s => !decide (hashedKey.toList < s.rangeStart.toList)
  below.getLast?.bind fun shard =>
    if below.length ≠ map.shards.length ∧ ¬hashedKey.toList < shard.rangeEnd.toList then none
    else some shard.shardId

structure Sharded where
  rows : CompositionId → Option Composition
  shards : ShardId → ShardSmInner
  shardMap : NamespaceId → Option NamespaceShardMap

namespace Sharded

def routed (s : Sharded) (nsId : NamespaceId) (hashedKey : Key32) (shardId : ShardId) : ShardId :=
  ((s.shardMap nsId).bind fun map => routeToShard map hashedKey).getD shardId

def write (s : Sharded) (comp : Composition) (target : ShardId) (shard : ShardSmInner) : Sharded :=
  { s with
    rows := update s.rows comp.id (some comp)
    shards := update s.shards target shard }

/-- The delta goes where the map says, the decrements to the composition's shard. -/
def delete (s : Sharded) (comp : Composition) (target : ShardId) (delta : DeltaArgs)
    (logIndex nowMs : Nat) (held : ChunkStore) : Sharded :=
  let shards := update s.shards target
    ((s.shards target).apply ⟨.chunkAndDelta delta [] [], logIndex, nowMs⟩)
  { s with
    rows := update s.rows comp.id none
    shards := update shards comp.shardId
      (releaseChunks comp.tenantId comp.chunks held (shards comp.shardId)).2.1 }

structure Blank (s : Sharded) : Prop where
  rows : ∀ id, s.rows id = none
  shards : ∀ i key, (s.shards i).count key = none ∧ (s.shards i).parked key = 0

end Sharded

def RefersTo (comp : Composition) (i : ShardId) (key : ChunkKey) : Prop :=
  comp.shardId = i ∧ comp.tenantId = key.1 ∧ key.2 ∈ comp.chunks

def References (rows : CompositionId → Option Composition) (i : ShardId) (key : ChunkKey) : Prop :=
  ∃ id comp, rows id = some comp ∧ RefersTo comp i key

/-- Writes and deletes through one node, with any change of the maps. -/
inductive ShardedStep (compositionHashKey : NamespaceId → CompositionId → Key32)
    (allowed : Sharded → ShardId → Composition → List NewChunkMeta → Prop) (s : Sharded) :
    Sharded → Prop where
  | write {comp : Composition} {ns : Namespace} {target : ShardId}
      (hcomp : comp = Composition.new ns comp.id comp.chunks comp.chunkPlaintextLens comp.size)
      (hfresh : s.rows comp.id = none)
      (htarget : target = s.routed ns.id (compositionHashKey ns.id comp.id) ns.shardId)
      (hnew : ∀ nc ∈ newChunks, ⟨nc.chunkId⟩ ∈ comp.chunks)
      (hshard : Incorporates comp.tenantId newChunks (s.shards target) async shard)
      (hallowed : allowed s target comp newChunks) :
      ShardedStep compositionHashKey allowed s (s.write comp target shard)
  | delete {comp : Composition} {target : ShardId} (hrow : s.rows comp.id = some comp)
      (htarget : target =
        s.routed comp.namespaceId (compositionHashKey comp.namespaceId comp.id) comp.shardId)
      (delta : DeltaArgs) (logIndex nowMs : Nat) (held : ChunkStore) :
      ShardedStep compositionHashKey allowed s (s.delete comp target delta logIndex nowMs held)
  | reshard (shardMap : NamespaceId → Option NamespaceShardMap) :
      ShardedStep compositionHashKey allowed s { s with shardMap := shardMap }

/-- The create goes to its composition's shard, which gets the rows. -/
def Homed (s : Sharded) (target : ShardId) (comp : Composition) (newChunks : List NewChunkMeta) :
    Prop :=
  target = comp.shardId ∧ ∀ chunk ∈ comp.chunks,
    chunk ∈ (newChunks.map fun nc => (⟨nc.chunkId⟩ : ChunkId)) ∨
      (s.shards target).count (comp.tenantId, chunk) ≠ none

structure Backed (refs : ChunkKey → Prop) (shard : ShardSmInner) : Prop where
  row : ∀ key, refs key → shard.count key ≠ none
  live : ∀ key, shard.count key ≠ none → ∃ n ≤ 1, Counts key shard n ∧ (n = 1 → refs key)
  parked : ∀ key, shard.parked key = 0

section
variable {refs refs' : ChunkKey → Prop} {shard shard' : ShardSmInner} {tenantId : OrgId}
  {newChunks : List NewChunkMeta} {chunks : List ChunkId} {key : ChunkKey} {s s' : Sharded}

lemma parked_applyNewChunks (h : shard.parked key = 0) (tenantIdBytes : Uuid) (logIndex : Nat) :
    (shard.applyNewChunks tenantIdBytes newChunks logIndex).parked key = 0 := by
  induction newChunks generalizing shard with
  | nil => exact h
  | cons nc ncs ih =>
    apply ih
    by_cases hkey : key = (⟨tenantIdBytes⟩, ⟨nc.chunkId⟩)
    · simp only [applyNewChunk]
      split
      · exact h
      · rw [hkey, parked, Finmap.lookup_erase]
        rfl
    · exact (applyNewChunk_other logIndex nc hkey).2.trans h

lemma parked_decrement (h : shard.count key ≠ none) (key' : ChunkKey) :
    (shard.decrementChunkRefcount key).1.parked key' = shard.parked key' := by
  cases hentry : shard.clusterChunkState.lookup key with
  | none => exact absurd (count_eq_none.2 (Finmap.lookup_eq_none.1 hentry)) h
  | some entry =>
    simp only [decrementChunkRefcount, hentry]
    rfl

lemma Incorporates.count_eq (h : Incorporates tenantId newChunks shard async shard')
    (hparked : shard.parked key = 0) :
    shard'.parked key = 0 ∧ shard'.count key = (shard.count key).or
      (if key.1 = tenantId ∧ key.2 ∈ newChunks.map (fun nc => (⟨nc.chunkId⟩ : ChunkId))
        then some (1, false) else none) := by
  obtain ⟨logIndex, hcount, hafter⟩ := h.count key
  refine ⟨hafter.trans (parked_applyNewChunks hparked _ _), hcount.trans ?_⟩
  simp only [← listsChunk_iff]
  cases hrow : shard.count key with
  | some c => exact count_applyNewChunks_of_some hrow
  | none =>
    obtain ⟨hyes, hno⟩ := count_applyNewChunks hrow logIndex
    rw [hparked] at hyes
    split
    · exact hyes ‹_›
    · exact (hno (Bool.eq_false_of_not_eq_true ‹_›)).1

lemma Backed.congr (h : Backed refs shard) (hiff : ∀ key, refs' key ↔ refs key) :
    Backed refs' shard := by
  rwa [show refs' = refs from funext fun key => propext (hiff key)]

lemma Backed.incorporates (h : Backed refs shard)
    (hshard : Incorporates tenantId newChunks shard async shard')
    (hmono : ∀ key, refs key → refs' key)
    (hnew : ∀ key, key.1 = tenantId ∧ key.2 ∈ (newChunks.map fun nc => ⟨nc.chunkId⟩) → refs' key)
    (hrow : ∀ key, refs' key → shard.count key ≠ none ∨
      key.1 = tenantId ∧ key.2 ∈ newChunks.map fun nc => ⟨nc.chunkId⟩) :
    Backed refs' shard' := by
  have hafter key := hshard.count_eq (h.parked key)
  refine ⟨by grind, fun key hkey => ?_, fun key => (hafter key).1⟩
  have hcount := (hafter key).2
  cases hbefore : shard.count key with
  | some c =>
    obtain ⟨n, hle, hn, href⟩ := h.live key (by simp [hbefore])
    rw [hn, some_or] at hcount
    exact ⟨n, hle, hcount, fun hone => hmono key (href hone)⟩
  | none =>
    rw [hbefore, none_or] at hcount
    split at hcount
    · exact ⟨1, le_rfl, hcount, fun _ => hnew key ‹_›⟩
    · exact absurd hcount hkey

lemma parked_release (hrows : ∀ chunk ∈ chunks, shard.count (tenantId, chunk) ≠ none)
    (held : ChunkStore) :
    (releaseChunks tenantId chunks held shard).2.1.parked key = shard.parked key := by
  induction chunks generalizing held shard with
  | nil => rfl
  | cons chunk chunks ih =>
    have hrow := hrows chunk List.mem_cons_self
    apply (ih (fun c hc => ?_) _).trans (parked_decrement hrow key)
    by_cases heq : (tenantId, c) = (tenantId, chunk)
    · rw [heq]
      obtain ⟨entry, hentry⟩ := Finmap.mem_iff.1 (not_not.1 (mt count_eq_none.2 hrow))
      simp only [decrementChunkRefcount, hentry, count, Finmap.lookup_insert]
      exact some_ne_none _
    · rw [count_decrement_of_ne heq]
      exact hrows c (List.mem_cons_of_mem _ hc)

lemma Backed.release (h : Backed refs shard) (held : ChunkStore)
    (hchunks : ∀ chunk ∈ chunks, refs (tenantId, chunk))
    (hkept : ∀ key, refs key ↔ refs' key ∨ key.1 = tenantId ∧ key.2 ∈ chunks) :
    Backed refs' (releaseChunks tenantId chunks held shard).2.1 := by
  have hrows chunk hmem := h.row _ (hchunks chunk hmem)
  have hafter {key : ChunkKey} {o : Option Nat} (ho : CountsAt key shard o) :=
    ho.releaseAll tenantId chunks held
  refine ⟨fun key hkey => ?_, fun key hkey => ?_, fun key => by rw [parked_release hrows, h.parked]⟩
  · obtain ⟨n, _, hn, _⟩ := h.live key (h.row key ((hkept key).2 (.inl hkey)))
    rw [hafter (o := some n) hn]
    exact some_ne_none _
  · have hbefore : shard.count key ≠ none := fun hnone => hkey (hafter (o := none) hnone)
    obtain ⟨n, hle, hn, href⟩ := h.live key hbefore
    refine ⟨n - if tenantId = key.1 then chunks.count key.2 else 0, ?_, hafter (o := some n) hn,
      fun hone => ?_⟩
    · omega
    · have hn : n = 1 := by split at hone <;> omega
      apply ((hkept key).1 (href hn)).resolve_right
      rintro ⟨htenant, hmem⟩
      rw [if_pos htenant.symm] at hone
      have := List.count_pos_iff.2 hmem
      omega

lemma references_update {rows : CompositionId → Option Composition} {comp : Composition}
    {i : ShardId} (hfresh : rows comp.id = none) :
    References (update rows comp.id (some comp)) i key ↔
      References rows i key ∨ RefersTo comp i key := by
  constructor
  · rintro ⟨id, other, hrow, hrefers⟩
    by_cases hid : id = comp.id
    · rw [hid, update_self] at hrow
      cases hrow
      exact .inr hrefers
    · rw [update_of_ne hid] at hrow
      exact .inl ⟨id, other, hrow, hrefers⟩
  · rintro (⟨id, other, hrow, hrefers⟩ | hrefers)
    · have hid : id ≠ comp.id := by
        rintro rfl
        rw [hfresh] at hrow
        cases hrow
      exact ⟨id, other, (update_of_ne hid _ _).trans hrow, hrefers⟩
    · exact ⟨comp.id, comp, update_self _ _ _, hrefers⟩

lemma references_erase {rows : CompositionId → Option Composition} {comp : Composition}
    {i : ShardId} (hrow : rows comp.id = some comp) :
    References rows i key ↔
      References (update rows comp.id none) i key ∨ RefersTo comp i key := by
  rw [← references_update (update_self comp.id none rows), update_idem, ← hrow, update_eq_self]

def Sharded.Sound (s : Sharded) : Prop := ∀ i, Backed (References s.rows i) (s.shards i)

lemma Sharded.Sound.write {comp : Composition} {target : ShardId} (h : s.Sound)
    (hfresh : s.rows comp.id = none) (hnew : ∀ nc ∈ newChunks, ⟨nc.chunkId⟩ ∈ comp.chunks)
    (hshard : Incorporates comp.tenantId newChunks (s.shards target) async shard)
    (hhomed : Homed s target comp newChunks) : (s.write comp target shard).Sound := by
  intro i
  obtain ⟨rfl, hrows⟩ := hhomed
  have hrefs key := @references_update key s.rows comp i hfresh
  by_cases hi : i = comp.shardId
  · subst hi
    simp only [Sharded.write, update_self]
    apply (h comp.shardId).incorporates hshard
    · exact fun key hkey => (hrefs key).2 (.inl hkey)
    · rintro key ⟨htenant, hmem⟩
      obtain ⟨nc, hnc, hchunk⟩ := List.mem_map.1 hmem
      exact (hrefs key).2 (.inr ⟨rfl, htenant.symm, hchunk ▸ hnew nc hnc⟩)
    · intro key hkey
      obtain hkey | ⟨_, htenant, hmem⟩ := (hrefs key).1 hkey
      · exact .inl ((h comp.shardId).row key hkey)
      · have hrow := hrows key.2 hmem
        rw [htenant] at hrow
        exact hrow.symm.imp_right (.intro htenant.symm)
  · simp only [Sharded.write, update_of_ne hi]
    exact (h i).congr fun key => (hrefs key).trans (or_iff_left fun hrefers => hi hrefers.1.symm)

lemma Sharded.Sound.delete {comp : Composition} (h : s.Sound)
    (hrow : s.rows comp.id = some comp) (target : ShardId) (delta : DeltaArgs)
    (logIndex nowMs : Nat) (held : ChunkStore) :
    (s.delete comp target delta logIndex nowMs held).Sound := by
  -- the delete delta brings no row
  have happended (i : ShardId) : Backed (References s.rows i) (update s.shards target
      ((s.shards target).apply ⟨.chunkAndDelta delta [] [], logIndex, nowMs⟩) i) := by
    by_cases hi : i = target
    · subst hi
      rw [update_self]
      have hshard : Incorporates ⟨delta.tenantIdBytes⟩ [] (s.shards i) false
          ((s.shards i).apply ⟨.chunkAndDelta delta [] [], logIndex, nowMs⟩) := .commit delta rfl
      exact (h i).incorporates hshard (fun _ hkey => hkey) nofun
        fun key hkey => .inl ((h i).row key hkey)
    · rw [update_of_ne hi]
      exact h i
  intro i
  have hrefs key := @references_erase key s.rows comp i hrow
  by_cases hi : i = comp.shardId
  · subst hi
    simp only [Sharded.delete, update_self]
    refine (happended comp.shardId).release held
      (fun chunk hmem => ⟨comp.id, comp, hrow, rfl, rfl, hmem⟩) fun key => (hrefs key).trans ?_
    rw [RefersTo, eq_comm (a := comp.tenantId)]
    simp only [true_and]
  · simp only [Sharded.delete, update_of_ne hi]
    exact (happended i).congr fun key =>
      ((hrefs key).trans (or_iff_left fun hrefers => hi hrefers.1.symm)).symm

lemma Sharded.Sound.step {compositionHashKey : NamespaceId → CompositionId → Key32}
    (h : s.Sound) (hstep : ShardedStep compositionHashKey Homed s s') : s'.Sound := by
  cases hstep with
  | write hcomp hfresh htarget hnew hshard hallowed => exact h.write hfresh hnew hshard hallowed
  | delete hrow htarget delta logIndex nowMs held => exact h.delete hrow _ delta logIndex nowMs held
  | reshard shardMap => exact h

lemma Sharded.Sound.run {compositionHashKey : NamespaceId → CompositionId → Key32}
    (h : s.Sound) (hrun : ReflTransGen (ShardedStep compositionHashKey Homed) s s') :
    s'.Sound := by
  induction hrun with
  | refl => exact h
  | tail _ hstep ih => exact ih.step hstep

end

section
variable (map : Option NamespaceShardMap)

end

end Kiseki.Gateway
