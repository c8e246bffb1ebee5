import Kiseki.Composition.Hydration

namespace Kiseki.Compositions
open Intent List Option

def ChunkRefLocation.isCold : ChunkRefLocation → Bool
  | .hot _ => false
  | .cold _ _ _ _ => true

section
variable {comp : Composition} {poolName : String} {slabId : Uuid} {i : Nat}
  {entries : List (Nat × Nat × Nat)} {location : ChunkRefLocation}

@[simp] lemma length_fullLocations : (fullLocations comp).length = comp.chunks.length := by
  rw [fullLocations]
  split
  · assumption
  · exact length_replicate

lemma length_migrated :
    (comp.migrated poolName slabId entries).chunkLocations.length = comp.chunks.length :=
  foldlRecOn (motive := fun locations : List ChunkRefLocation =>
    locations.length = comp.chunks.length) _ _ length_fullLocations
    fun _ h _ _ => length_set.trans h

lemma location_foldl_set {locations : List ChunkRefLocation}
    (h : (entries.foldl (fun locations entry =>
      locations.set entry.1 (.cold poolName slabId entry.2.1 entry.2.2)) locations)[i]? =
      some location) :
    locations[i]? = some location ∨
      ∃ entry ∈ entries, entry.1 = i ∧ location = .cold poolName slabId entry.2.1 entry.2.2 := by
  induction entries generalizing locations with
  | nil => exact .inl h
  | cons entry entries ih =>
    rcases ih h with hset | ⟨later, hlater, heq⟩
    · rw [getElem?_set] at hset
      split at hset
      · split at hset
        · exact .inr ⟨entry, mem_cons_self, ‹_›, (some.inj hset).symm⟩
        · cases hset
      · exact .inl hset
    · exact .inr ⟨later, mem_cons_of_mem entry hlater, heq⟩

lemma location_migrated
    (h : (comp.migrated poolName slabId entries).chunkLocations[i]? = some location)
    (hcold : location.isCold = true) :
    comp.chunkLocations[i]? = some location ∨
      ∃ offset length, (i, offset, length) ∈ entries ∧ i < comp.chunks.length ∧
        location = .cold poolName slabId offset length := by
  rcases location_foldl_set h with hfull | ⟨entry, hentry, rfl, heq⟩
  · simp only [fullLocations] at hfull
    split at hfull
    · exact .inl hfull
    · rw [getElem?_replicate] at hfull
      split at hfull
      · cases hfull
        cases hcold
      · cases hfull
  · obtain ⟨hmem, hrange⟩ := mem_filter.1 hentry
    exact .inr ⟨entry.2.1, entry.2.2, hmem, length_fullLocations ▸ of_decide_eq_true hrange, heq⟩

end

/-- A delta with the chunks that the row had when it was emitted. -/
structure Emitted where
  op : DeltaOp
  seen : List ChunkId

def EmittedFor (log : List Emitted) (id : CompositionId) (i : Nat) (chunk : ChunkId)
    (location : ChunkRefLocation) : Prop :=
  ∃ poolName slabId offset length entries seen,
    location = .cold poolName slabId offset length ∧ (i, offset, length) ∈ entries ∧
      ⟨.migrateChunkLocations id poolName slabId entries, seen⟩ ∈ log ∧ seen[i]? = some chunk

structure Composition.Aligned (lenOf : ChunkId → Nat) (log : List Emitted) (comp : Composition) :
    Prop where
  lens : comp.chunkPlaintextLens = [] ∨ comp.chunkPlaintextLens = comp.chunks.map lenOf
  locations : comp.chunkLocations = [] ∨ comp.chunkLocations.length = comp.chunks.length
  cold : ∀ i location, comp.chunkLocations[i]? = some location → location.isCold = true →
    ∃ chunk, comp.chunks[i]? = some chunk ∧ EmittedFor log comp.id i chunk location

/-- The delta's lengths and chunks are those of the row it finds. -/
def Emitted.Fits (lenOf : ChunkId → Nat) (row : Option Composition) (e : Emitted) : Prop :=
  match e.op with
  | .create _ _ _ _ lens _ chunkRefs => lens.getD [] = [] ∨ lens.getD [] = chunkRefs.map lenOf
  | .update _ _ chunkRefs => ∀ comp ∈ row,
    (comp.chunkPlaintextLens = [] ∨ comp.chunkPlaintextLens = chunkRefs.map lenOf) ∧
      (comp.chunkLocations = [] ∨ comp.chunkLocations.length = chunkRefs.length) ∧
      ∀ (i : Nat) (location : ChunkRefLocation), comp.chunkLocations[i]? = some location →
        location.isCold = true → chunkRefs[i]? = comp.chunks[i]?
  | .migrateChunkLocations _ _ _ entries => ∀ comp ∈ row, ∀ entry ∈ entries,
    entry.1 < comp.chunks.length → e.seen[entry.1]? = comp.chunks[entry.1]?
  | _ => True

def Staged (may : Option Composition → Emitted → Prop) (id : CompositionId) (st : CompositionStore)
    (s : Staging) : List Emitted → Prop
  | [] => True
  | e :: es =>
    (e.op.target = some id → may (s.view st.storage id) e) ∧ Staged may id st (stage st s e.op).1 es

inductive Hydrated (may : Option Composition → Emitted → Prop) (id : CompositionId)
    (start : CompositionStore) : List Emitted → CompositionStore → Prop where
  | start : Hydrated may id start [] start
  | poll {log window : List Emitted} {st st' : CompositionStore}
      (hbefore : Hydrated may id start log st)
      (hhydrates : Hydrates st (window.map Emitted.op) st') (hmay : Staged may id st {} window) :
      Hydrated may id start (log ++ window) st'

section
variable {lenOf : ChunkId → Nat} {log : List Emitted} {comp : Composition} {id : CompositionId}

lemma Composition.Aligned.append (h : comp.Aligned lenOf log) (later : List Emitted) :
    comp.Aligned lenOf (log ++ later) := by
  refine ⟨h.lens, h.locations, fun i location hlocation hcold => ?_⟩
  obtain ⟨chunk, hchunk, poolName, slabId, offset, length, entries, seen, heq, hentry, hmem,
    hseen⟩ :=
    h.cold i location hlocation hcold
  exact ⟨chunk, hchunk, poolName, slabId, offset, length, entries, seen, heq, hentry,
    mem_append_left _ hmem, hseen⟩

lemma Composition.Aligned.ofBare {row : Composition} (h : row.Aligned lenOf log)
    (heq : row.bare = comp.bare) : comp.Aligned lenOf log := by
  have hbare : row.bare.Aligned lenOf log := ⟨h.lens, h.locations, h.cold⟩
  rw [heq] at hbare
  exact ⟨hbare.lens, hbare.locations, hbare.cold⟩

lemma Composition.Aligned.updated {size : Nat} (h : comp.Aligned lenOf log)
    (hfits : Emitted.Fits lenOf (some comp) ⟨.update x size chunkRefs, seen⟩) :
    (comp.updated size chunkRefs).Aligned lenOf log := by
  obtain ⟨hlens, hlocations, hcold⟩ := hfits comp rfl
  refine ⟨hlens, hlocations, fun i location hlocation hiscold => ?_⟩
  obtain ⟨chunk, hchunk, hemitted⟩ := h.cold i location hlocation hiscold
  exact ⟨chunk, (hcold i location hlocation hiscold).trans hchunk, hemitted⟩

lemma Composition.Aligned.migrated (h : comp.Aligned lenOf log) (hid : comp.id = id)
    (hfits : Emitted.Fits lenOf (some comp)
      ⟨.migrateChunkLocations id poolName slabId entries, seen⟩) :
    (comp.migrated poolName slabId entries).Aligned lenOf
      (log ++ [⟨.migrateChunkLocations id poolName slabId entries, seen⟩]) := by
  refine ⟨h.lens, .inr length_migrated, ?_⟩
  intro i location hlocation hcold
  rcases location_migrated hlocation hcold with hbefore | ⟨offset, length, hentry, hrange, heq⟩
  · exact (h.append _).cold i location hbefore hcold
  · have hchunk := getElem?_eq_getElem hrange
    refine ⟨_, hchunk, poolName, slabId, offset, length, entries, seen, heq, hentry, ?_, ?_⟩
    · rw [← hid]
      exact mem_append_right _ (mem_singleton_self _)
    · exact (hfits comp rfl _ hentry hrange).trans hchunk

lemma aligned_onRow {row : Option Composition} {e : Emitted} {ns : Option Namespace}
    (hrow : ∀ comp ∈ row, comp.id = id ∧ comp.Aligned lenOf log) (htarget : e.op.target = some id)
    (hfits : e.Fits lenOf row) :
    ∀ comp ∈ e.op.onRow ns row, comp.Aligned lenOf (log ++ [e]) := by
  obtain ⟨op, seen⟩ := e
  intro comp hcomp
  cases op with
  | create x namespaceId size name lens seq chunkRefs =>
    rcases or_eq_some_iff.1 hcomp with hold | ⟨_, hnew⟩
    · exact (hrow comp hold).2.append _
    · obtain ⟨ns, _, rfl⟩ := map_eq_some_iff.1 hnew
      exact ⟨hfits, .inl rfl, fun i location hlocation => nomatch hlocation⟩
  | update x size chunkRefs =>
    obtain ⟨old, rfl, heq⟩ := map_eq_some_iff.1 hcomp
    rw [← heq]
    split
    · exact (hrow old rfl).2.append _
    · exact ((hrow old rfl).2.updated hfits).append _
  | delete x => cases hcomp
  | migrateChunkLocations x poolName slabId entries =>
    cases htarget
    obtain ⟨old, rfl, rfl⟩ := map_eq_some_iff.1 hcomp
    exact (hrow old rfl).2.migrated (hrow old rfl).1 hfits
  | _ => cases htarget

lemma aligned_stageAll {st : CompositionStore} {s : Staging} (hkeyed : st.storage.Keyed)
    (hs : ∀ comp, s.view st.storage id = some comp → comp.Aligned lenOf log) (window : List Emitted)
    (hfits : Staged (fun row e => e.Fits lenOf row) id st s window) :
    ∀ comp, (stageAll st s (window.map Emitted.op)).view st.storage id = some comp →
      comp.Aligned lenOf (log ++ window) := by
  induction window generalizing log s with
  | nil =>
    rw [append_nil]
    exact hs
  | cons e window ih =>
    rw [← singleton_append, ← append_assoc]
    apply ih _ hfits.2
    intro comp hcomp
    rw [view_stage hkeyed] at hcomp
    split at hcomp
    · rename_i htarget
      apply aligned_onRow _ htarget (hfits.1 htarget) comp hcomp
      exact fun row hrow => ⟨Staging.view_id hkeyed hrow, hs row hrow⟩
    · exact (hs comp hcomp).append _

end

section
variable {lenOf : ChunkId → Nat} {log : List Emitted} {st start : CompositionStore}
  {id : CompositionId}

lemma keyed_hydrates {st' : CompositionStore} (h : st.storage.Keyed)
    (hhydrates : Hydrates st ops st') : st'.storage.Keyed := by
  cases hhydrates with
  | idle => exact h
  | halt hydrator => exact h.applyHydrationBatch _ _
  | commit shardId lastApplied stuck =>
    rw [commit_eq]
    exact drainAll_induct (P := fun t => t.storage.Keyed) (fun _ _ ht => ht)
      (fun _ _ ht hrows => keyed_of_bare ht hrows) (keyed_committed h) (keyed_committed h) _

/-- If all deltas fit, the three chunk vectors of every row are aligned. -/
theorem chunk_vectors_aligned (hkeyed : start.storage.Keyed) (hfresh : start.storage.get id = none)
    (hrun : Hydrated (fun row e => e.Fits lenOf row) id start log st) :
    ∀ comp, st.storage.get id = some comp → comp.Aligned lenOf log := by
  have hboth : st.storage.Keyed ∧
      ∀ comp, st.storage.get id = some comp → comp.Aligned lenOf log := by
    induction hrun with
    | start =>
      refine ⟨hkeyed, fun comp hcomp => ?_⟩
      rw [hfresh] at hcomp
      cases hcomp
    | poll hbefore hhydrates hmay ih =>
      refine ⟨keyed_hydrates ih.1 hhydrates, fun comp hcomp => ?_⟩
      have hget := get_hydrates ih.1 hhydrates id
      rw [hcomp] at hget
      obtain ⟨row, hrow, heq⟩ := map_eq_some_iff.1 hget.symm
      refine (aligned_stageAll ih.1 (fun comp hcomp => ih.2 comp ?_) _ hmay row hrow).ofBare heq
      exact (Staging.view_empty).symm.trans hcomp
  exact hboth.2

end

/-- The places that a delta migrates, with their chunks. -/
def DeltaOp.releases (row : Option Composition) : DeltaOp → List (CompositionId × Nat × ChunkId)
  | .migrateChunkLocations id _ _ entries => row.elim [] fun comp =>
    entries.filterMap fun entry => comp.chunks[entry.1]?.map (id, entry.1, ·)
  | _ => []

def releasedBy (st : CompositionStore) (s : Staging) :
    List DeltaOp → List (CompositionId × Nat × ChunkId)
  | [] => []
  | op :: ops =>
    op.releases (op.target.bind (s.view st.storage)) ++ releasedBy st (stage st s op).1 ops

def DeltaOp.migratedIndices (id : CompositionId) : DeltaOp → List Nat
  | .migrateChunkLocations x _ _ entries => if x = id then entries.map Prod.fst else []
  | _ => []

/-- The store after polls, with the chunks handed to the eviction sink. -/
inductive Migrated (start : CompositionStore) : List DeltaOp → List ChunkId →
    List (CompositionId × Nat × ChunkId) → CompositionStore → Prop where
  | start : Migrated start [] [] [] start
  | poll {log ops : List DeltaOp} {evicted : List ChunkId}
      {places : List (CompositionId × Nat × ChunkId)} {st st' : CompositionStore}
      (hbefore : Migrated start log evicted places st) (hhydrates : Hydrates st ops st') :
      Migrated start (log ++ ops) (evicted ++ (stageAll st {} ops).migratedChunkEvictions)
        (places ++ releasedBy st {} ops) st'

def Settled (id : CompositionId) (ops : List DeltaOp) : Prop :=
  ∀ op ∈ ops, op.target = some id →
    ∃ poolName slabId entries, op = .migrateChunkLocations id poolName slabId entries

def Composition.coldAt (comp : Composition) (i : Nat) : Bool :=
  comp.chunkLocations[i]?.any ChunkRefLocation.isCold

section
variable {st : CompositionStore} {s : Staging} {id : CompositionId} {i : Nat} {op : DeltaOp}

lemma evictions_stage :
    (stage st s op).1.migratedChunkEvictions = s.migratedChunkEvictions ++
      (op.releases (op.target.bind (s.view st.storage))).map fun place => place.2.2 := by
  have hbind : ∀ (t : Staging) (namespaceId : NamespaceId) (name : Option String)
      (id : CompositionId) (seq : Option PerspectiveSeq),
      (t.bindName namespaceId name id seq).migratedChunkEvictions = t.migratedChunkEvictions := by
    intro t namespaceId name id seq
    cases name <;> rfl
  cases op with
  | create x namespaceId size name lens seq chunkRefs =>
    simp only [stage, stageCreate, DeltaOp.releases, map_nil, append_nil]
    split
    · exact hbind ..
    · split
      · rfl
      · exact hbind ..
  | update x size chunkRefs =>
    simp only [stage, stageUpdate, DeltaOp.releases, map_nil, append_nil]
    split
    · rfl
    · split <;> rfl
  | delete x =>
    simp only [stage, stageDelete, DeltaOp.releases, map_nil, append_nil]
    split <;> rfl
  | migrateChunkLocations x poolName slabId entries =>
    simp only [stage, stageMigrateChunkLocations, DeltaOp.releases, DeltaOp.target, bind_some]
    split
    · rename_i hview
      rw [hview]
      exact (append_nil _).symm
    · rename_i comp hview
      rw [hview]
      dsimp only [Option.elim]
      congr 1
      rw [filterMap_filter, map_filterMap]
      congr 1
      funext entry
      rw [length_fullLocations, Option.map_map]
      by_cases hrange : entry.1 < comp.chunks.length
      · simp [hrange]
      · simp [hrange]
  | _ => exact (append_nil _).symm

lemma evictions_stageAll (s : Staging) (ops : List DeltaOp) :
    (stageAll st s ops).migratedChunkEvictions =
      s.migratedChunkEvictions ++ (releasedBy st s ops).map fun place => place.2.2 := by
  induction ops generalizing s with
  | nil => exact (append_nil _).symm
  | cons op ops ih =>
    rw [stageAll, foldl_cons, releasedBy, map_append, ← append_assoc, ← evictions_stage]
    exact ih _

lemma count_releases {view : CompositionId → Option Composition}
    {comp : Composition} (hview : view id = some comp) :
    ((op.releases (op.target.bind view)).map fun place => (place.1, place.2.1)).count (id, i) =
      if i < comp.chunks.length then (op.migratedIndices id).count i else 0 := by
  cases op with
  | migrateChunkLocations x poolName slabId entries =>
    simp only [DeltaOp.releases, DeltaOp.migratedIndices, DeltaOp.target, bind_some]
    by_cases hx : x = id
    · subst hx
      rw [hview, if_pos rfl, Option.elim, map_filterMap, count_filterMap, count, countP_map]
      split
      · apply countP_congr
        intro entry _
        have hrange : ∀ {n}, n = i → n < comp.chunks.length := fun h => h ▸ ‹_›
        by_cases hentry : entry.1 = i <;> simp [hentry, hrange]
      · rw [countP_eq_zero]
        intro entry _
        by_cases hentry : entry.1 = i <;> simp_all
    · rw [if_neg hx, count_nil, ite_self, count_eq_zero, List.mem_map]
      rintro ⟨place, hplace, heq⟩
      cases hrow : view x <;> rw [hrow] at hplace
      · cases hplace
      · obtain ⟨entry, _, hentry⟩ := mem_filterMap.1 hplace
        obtain ⟨chunk, _, rfl⟩ := map_eq_some_iff.1 hentry
        exact hx (congrArg Prod.fst heq)
  | _ => simp [DeltaOp.releases, DeltaOp.migratedIndices]

structure Composition.Follows (id : CompositionId) (comp : Composition) (log : List DeltaOp)
    (places : List (CompositionId × Nat × ChunkId)) (row : Composition) : Prop where
  chunks : row.chunks = comp.chunks
  count : ∀ i, (places.map fun place => (place.1, place.2.1)).count (id, i) =
    if i < comp.chunks.length then (log.flatMap (DeltaOp.migratedIndices id)).count i else 0
  cold : ∀ i, row.coldAt i = true → comp.coldAt i = true ∨
    i < comp.chunks.length ∧ i ∈ log.flatMap (DeltaOp.migratedIndices id)

lemma Composition.Follows.stage {comp row : Composition}
    (h : comp.Follows id log places row) (hkeyed : st.storage.Keyed)
    (hview : s.view st.storage id = some row) {op : DeltaOp} (hop : Settled id [op]) :
    ∃ row', (stage st s op).1.view st.storage id = some row' ∧
      comp.Follows id (log ++ [op])
        (places ++ op.releases (op.target.bind (s.view st.storage))) row' := by
  have hcount : ∀ i, ((places ++ op.releases (op.target.bind (s.view st.storage))).map
      fun place => (place.1, place.2.1)).count (id, i) =
      if i < comp.chunks.length then
        ((log ++ [op]).flatMap (DeltaOp.migratedIndices id)).count i else 0 := by
    intro i
    rw [map_append, count_append, h.count, count_releases hview, h.chunks,
      flatMap_append, flatMap_singleton, count_append]
    split <;> rfl
  have hold : ∀ {i}, row.coldAt i = true → comp.coldAt i = true ∨ i < comp.chunks.length ∧
      i ∈ (log ++ [op]).flatMap (DeltaOp.migratedIndices id) := by
    intro i hcold
    rw [flatMap_append]
    exact (h.cold i hcold).imp_right fun ⟨hi, hmem⟩ => ⟨hi, mem_append_left _ hmem⟩
  by_cases htarget : op.target = some id
  · obtain ⟨poolName, slabId, entries, rfl⟩ := hop op (mem_singleton_self op) htarget
    refine ⟨row.migrated poolName slabId entries, ?_, h.chunks, hcount, ?_⟩
    · rw [view_stage_target hkeyed htarget, hview]
      rfl
    · intro i hcold
      obtain ⟨location, hlocation, hiscold⟩ := (any_eq_true _ _).1 hcold
      rcases location_migrated hlocation hiscold with hbefore | ⟨offset, length, hentry, hi, _⟩
      · exact hold ((any_eq_true _ _).2 ⟨location, hbefore, hiscold⟩)
      · rw [h.chunks] at hi
        refine .inr ⟨hi, ?_⟩
        rw [flatMap_append, flatMap_singleton, DeltaOp.migratedIndices, if_pos rfl]
        exact mem_append_right _ (mem_map.2 ⟨_, hentry, rfl⟩)
  · refine ⟨row, ?_, h.chunks, hcount, fun i => hold⟩
    rw [view_stage_of_ne hkeyed htarget, hview]

lemma Composition.Follows.stageAll {comp row : Composition}
    (h : comp.Follows id log places row) (hkeyed : st.storage.Keyed)
    (hview : s.view st.storage id = some row) (ops : List DeltaOp) (hops : Settled id ops) :
    ∃ row', (Compositions.stageAll st s ops).view st.storage id = some row' ∧
      comp.Follows id (log ++ ops) (places ++ releasedBy st s ops) row' := by
  induction ops generalizing log places row s with
  | nil =>
    rw [releasedBy, append_nil, append_nil]
    exact ⟨row, hview, h⟩
  | cons op ops ih =>
    have hop : Settled id [op] := fun d hd => hops d (mem_singleton.1 hd ▸ mem_cons_self)
    obtain ⟨row', hview', h'⟩ := h.stage hkeyed hview hop
    have hrest := ih h' hview' fun d hd => hops d (mem_cons_of_mem op hd)
    rw [append_assoc, append_assoc, singleton_append] at hrest
    exact hrest

lemma Migrated.follows {start : CompositionStore} {comp : Composition}
    (hrun : Migrated start log evicted places st) (hkeyed : start.storage.Keyed)
    (hrow : start.storage.get id = some comp) (hlog : Settled id log) :
    st.storage.Keyed ∧ (∃ row, st.storage.get id = some row ∧ comp.Follows id log places row) ∧
      evicted = places.map fun place => place.2.2 := by
  induction hrun with
  | start =>
    refine ⟨hkeyed, ⟨comp, hrow, rfl, fun i => ?_, fun i hcold => .inl hcold⟩, rfl⟩
    rw [flatMap_nil, count_nil, ite_self]
    rfl
  | @poll log ops evicted places st st' hbefore hhydrates ih =>
    obtain ⟨hst, ⟨row, hget, hfollows⟩, hevicted⟩ := ih fun d hd => hlog d (mem_append_left _ hd)
    refine ⟨keyed_hydrates hst hhydrates, ?_, ?_⟩
    · obtain ⟨row', hview, h'⟩ := hfollows.stageAll hst
        ((Staging.view_empty).trans hget) ops
        fun d hd => hlog d (mem_append_right _ hd)
      have hbare := get_hydrates hst hhydrates id
      rw [hview] at hbare
      obtain ⟨last, hlast, heq⟩ := map_eq_some_iff.1 hbare
      have hlocations : last.bare.chunkLocations = row'.bare.chunkLocations := by rw [heq]
      have hchunks : last.bare.chunks = row'.bare.chunks := by rw [heq]
      refine ⟨last, hlast, hchunks.trans h'.chunks, h'.count, fun i hcold => h'.cold i ?_⟩
      rw [← hcold]
      exact congrArg (fun locations : List ChunkRefLocation =>
        locations[i]?.any ChunkRefLocation.isCold) hlocations.symm
    · rw [map_append, evictions_stageAll, hevicted]
      rfl

/-- Each place is released once if and only if no index is migrated twice. -/
theorem hot_copies_released_once_iff {start : CompositionStore} {comp comp' : Composition}
    (hkeyed : start.storage.Keyed) (hrow : start.storage.get id = some comp)
    (hrun : Migrated start log evicted places st) (hlog : Settled id log)
    (hend : st.storage.get id = some comp') :
    evicted = places.map (fun place => place.2.2) ∧
      ((∀ i, (places.map fun place => (place.1, place.2.1)).count (id, i) ≤ 1 ∧
          (comp.coldAt i = false → comp'.coldAt i = true →
            (places.map fun place => (place.1, place.2.1)).count (id, i) = 1)) ↔
        ∀ i < comp.chunks.length, (log.flatMap (DeltaOp.migratedIndices id)).count i ≤ 1) := by
  obtain ⟨_, ⟨row, hget, hfollows⟩, hevicted⟩ := hrun.follows hkeyed hrow hlog
  obtain rfl := some.inj (hget.symm.trans hend)
  refine ⟨hevicted, ?_, ?_⟩
  · intro hreleased i hi
    have hcount := (hreleased i).1
    rw [hfollows.count, if_pos hi] at hcount
    exact hcount
  · intro honce i
    have hle : (places.map fun place => (place.1, place.2.1)).count (id, i) ≤ 1 := by
      rw [hfollows.count]
      split
      · exact honce i ‹_›
      · exact Nat.zero_le 1
    refine ⟨hle, fun hhot hcold => ?_⟩
    rcases hfollows.cold i hcold with hbefore | ⟨hi, hmem⟩
    · rw [hhot] at hbefore
      cases hbefore
    · have hpos := count_pos_iff.2 hmem
      rw [hfollows.count, if_pos hi] at hle ⊢
      omega

end

def slabRow : CompositionId := ⟨.replicate 16 7⟩

def slabNamespace : Namespace :=
  ⟨⟨.replicate 16 2⟩, ⟨.replicate 16 1⟩, ⟨.replicate 16 1⟩, false, false⟩

def slabStore : CompositionStore := (CompositionStore.new .memory 16).addNamespace slabNamespace

def slabChunk (n : UInt8) : ChunkId := ⟨.replicate 32 n⟩

def slabCreate : Emitted :=
  ⟨.create slabRow slabNamespace.id 2 none (some [1]) none [slabChunk 1], []⟩

def slabMigrate (slab : UInt8) : Emitted :=
  ⟨.migrateChunkLocations slabRow "cold" (Vector.replicate 16 slab) [(0, 0, 1)], [slabChunk 1]⟩

def slabUpdate : Emitted := ⟨.update slabRow 2 [slabChunk 2, slabChunk 3], [slabChunk 1]⟩

def slabPolled (st : CompositionStore) (ops : List DeltaOp) : CompositionStore :=
  CompositionHydrator.commit slabNamespace.shardId st (stageAll st {} ops) 1 none

lemma keyed_slabStore : slabStore.storage.Keyed := fun _ _ h => nomatch h

theorem chunk_vectors_aligned_migrated :
    ((slabPolled slabStore [slabCreate.op, (slabMigrate 5).op]).storage.get slabRow).isSome = true ∧
      ∀ comp, (slabPolled slabStore [slabCreate.op, (slabMigrate 5).op]).storage.get slabRow =
        some comp → comp.Aligned (fun _ => 1) [slabCreate, slabMigrate 5] := by
  have hrun : Hydrated (fun row e => e.Fits (fun _ => 1) row) slabRow slabStore
      ([] ++ [slabCreate, slabMigrate 5])
      (slabPolled slabStore [slabCreate.op, (slabMigrate 5).op]) := by
    refine .poll .start (.commit _ _ _) ⟨fun _ => .inr rfl, fun _ comp hcomp entry hentry _ => ?_,
      trivial⟩
    obtain rfl := mem_singleton.1 hentry
    obtain rfl := some.inj (show some _ = some comp from hcomp)
    rfl
  exact ⟨rfl, chunk_vectors_aligned keyed_slabStore rfl hrun⟩

/-- An update leaves the replaced chunk's length and cold location. -/
theorem update_misaligns_vectors :
    Hydrated (fun _ _ => True) slabRow slabStore ([] ++ [slabCreate, slabMigrate 5, slabUpdate])
        (slabPolled slabStore [slabCreate.op, (slabMigrate 5).op, slabUpdate.op]) ∧
      ∃ comp, (slabPolled slabStore [slabCreate.op, (slabMigrate 5).op,
          slabUpdate.op]).storage.get slabRow = some comp ∧
        comp.chunks = [slabChunk 2, slabChunk 3] ∧ comp.chunkPlaintextLens = [1] ∧
        comp.chunkLocations = [.cold "cold" (Vector.replicate 16 5) 0 1] ∧
        (slabMigrate 5).seen = [slabChunk 1] :=
  ⟨.poll .start (.commit _ _ _) ⟨fun _ => trivial, fun _ => trivial, fun _ => trivial, trivial⟩,
    _, rfl, rfl, rfl, rfl, rfl⟩

def slabHeld : CompositionStore := slabPolled slabStore [slabCreate.op]

lemma keyed_slabHeld : slabHeld.storage.Keyed :=
  keyed_hydrates keyed_slabStore (.commit _ _ _)

lemma settled_slabMigrate (slabs : List UInt8) :
    Settled slabRow (slabs.map fun slab => (slabMigrate slab).op) := by
  intro op hop _
  obtain ⟨slab, _, rfl⟩ := mem_map.1 hop
  exact ⟨_, _, _, rfl⟩

theorem hot_copies_released_once_first :
    ∃ evicted places, Migrated slabHeld ([] ++ [(slabMigrate 5).op]) evicted places
        (slabPolled slabHeld [(slabMigrate 5).op]) ∧
      evicted = [slabChunk 1] ∧
      (places.map fun place => (place.1, place.2.1)).count (slabRow, 0) ≤ 1 := by
  have hhydrates : Hydrates slabHeld [(slabMigrate 5).op]
      (slabPolled slabHeld [(slabMigrate 5).op]) := .commit _ _ _
  have hrun := Migrated.poll .start hhydrates
  refine ⟨_, _, hrun, rfl, ?_⟩
  have honce := (hot_copies_released_once_iff keyed_slabHeld rfl hrun (settled_slabMigrate [5])
    rfl).2.2 ?_
  · exact (honce 0).1
  · intro i hi
    obtain rfl : i = 0 := Nat.lt_one_iff.1 hi
    decide

/-- A second pass over the chunk releases its hot copy again. -/
theorem rewritten_chunk_released_twice :
    ∃ evicted places, Migrated slabHeld ([] ++ [(slabMigrate 5).op, (slabMigrate 6).op]) evicted
        places (slabPolled slabHeld [(slabMigrate 5).op, (slabMigrate 6).op]) ∧
      Settled slabRow [(slabMigrate 5).op, (slabMigrate 6).op] ∧
      evicted = [slabChunk 1, slabChunk 1] ∧
      (places.map fun place => (place.1, place.2.1)).count (slabRow, 0) = 2 :=
  ⟨_, _, .poll .start (.commit _ _ _), settled_slabMigrate [5, 6], rfl, by decide⟩

end Kiseki.Compositions
