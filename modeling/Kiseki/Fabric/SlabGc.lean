import Kiseki.Fabric.Release
import Kiseki.Fabric.Slab

namespace Kiseki.Fabric

open Kiseki.Chunk List

/-- The extent table of `encode_slab`: each chunk that is packed has one reference. -/
def packExtents (offset : UInt64) : List (ChunkId × Bytes) → Except ChunkError (List SlabExtent)
  | [] => .ok []
  | (id, data) :: chunks =>
    if data.length < 2 ^ 32 then
      (packExtents (offset + UInt64.ofNat data.length) chunks).map
        (⟨id, offset, UInt32.ofNat data.length, 1⟩ :: ·)
    else .error .ecInvalidConfig

def decrement (extents : List SlabExtent) (id : ChunkId) : List SlabExtent :=
  match extents with
  | [] => []
  | e :: extents =>
    if e.chunkId = id then
      { e with refcount := if e.refcount = 0 then 0 else e.refcount - 1 } :: extents
    else e :: decrement extents id

namespace SlabState

def decrementRefcount (slabId : SlabId) (st : SlabState) (id : ChunkId) :
    Except FabricError Unit × SlabState :=
  match st.extents slabId with
  | none => (.error (.chunk (.slabNotFound slabId.uuid)), st)
  | some extents =>
    if id ∈ extents.map SlabExtent.chunkId then
      (.ok (), { st with refs := st.refs.insert slabId (extentBytes (decrement extents id)) })
    else (.ok (), st)

def gcSlab (cfg : ClusterCfg) (reached : NodeId → Bool) (st : SlabState) (slabId : SlabId) :
    SlabState :=
  match st.extents slabId with
  | none => st
  | some extents =>
    if ∀ e ∈ extents, e.refcount = 0 then
      ⟨(cfg.deleteDistributed reached st.cluster (slabIdAsChunkId slabId)).2, st.refs.erase slabId⟩
    else st

end SlabState

section
variable {extents : List SlabExtent} {slabId : SlabId} {chunks : List (ChunkId × Bytes)}

lemma packExtents_ok {offset : UInt64} (h : packExtents offset chunks = .ok extents) :
    extents.map SlabExtent.chunkId = chunks.map Prod.fst ∧ ∀ e ∈ extents, e.refcount = 1 := by
  induction chunks generalizing offset extents with
  | nil =>
    cases h
    exact ⟨rfl, nofun⟩
  | cons c chunks ih =>
    rw [packExtents] at h
    split at h
    · cases hrest : packExtents (offset + UInt64.ofNat c.2.length) chunks with
      | error err => rw [hrest] at h; cases h
      | ok rest =>
        rw [hrest] at h
        cases h
        obtain ⟨hids, hones⟩ := ih hrest
        exact ⟨congrArg (c.1 :: ·) hids, forall_mem_cons.2 ⟨rfl, hones⟩⟩
    · cases h

lemma foldl_decrement_cons (e : SlabExtent) (extents : List SlabExtent) (ds : List ChunkId)
    (he : e.refcount = 0 ∨ e.refcount = 1) : ∃ e' : SlabExtent,
    ds.foldl decrement (e :: extents) = e' :: (ds.filter (· ≠ e.chunkId)).foldl decrement extents ∧
      (e'.refcount = 0 ↔ e.refcount = 0 ∨ e.chunkId ∈ ds) := by
  induction ds generalizing e extents with
  | nil => exact ⟨e, rfl, by simp only [not_mem_nil, or_false]⟩
  | cons id ds ih =>
    rw [foldl_cons, decrement]
    by_cases heq : e.chunkId = id
    · subst heq
      have hdec : (if e.refcount = 0 then 0 else e.refcount - 1) = 0 := by
        rcases he with he | he <;> rw [he] <;> rfl
      obtain ⟨e', hfold, hzero⟩ := ih { e with refcount := 0 } extents (.inl rfl)
      refine ⟨e', ?_, hzero.trans (by simp only [true_or, mem_cons, or_true])⟩
      rw [if_pos rfl, hdec, hfold, filter_cons,
        if_neg (by simp only [ne_eq, not_true, decide_false, Bool.false_eq_true,
          not_false_eq_true])]
    · obtain ⟨e', hfold, hzero⟩ := ih e (decrement extents id) he
      refine ⟨e', ?_, hzero.trans (by simp only [mem_cons, heq, false_or])⟩
      rw [if_neg heq, hfold, filter_cons, if_pos (decide_eq_true (Ne.symm heq)), foldl_cons]

/-- A second extent of a chunk keeps its reference. -/
lemma unreferenced_iff (h : ∀ e ∈ extents, e.refcount = 1) (ds : List ChunkId) :
    (∀ e ∈ ds.foldl decrement extents, e.refcount = 0) ↔
      (extents.map SlabExtent.chunkId).Nodup ∧ extents.map SlabExtent.chunkId ⊆ ds := by
  induction extents generalizing ds with
  | nil =>
    have hnil : ds.foldl decrement [] = [] := by
      induction ds with
      | nil => rfl
      | cons _ _ ih => exact ih
    rw [hnil]
    exact ⟨fun _ => ⟨.nil, nil_subset _⟩, fun _ => nofun⟩
  | cons e extents ih =>
    obtain ⟨he, h⟩ := forall_mem_cons.1 h
    obtain ⟨e', hfold, hzero⟩ := foldl_decrement_cons e extents ds (.inr he)
    have hsub (ids : List ChunkId) :
        ids ⊆ ds.filter (· ≠ e.chunkId) ↔ ids ⊆ ds ∧ e.chunkId ∉ ids := by
      constructor
      · intro hids
        exact ⟨fun id hid => mem_of_mem_filter (hids hid), fun hmem =>
          of_decide_eq_true (mem_filter.1 (hids hmem)).2 rfl⟩
      · intro ⟨hids, hnot⟩ id hid
        exact mem_filter.2 ⟨hids hid, decide_eq_true (ne_of_mem_of_not_mem hid hnot)⟩
    have hone : ¬e.refcount = 0 := by
      rw [he]
      decide
    rw [hfold, forall_mem_cons, ih h, hzero, map_cons, nodup_cons, cons_subset, hsub]
    tauto

namespace SlabState
variable {st : SlabState}

lemma extents_decrementRefcount (h : st.extents slabId = some extents) (id : ChunkId) :
    (decrementRefcount slabId st id).2.extents slabId = some (decrement extents id) := by
  rw [decrementRefcount, h]
  simp only
  split
  · exact extents_insert st slabId _
  · next hnot =>
    rw [h]
    congr 1
    clear h
    induction extents with
    | nil => rfl
    | cons e extents ih =>
      rw [map_cons, mem_cons, not_or] at hnot
      rw [decrement, if_neg (Ne.symm hnot.1), ← ih hnot.2]

lemma extents_gcSlab {cfg : ClusterCfg} {reached : NodeId → Bool}
    (h : st.extents slabId = some extents) :
    (gcSlab cfg reached st slabId).extents slabId = none ↔ ∀ e ∈ extents, e.refcount = 0 := by
  rw [gcSlab, h]
  simp only
  split
  · next hzero =>
    rw [SlabState.extents, Finmap.lookup_erase]
    exact ⟨fun _ => hzero, fun _ => rfl⟩
  · next hsome =>
    rw [h]
    exact ⟨by simp, fun hzero => absurd hzero hsome⟩

def decrementEach (slabId : SlabId) (st : SlabState) (ds : List ChunkId) : SlabState :=
  ds.foldl (fun st id => (decrementRefcount slabId st id).2) st

lemma extents_decrementEach (h : st.extents slabId = some extents) (ds : List ChunkId) :
    (decrementEach slabId st ds).extents slabId = some (ds.foldl decrement extents) := by
  induction ds generalizing st extents with
  | nil => exact h
  | cons id ds ih => exact ih (extents_decrementRefcount h id)

/-- One decrement per chunk removes the slab exactly without repeated chunks. -/
theorem slab_removed_iff (chunks : List (ChunkId × Bytes)) (cfg : ClusterCfg)
    (reached : NodeId → Bool) (st : SlabState) (slabId : SlabId)
      (hpack : packExtents 0 chunks = .ok extents)
    (hst : st.extents slabId = some extents) :
    (∀ ds, ds <+~ chunks.map Prod.fst →
      ((gcSlab cfg reached (decrementEach slabId st ds) slabId).extents slabId = none ↔
        ds.length = chunks.length)) ↔ (chunks.map Prod.fst).Nodup := by
  obtain ⟨hids, hones⟩ := packExtents_ok hpack
  have hremoved (ds : List ChunkId) :
      (gcSlab cfg reached (decrementEach slabId st ds) slabId).extents slabId = none ↔
        (chunks.map Prod.fst).Nodup ∧ chunks.map Prod.fst ⊆ ds := by
    rw [extents_gcSlab (extents_decrementEach hst ds), unreferenced_iff hones, hids]
  constructor
  · intro h
    exact ((hremoved _).1 ((h _ (.refl _)).2 (length_map _))).1
  · intro hnodup ds hds
    have hle : ds.length ≤ chunks.length := hds.length_le.trans_eq (length_map _)
    refine (hremoved ds).trans ⟨fun ⟨_, hsub⟩ => ?_, fun hlen => ⟨hnodup, ?_⟩⟩
    · exact hle.antisymm ((length_map _).ge.trans (hnodup.subperm hsub).length_le)
    · exact (hds.perm_of_length_le (by rw [length_map, hlen])).symm.subset

def packed (id : ChunkId) : List SlabExtent := [⟨id, 0, 1, 1⟩, ⟨small.chunkId, 1, 2, 1⟩]

def collected (id : ChunkId) (ds : List ChunkId) : Option (List SlabExtent) :=
  let slabId := (smallSlab []).id
  let st := { blankSlabs with refs := blankSlabs.refs.insert slabId (extentBytes (packed id)) }
  (gcSlab thirdNode (fun _ => true) (decrementEach slabId st ds) slabId).extents slabId

theorem slab_removed_two :
    collected ⟨.replicate 32 9⟩ [small.chunkId, ⟨.replicate 32 9⟩] = none :=
  ((slab_removed_iff [(_, [1]), (_, [2, 3])] thirdNode (fun _ => true) _ _ rfl
    (extents_insert _ _ (packed _))).2 (by decide) _ (Perm.swap _ _ _).subperm).2 rfl

/-- The second extent of a chunk that is packed twice keeps its reference. -/
theorem slab_packed_twice :
    packExtents 0 [(small.chunkId, [1]), (small.chunkId, [2, 3])] = .ok (packed small.chunkId) ∧
    collected small.chunkId [small.chunkId, small.chunkId] =
      some [⟨small.chunkId, 0, 1, 0⟩, ⟨small.chunkId, 1, 2, 1⟩] :=
  ⟨rfl, by decide +kernel⟩

end SlabState

end

end Kiseki.Fabric
