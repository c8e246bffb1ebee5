import Kiseki.Composition.Backends
import Kiseki.Composition.Windows
import Kiseki.Lib.LittleEndian
import Kiseki.Lib.Lru
import Mathlib.Data.Fintype.Basic

namespace Kiseki.Compositions
open Intent Function Finmap List Storage

def idLockShards : Nat := 256

def idShard (id : CompositionId) : Nat :=
  LittleEndian.value (id.uuid.toList.take 4) % idLockShards

/-- Between its read and its insert a `get` holds the lock of the id. -/
inductive GetPhase where
  | idle
  | started (id : CompositionId)
  | uncached (id : CompositionId)
  | unpending (id : CompositionId)
  | holding (id : CompositionId) (row : Option Composition)
  | returned (id : CompositionId) (row : Option Composition)

@[simp] def GetPhase.locks : GetPhase → Option Nat
  | .holding id _ => some (idShard id)
  | _ => none

/-- From `merging` to `written` a hydrator drains an id and holds its lock. -/
inductive HydratorPhase where
  | touching (ids : List CompositionId)
  | dropped (id : CompositionId) (rest : List CompositionId)
  | merging (id : CompositionId) (contentType : String) (rest : List CompositionId)
  | writing (row : Composition) (rest : List CompositionId)
  | written (id : CompositionId) (rest : List CompositionId)

namespace HydratorPhase

@[simp] def locks : HydratorPhase → Option Nat
  | .merging id _ _ | .written id _ => some (idShard id)
  | .writing row _ => some (idShard row.id)
  | _ => none

@[simp] def work : HydratorPhase → List CompositionId
  | .touching ids => ids
  | .dropped id rest | .merging id _ rest | .written id rest => id :: rest
  | .writing row rest => row.id :: rest

@[simp] def unsettled : HydratorPhase → List CompositionId
  | .touching ids => ids
  | .dropped _ rest | .merging _ _ rest | .writing _ rest => rest
  | .written id rest => id :: rest

@[simp] def undrained : HydratorPhase → List CompositionId
  | .touching ids => ids
  | .dropped id rest => id :: rest
  | .merging _ _ rest | .writing _ rest | .written _ rest => rest

lemma unsettled_subset (p : HydratorPhase) : p.unsettled ⊆ p.work := by
  cases p <;> simp

end HydratorPhase

def HydrationBatch.touched (batch : HydrationBatch) : List CompositionId :=
  batch.puts.map Composition.id ++ batch.removes

lemma Storage.get_applyHydrationBatch_of_not_touched (s : Storage) (backend : Backend)
    {batch : HydrationBatch} {id : CompositionId} (h : id ∉ batch.touched) :
    (s.applyHydrationBatch backend batch).get id = s.get id := by
  rw [HydrationBatch.touched, mem_append, not_or] at h
  apply get_applyHydrationBatch_of_untouched _ h.2
  intro comp hcomp heq
  exact h.1 (heq ▸ mem_map_of_mem hcomp)

structure Serving (T K : Type) where
  store : CompositionStore
  readCache : Lru.Cache CompositionId Composition
  gets : T → GetPhase
  hydrators : K → HydratorPhase

namespace Serving
variable {T K : Type}

def Free (s : Serving T K) (shard : Nat) : Prop :=
  (∀ t, (s.gets t).locks ≠ some shard) ∧ ∀ k, (s.hydrators k).locks ≠ some shard

instance [Fintype T] [Fintype K] (s : Serving T K) (shard : Nat) : Decidable (s.Free shard) :=
  inferInstanceAs (Decidable (_ ∧ _))

def invalidateCache (s : Serving T K) (id : CompositionId) : Lru.Cache CompositionId Composition :=
  s.readCache.drop fun x => decide (x = id)

def publish (s : Serving T K) (id : CompositionId) :
    Option Composition → Lru.Cache CompositionId Composition
  | some row => s.readCache.put id row
  | none => s.readCache

def drained (s : Serving T K) (id : CompositionId) (rest : List CompositionId) : HydratorPhase :=
  match (s.store.pending.lookup id).bind Composition.contentType with
  | some contentType => .merging id contentType rest
  | none => .touching rest

/-- Nothing is written when the row is gone or has the content type already. -/
def merged (s : Serving T K) (id : CompositionId) (contentType : String)
    (rest : List CompositionId) : HydratorPhase :=
  match s.store.storage.get id with
  | some durable =>
    if durable.contentType = some contentType then .touching rest
    else .writing { durable with contentType := some contentType } rest
  | none => .touching rest

section
variable [DecidableEq T]

def setGet (s : Serving T K) (t : T) (phase : GetPhase)
    (cache : Lru.Cache CompositionId Composition) : Serving T K :=
  { s with readCache := cache, gets := update s.gets t phase }

inductive GetStep (t : T) : Serving T K → Serving T K → Prop
  | start (id : CompositionId) (h : s.gets t = .idle) :
      GetStep t s (s.setGet t (.started id) s.readCache)
  | hit {id : CompositionId} (h : s.gets t = .started id)
      (hrow : (s.readCache.get id).1 = some row) :
      GetStep t s (s.setGet t (.returned id (some row)) (s.readCache.get id).2)
  | miss {id : CompositionId} (h : s.gets t = .started id)
      (hrow : (s.readCache.get id).1 = none) :
      GetStep t s (s.setGet t (.uncached id) (s.readCache.get id).2)
  | overlay {id : CompositionId} (h : s.gets t = .uncached id)
      (hrow : s.store.pending.lookup id = some row) :
      GetStep t s (s.setGet t (.returned id (some row)) s.readCache)
  | noOverlay {id : CompositionId} (h : s.gets t = .uncached id)
      (hrow : s.store.pending.lookup id = none) :
      GetStep t s (s.setGet t (.unpending id) s.readCache)
  | read {id : CompositionId} (h : s.gets t = .unpending id) (hfree : s.Free (idShard id)) :
      GetStep t s (s.setGet t (.holding id (s.store.storage.get id)) s.readCache)
  | publish {id : CompositionId} (h : s.gets t = .holding id row) :
      GetStep t s (s.setGet t (.returned id row) (s.publish id row))
  | finish {id : CompositionId} (h : s.gets t = .returned id row) :
      GetStep t s (s.setGet t .idle s.readCache)

end

section
variable [DecidableEq K]

def setHydrator (s : Serving T K) (k : K) (phase : HydratorPhase) (store : CompositionStore)
    (cache : Lru.Cache CompositionId Composition) : Serving T K :=
  { s with store := store, readCache := cache, hydrators := update s.hydrators k phase }

@[simp] lemma hydrators_setHydrator (s : Serving T K) (k j : K) (phase : HydratorPhase)
    (store : CompositionStore) (cache : Lru.Cache CompositionId Composition) :
    (s.setHydrator k phase store cache).hydrators j = if j = k then phase else s.hydrators j :=
  update_apply ..

/-- For each touched id: `invalidate_cache` without a lock, then `drain_pending` under it. -/
inductive HydrateStep (k : K) : Serving T K → Serving T K → Prop
  | invalidate {id : CompositionId} (h : s.hydrators k = .touching (id :: rest)) :
      HydrateStep k s (s.setHydrator k (.dropped id rest) s.store (s.invalidateCache id))
  | drain {id : CompositionId} (h : s.hydrators k = .dropped id rest)
      (hfree : s.Free (idShard id)) :
      HydrateStep k s
        (s.setHydrator k (s.drained id rest) (s.store.discardVolatile id).1 s.readCache)
  | merge {id : CompositionId} (h : s.hydrators k = .merging id contentType rest) :
      HydrateStep k s (s.setHydrator k (s.merged id contentType rest) s.store s.readCache)
  | write (h : s.hydrators k = .writing row rest) :
      HydrateStep k s (s.setHydrator k (.written row.id rest) (s.store.putRow row) s.readCache)
  | drop {id : CompositionId} (h : s.hydrators k = .written id rest) :
      HydrateStep k s (s.setHydrator k (.touching rest) s.store (s.invalidateCache id))

inductive Commit (k : K) (batch : HydrationBatch) : Serving T K → Serving T K → Prop
  | mk (h : s.hydrators k = .touching []) :
      Commit k batch s (s.setHydrator k (.touching batch.touched)
        { s.store with storage := s.store.storage.applyHydrationBatch s.store.backend batch }
        s.readCache)

end

def Unheld (s : Serving T K) (id : CompositionId) : Prop :=
  ∀ t row, s.gets t = .holding id row → row = s.store.storage.get id

/-- Any interleaving of gets and hydrators, under conditions on drops and batches. -/
inductive Interleave [DecidableEq T] [DecidableEq K] (ok : Serving T K → CompositionId → Prop)
    (may : HydrationBatch → Prop) : Serving T K → Serving T K → Prop
  | get (t : T) (h : GetStep t s s') : Interleave ok may s s'
  | hydrate (k : K) (h : HydrateStep k s s')
      (hok : ∀ id rest, s.hydrators k = .touching (id :: rest) → ok s id) : Interleave ok may s s'
  | commit (k : K) (batch : HydrationBatch) (h : Commit k batch s s') (hmay : may batch) :
      Interleave ok may s s'

abbrev Run [DecidableEq T] [DecidableEq K] (ok : Serving T K → CompositionId → Prop)
    (may : HydrationBatch → Prop) : Serving T K → Serving T K → Prop :=
  Relation.ReflTransGen (Interleave ok may)

abbrev Spares (id : CompositionId) (batch : HydrationBatch) : Prop := id ∉ batch.touched

structure Opened (s : Serving T K) : Prop where
  keyed : s.store.storage.Keyed
  cache : s.readCache.entries = []
  gets : ∀ t, s.gets t = .idle
  hydrators : ∀ k, s.hydrators k = .touching []

structure Fresh (s : Serving T K) (id : CompositionId) : Prop where
  cached : ∀ row, (id, row) ∈ s.readCache.entries → s.store.storage.get id = some row
  held : s.Unheld id

structure Coherent (s : Serving T K) : Prop where
  keyed : s.store.storage.Keyed
  exclusive : ∀ t k shard, (s.gets t).locks = some shard → (s.hydrators k).locks ≠ some shard
  fresh : ∀ id, (∀ k, id ∉ (s.hydrators k).unsettled) → s.Fresh id

variable {s s' : Serving T K} {t : T} {k : K} {id : CompositionId} {row : Option Composition}
  {batch : HydrationBatch}

lemma Opened.coherent (h : s.Opened) : s.Coherent where
  keyed := h.keyed
  exclusive t := by simp [h.gets t]
  fresh id _ := ⟨by simp [h.cache], fun t => by simp [h.gets t]⟩

lemma mem_of_invalidateCache {p : CompositionId × Composition}
    (h : p ∈ (s.invalidateCache id).entries) : p ∈ s.readCache.entries ∧ p.1 ≠ id := by
  obtain ⟨hmem, hne⟩ := Lru.Cache.mem_drop h
  exact ⟨hmem, of_decide_eq_false hne⟩

lemma Unheld.fresh (h : s.Unheld id) : Fresh { s with readCache := s.invalidateCache id } id :=
  ⟨fun _ hmem => absurd rfl (mem_of_invalidateCache hmem).2, h⟩

lemma Coherent.locked (h : s.Coherent) (hlocks : (s.hydrators k).locks = some (idShard id))
    (t : T) : (s.gets t).locks ≠ some (idShard id) := fun hget =>
  h.exclusive t k _ hget hlocks

lemma Coherent.unheld (h : s.Coherent) (hlocks : (s.hydrators k).locks = some (idShard id)) :
    s.Unheld id := by
  intro t row hholding
  exact absurd (by rw [hholding]; rfl) (h.locked hlocks t)

lemma drained_cases (s : Serving T K) (id : CompositionId) (rest : List CompositionId) :
    s.drained id rest = .touching rest ∨ ∃ ct, s.drained id rest = .merging id ct rest := by
  rw [drained]
  split
  · exact .inr ⟨_, rfl⟩
  · exact .inl rfl

lemma merged_cases (s : Serving T K) (id : CompositionId) (contentType : String)
    (rest : List CompositionId) :
    s.merged id contentType rest = .touching rest ∨
      ∃ durable, s.store.storage.get id = some durable ∧
        s.merged id contentType rest =
          .writing { durable with contentType := some contentType } rest := by
  rw [merged]
  split
  · rename_i durable hdurable
    split
    · exact .inl rfl
    · exact .inr ⟨durable, hdurable, rfl⟩
  · exact .inl rfl

section
variable [DecidableEq T]

lemma Coherent.setGet (h : s.Coherent) {phase : GetPhase}
    {cache : Lru.Cache CompositionId Composition}
    (hlocks : ∀ k shard, phase.locks = some shard → (s.hydrators k).locks ≠ some shard)
    (hheld : ∀ id row, phase = .holding id row → row = s.store.storage.get id)
    (hcache : ∀ p ∈ cache.entries, p ∈ s.readCache.entries ∨ s.gets t = .holding p.1 (some p.2)) :
    (s.setGet t phase cache).Coherent where
  keyed := h.keyed
  exclusive := (forall_update_iff s.gets fun _ p => ∀ k shard,
    p.locks = some shard → (s.hydrators k).locks ≠ some shard).2
      ⟨hlocks, fun u _ => h.exclusive u⟩
  fresh := by
    intro id hsettled
    obtain ⟨hcached, hunheld⟩ := h.fresh id hsettled
    constructor
    · intro row hmem
      rcases hcache _ hmem with hmem | hholding
      · exact hcached row hmem
      · exact (hunheld t (some row) hholding).symm
    · exact (forall_update_iff s.gets fun _ p => ∀ row, p = .holding id row →
        row = s.store.storage.get id).2 ⟨hheld id, fun u _ => hunheld u⟩

lemma Coherent.moveGet (h : s.Coherent) {phase : GetPhase} (hphase : phase.locks = none)
    {cache : Lru.Cache CompositionId Composition}
    (hcache : ∀ p ∈ cache.entries, p ∈ s.readCache.entries ∨ s.gets t = .holding p.1 (some p.2)) :
    (s.setGet t phase cache).Coherent :=
  h.setGet (fun _ _ hlocks => by cases hphase.symm.trans hlocks)
    (by rintro id row rfl; cases hphase) hcache

lemma GetStep.coherent (hstep : GetStep t s s') (h : s.Coherent) : s'.Coherent := by
  cases hstep with
  | start | overlay | noOverlay | finish => exact h.moveGet rfl fun p hp => .inl hp
  | hit | miss => exact h.moveGet rfl fun p hp => .inl (Lru.Cache.mem_get hp)
  | read hphase hfree =>
    apply h.setGet _ _ fun p hp => .inl hp
    · intro k shard hlocks
      cases hlocks
      exact hfree.2 k
    · intro id row hheld
      cases hheld
      rfl
  | @publish _ row id hphase =>
    apply h.moveGet rfl
    intro p hp
    cases row with
    | none => exact .inl hp
    | some row =>
      rcases Lru.Cache.mem_put hp with rfl | ⟨hp, _⟩
      · exact .inr hphase
      · exact .inl hp

lemma GetStep.same (hstep : GetStep t s s') :
    s'.store = s.store ∧ s'.hydrators = s.hydrators := by
  cases hstep <;> exact ⟨rfl, rfl⟩

end

section
variable [DecidableEq K]

lemma Coherent.setHydrator (h : s.Coherent) {phase : HydratorPhase} {store : CompositionStore}
    {cache : Lru.Cache CompositionId Composition} (hkeyed : store.storage.Keyed)
    (hlocks : ∀ t shard, phase.locks = some shard → (s.gets t).locks ≠ some shard)
    (hcache : ∀ p ∈ cache.entries, p ∈ s.readCache.entries)
    (hfresh : ∀ id, id ∉ phase.unsettled →
      id ∉ (s.hydrators k).unsettled ∧ store.storage.get id = s.store.storage.get id ∨
        Fresh { s with store := store, readCache := cache } id) :
    (s.setHydrator k phase store cache).Coherent where
  keyed := hkeyed
  exclusive t := (forall_update_iff s.hydrators fun _ p => ∀ shard,
    (s.gets t).locks = some shard → p.locks ≠ some shard).2
      ⟨fun shard hget hphase => hlocks t shard hphase hget, fun j _ => h.exclusive t j⟩
  fresh := by
    intro id hsettled
    obtain ⟨hself, hothers⟩ := (forall_update_iff s.hydrators fun _ p =>
      id ∉ p.unsettled).1 hsettled
    rcases hfresh id hself with ⟨hbefore, hsame⟩ | ⟨hcached, hheld⟩
    · obtain ⟨hcached, hheld⟩ : s.Fresh id := by
        apply h.fresh
        intro j
        by_cases hj : j = k
        · rw [hj]
          exact hbefore
        · exact hothers j hj
      exact ⟨fun row hmem => hsame.trans (hcached row (hcache _ hmem)),
        fun t row hholding => (hheld t row hholding).trans hsame.symm⟩
    · exact ⟨hcached, hheld⟩

lemma HydrateStep.coherent (hstep : HydrateStep k s s')
    (hok : ∀ id rest, s.hydrators k = .touching (id :: rest) → s.Unheld id) (h : s.Coherent) :
    s'.Coherent := by
  cases hstep with
  | @invalidate rest id hphase =>
    apply h.setHydrator h.keyed (by simp) fun p hp => (mem_of_invalidateCache hp).1
    intro x hx
    by_cases hid : x = id
    · subst hid
      exact .inr (hok x rest hphase).fresh
    · simp_all
  | @drain rest id hphase hfree =>
    have hkeyed : (s.store.discardVolatile id).1.storage.Keyed := h.keyed
    rcases s.drained_cases id rest with hdrained | ⟨ct, hdrained⟩
    · rw [hdrained]
      exact h.setHydrator hkeyed (by simp) (fun p hp => hp) fun x hx =>
        .inl ⟨by simpa [hphase], rfl⟩
    · rw [hdrained]
      apply h.setHydrator hkeyed _ (fun p hp => hp) fun x hx => .inl ⟨by simpa [hphase], rfl⟩
      intro t shard hshard
      cases hshard
      exact hfree.1 t
  | @merge contentType rest id hphase =>
    rcases s.merged_cases id contentType rest with hmerged | ⟨durable, hdurable, hmerged⟩
    · rw [hmerged]
      exact h.setHydrator h.keyed (by simp) (fun p hp => hp) fun x hx =>
        .inl ⟨by simpa [hphase], rfl⟩
    · rw [hmerged]
      apply h.setHydrator h.keyed _ (fun p hp => hp) fun x hx => .inl ⟨by simpa [hphase], rfl⟩
      intro t shard hshard
      cases hshard
      rw [h.keyed id durable hdurable]
      exact h.locked (by rw [hphase]; rfl) t
  | @write rest comp hphase =>
    apply h.setHydrator (h.keyed.put comp) _ (fun p hp => hp)
    · intro x hx
      obtain ⟨hne, hx⟩ := ne_and_not_mem_of_not_mem_cons hx
      exact .inl ⟨by simpa [hphase], lookup_insert_of_ne _ hne⟩
    · intro t shard hshard
      cases hshard
      exact h.locked (by rw [hphase]; rfl) t
  | @drop rest id hphase =>
    apply h.setHydrator h.keyed (by simp) fun p hp => (mem_of_invalidateCache hp).1
    intro x hx
    by_cases hid : x = id
    · subst hid
      exact .inr (h.unheld (by rw [hphase]; rfl)).fresh
    · simp_all

lemma Commit.coherent (hstep : Commit k batch s s') (h : s.Coherent) : s'.Coherent := by
  cases hstep with
  | mk hphase =>
    apply h.setHydrator (h.keyed.applyHydrationBatch _ _) (by simp) fun p hp => hp
    intro x hx
    exact .inl ⟨by simp [hphase], get_applyHydrationBatch_of_not_touched _ _ hx⟩

section
variable (hstep : HydrateStep k s s')

include hstep

lemma HydrateStep.work_subset (hkeyed : s.store.storage.Keyed)
    (j : K) : (s'.hydrators j).work ⊆ (s.hydrators j).work := by
  by_cases hj : j = k
  · subst hj
    cases hstep with
    | invalidate hphase | write hphase | drop hphase => simp [hphase]
    | @drain rest x hphase =>
      rcases s.drained_cases x rest with h | ⟨ct, h⟩ <;> simp [hphase, h]
    | @merge ct rest x hphase =>
      rcases s.merged_cases x ct rest with h | ⟨durable, hdurable, h⟩
      · simp [hphase, h]
      · simp [hphase, h, hkeyed x durable hdurable]
  · cases hstep <;> simp [hj]

lemma HydrateStep.get_storage (id : CompositionId) :
    s'.store.storage.get id = s.store.storage.get id ∨
      ∃ comp rest, s.hydrators k = .writing comp rest ∧ comp.id = id ∧
        s'.store.storage.get id = some comp := by
  cases hstep with
  | invalidate | drain | merge | drop => exact .inl rfl
  | @write rest comp hphase =>
    by_cases hid : id = comp.id
    · subst hid
      exact .inr ⟨comp, rest, hphase, rfl, lookup_insert _⟩
    · exact .inl (lookup_insert_of_ne _ hid)

lemma HydrateStep.lookup_pending
    (h : s.store.pending.lookup id = none) : s'.store.pending.lookup id = none := by
  cases hstep with
  | invalidate | merge | write | drop => exact h
  | @drain rest x =>
    by_cases hid : id = x
    · subst hid
      exact lookup_erase id s.store.pending
    · exact (lookup_erase_ne hid).trans h

lemma HydrateStep.undrained (h : id ∈ (s.hydrators k).undrained) :
    id ∈ (s'.hydrators k).undrained ∨ s'.store.pending.lookup id = none := by
  cases hstep with
  | invalidate hphase | write hphase | drop hphase => simp_all
  | @drain rest x hphase =>
    by_cases hid : id = x
    · subst hid
      exact .inr (lookup_erase id s.store.pending)
    · left
      rcases s.drained_cases x rest with hdrained | ⟨ct, hdrained⟩ <;> simp_all
  | @merge ct rest x hphase =>
    left
    rcases s.merged_cases x ct rest with hmerged | ⟨_, _, hmerged⟩ <;> simp_all

lemma HydrateStep.writing {comp : Composition} {rest : List CompositionId}
    (hkeyed : s.store.storage.Keyed)
    (h : s'.hydrators k = .writing comp rest) :
    ∃ durable contentType, s.store.storage.get comp.id = some durable ∧
      comp = { durable with contentType := some contentType } := by
  cases hstep with
  | invalidate | write | drop => simp at h
  | @drain rest x hphase =>
    rcases s.drained_cases x rest with hdrained | ⟨ct, hdrained⟩ <;> simp [hdrained] at h
  | @merge ct rest x hphase =>
    rcases s.merged_cases x ct rest with hmerged | ⟨durable, hdurable, hmerged⟩
    · simp [hmerged] at h
    · simp only [hydrators_setHydrator, if_true, hmerged, HydratorPhase.writing.injEq] at h
      obtain ⟨rfl, _⟩ := h
      refine ⟨durable, ct, ?_, rfl⟩
      rw [hkeyed x durable hdurable]
      exact hdurable

lemma HydrateStep.gets : s'.gets = s.gets := by
  cases hstep <;> rfl

end

lemma Commit.spares (hstep : Commit k batch s s') (hid : id ∉ batch.touched) :
    s'.gets = s.gets ∧ s'.store.pending = s.store.pending ∧
      s'.store.storage.get id = s.store.storage.get id ∧
      ∀ j, id ∈ (s'.hydrators j).work → id ∈ (s.hydrators j).work := by
  cases hstep
  refine ⟨rfl, rfl, get_applyHydrationBatch_of_not_touched _ _ hid, ?_⟩
  intro j hj
  by_cases hjk : j = k <;> simp_all

end

structure Quiet (s : Serving T K) (id : CompositionId) (row : Option Composition) : Prop where
  works : ∀ k, id ∉ (s.hydrators k).work
  overlay : s.store.pending.lookup id = none
  durable : s.store.storage.get id = row

def Answers (s : Serving T K) (t : T) (id : CompositionId) (row : Option Composition) : Prop :=
  ∀ out, s.gets t = .returned id out → out = row

def Drains (s : Serving T K) (k : K) (id : CompositionId) : Prop :=
  id ∈ (s.hydrators k).undrained ∨ s.store.pending.lookup id = none

def untyped (row : Option Composition) : Option Composition :=
  row.map fun comp => { comp with contentType := none }

structure Alone (s : Serving T K) (k : K) (id : CompositionId) (row : Option Composition) :
    Prop where
  others : ∀ j, j ≠ k → id ∉ (s.hydrators j).work
  durable : untyped (s.store.storage.get id) = row
  writing : ∀ comp rest, s.hydrators k = .writing comp rest → comp.id = id →
    untyped (some comp) = row

lemma HydrateStep.alone [DecidableEq K] {j : K} (hstep : HydrateStep j s s')
    (hkeyed : s.store.storage.Keyed) (h : s.Alone k id row) : s'.Alone k id row := by
  refine ⟨fun i hi hmem => h.others i hi (hstep.work_subset hkeyed i hmem), ?_, ?_⟩
  · rcases hstep.get_storage id with hsame | ⟨comp, rest, hphase, hid, hget⟩
    · rw [hsame]
      exact h.durable
    · rw [hget]
      by_cases hj : j = k
      · subst hj
        exact h.writing comp rest hphase hid
      · exact absurd (by simp [hphase, hid]) (h.others j hj)
  · intro comp rest hphase hid
    by_cases hj : k = j
    · subst hj
      obtain ⟨durable, contentType, hdurable, rfl⟩ := hstep.writing hkeyed hphase
      rw [← h.durable, ← hid, hdurable]
      rfl
    · have hsame : s'.hydrators k = s.hydrators k := by cases hstep <;> simp [hj]
      exact h.writing comp rest (hsame ▸ hphase) hid

lemma GetStep.answers [DecidableEq T] {u : T} (hstep : GetStep u s s') (hcoherent : s.Coherent)
    (hquiet : s.Quiet id row) (h : s.Answers t id row) : s'.Answers t id row := by
  have hfresh : s.Fresh id :=
    hcoherent.fresh id fun k hk => hquiet.works k ((s.hydrators k).unsettled_subset hk)
  have hset : ∀ phase cache, (∀ out, phase = GetPhase.returned id out → out = row) →
      (s.setGet u phase cache).Answers t id row := by
    intro phase cache hphase
    exact (forall_update_iff s.gets fun v p => v = t → ∀ out, p = .returned id out →
      out = row).2 ⟨fun _ => hphase, fun v _ hv => hv ▸ h⟩ t rfl
  cases hstep with
  | start | miss | noOverlay | read | finish => exact hset _ _ (by simp)
  | hit hphase hrow =>
    apply hset
    intro out hout
    cases hout
    exact (hfresh.cached _ (Lru.Cache.mem_of_get hrow)).symm.trans hquiet.durable
  | overlay hphase hrow =>
    apply hset
    intro out hout
    cases hout
    rw [hquiet.overlay] at hrow
    cases hrow
  | publish hphase =>
    apply hset
    intro out hout
    cases hout
    exact (hfresh.held u _ hphase).trans hquiet.durable

section
variable [DecidableEq T] [DecidableEq K] {ok : Serving T K → CompositionId → Prop}
  {may : HydrationBatch → Prop}

lemma Interleave.coherent (hstep : Interleave Unheld may s s') (h : s.Coherent) :
    s'.Coherent := by
  cases hstep with
  | get t hget => exact hget.coherent h
  | hydrate k hhydrate hok => exact hhydrate.coherent hok h
  | commit k batch hcommit => exact hcommit.coherent h

lemma Coherent.run (h : s.Coherent) (hrun : Run Unheld may s s') : s'.Coherent := by
  induction hrun with
  | refl => exact h
  | tail _ hstep ih => exact hstep.coherent ih

lemma Interleave.quiet (hstep : Interleave ok (Spares id) s s') (hkeyed : s.store.storage.Keyed)
    (h : s.Quiet id row) : s'.Quiet id row := by
  cases hstep with
  | get t hget =>
    obtain ⟨hstore, hhydrators⟩ := hget.same
    exact ⟨hhydrators ▸ h.works, hstore ▸ h.overlay, hstore ▸ h.durable⟩
  | hydrate k hhydrate =>
    refine ⟨fun j hj => h.works j (hhydrate.work_subset hkeyed j hj),
      hhydrate.lookup_pending h.overlay, ?_⟩
    rcases hhydrate.get_storage id with hsame | ⟨comp, rest, hphase, hid, _⟩
    · exact hsame.trans h.durable
    · exact absurd (by simp [hphase, hid]) (h.works k)
  | commit k batch hcommit hspares =>
    obtain ⟨_, hpending, hget, hwork⟩ := hcommit.spares hspares
    exact ⟨fun j hj => h.works j (hwork j hj), hpending ▸ h.overlay, hget.trans h.durable⟩

lemma Interleave.answers (hstep : Interleave ok (Spares id) s s') (hcoherent : s.Coherent)
    (hquiet : s.Quiet id row) (h : s.Answers t id row) : s'.Answers t id row := by
  cases hstep with
  | get u hget => exact hget.answers hcoherent hquiet h
  | hydrate k hhydrate =>
    rw [Answers, hhydrate.gets]
    exact h
  | commit k batch hcommit hspares =>
    rw [Answers, (hcommit.spares hspares).1]
    exact h

lemma Interleave.drains (hstep : Interleave ok may s s') (h : s.Drains k id) :
    s'.Drains k id := by
  cases hstep with
  | get t hget =>
    obtain ⟨hstore, hhydrators⟩ := hget.same
    rw [Drains, hstore, hhydrators]
    exact h
  | hydrate j hhydrate =>
    rcases h with h | h
    · by_cases hj : k = j
      · subst hj
        exact hhydrate.undrained h
      · left
        cases hhydrate <;> simpa [hj] using h
    · exact .inr (hhydrate.lookup_pending h)
  | commit j batch hcommit =>
    cases hcommit with
    | mk hphase =>
      rcases h with h | h
      · by_cases hj : k = j
        · subst hj
          simp [hphase] at h
        · exact .inl (by simpa [hj] using h)
      · exact .inr h

lemma Drains.run (h : s.Drains k id) (hrun : Run ok may s s') : s'.Drains k id := by
  induction hrun with
  | refl => exact h
  | tail _ hstep ih => exact hstep.drains ih

lemma Interleave.alone (hstep : Interleave ok (Spares id) s s') (hkeyed : s.store.storage.Keyed)
    (h : s.Alone k id row) : s'.Alone k id row := by
  cases hstep with
  | get t hget =>
    obtain ⟨hstore, hhydrators⟩ := hget.same
    exact ⟨hhydrators ▸ h.others, hstore ▸ h.durable, hhydrators ▸ h.writing⟩
  | hydrate j hhydrate => exact hhydrate.alone hkeyed h
  | commit j batch hcommit hspares =>
    obtain ⟨_, _, hget, hwork⟩ := hcommit.spares hspares
    refine ⟨fun i hi hmem => h.others i hi (hwork i hmem), hget ▸ h.durable, ?_⟩
    intro comp rest hphase
    cases hcommit
    by_cases hj : k = j
    · simp [hj] at hphase
    · exact h.writing comp rest (by simpa [hj] using hphase)

lemma Alone.run (h : s.Alone k id row) (hcoherent : s.Coherent)
    (hrun : Run Unheld (Spares id) s s') : s'.Alone k id row := by
  have hall : s'.Coherent ∧ s'.Alone k id row := by
    induction hrun with
    | refl => exact ⟨hcoherent, h⟩
    | tail _ hstep ih => exact ⟨hstep.coherent ih.1, hstep.alone ih.1.keyed ih.2⟩
  exact hall.2

end

end Serving

end Kiseki.Compositions
