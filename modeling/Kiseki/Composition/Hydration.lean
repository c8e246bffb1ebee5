import Kiseki.Composition.Hydrator
import Kiseki.Composition.Presence

namespace Kiseki.Compositions
open Intent CompositionStore Option Nat DeltaOp Prod Staging CompositionHydrator
open List hiding after

def DeltaOp.created : DeltaOp → Option CompositionId
  | .create id _ _ _ _ _ _ => some id
  | _ => none

def DeltaOp.bound : DeltaOp → Option (NameKey × CompositionId × Option PerspectiveSeq)
  | .create id namespaceId _ (some name) _ seq _ => some ((namespaceId, name), id, seq)
  | _ => none

def DeltaOp.target : DeltaOp → Option CompositionId
  | .create id _ _ _ _ _ _ => some id
  | .update id _ _ => some id
  | .delete id => some id
  | .migrateChunkLocations id _ _ _ => some id
  | _ => none

def DeltaOp.chunkRefs : DeltaOp → List ChunkId
  | .create _ _ _ _ _ _ chunkRefs => chunkRefs
  | _ => []

def Composition.updated (comp : Composition) (size : Nat)
    (chunkRefs : List ChunkId) : Composition :=
  { comp with
    chunks := chunkRefs
    size := size
    version := comp.version + 1
    hasInlineData := isInlineData chunkRefs size }

def Composition.migrated (comp : Composition) (poolName : String) (slabId : Uuid)
    (entries : List (Nat × Nat × Nat)) : Composition :=
  { comp with
    chunkLocations :=
      (entries.filter fun entry => decide (entry.1 < (fullLocations comp).length)).foldl
        (fun locations entry => locations.set entry.1 (.cold poolName slabId entry.2.1 entry.2.2))
        (fullLocations comp) }

variable {comp : Composition}

namespace Staging
variable {s : Staging} {storage : Storage} {x id : CompositionId}

lemma find?_filter_ne (puts : List Composition) :
    (puts.filter fun row => decide (row.id ≠ x)).find? (fun row => decide (row.id = id)) =
      if id = x then none else puts.find? fun row => decide (row.id = id) := by
  split
  · next hid =>
    rw [find?_eq_none]
    intro row hrow heq
    exact of_decide_eq_true (mem_filter.1 hrow).2 ((of_decide_eq_true heq).trans hid)
  · next hid =>
    rw [find?_filter]
    congr 1
    funext row
    by_cases hrow : row.id = id
    · simp [hrow, hid]
    · simp [hrow]

lemma view_put (id : CompositionId) :
    (s.put comp).view storage id = if id = comp.id then some comp else s.view storage id := by
  have hmem : id ∈ (s.put comp).removes ↔ id ∈ s.removes ∧ id ≠ comp.id := by
    simp only [put, mem_filter, decide_eq_true_eq]
  have hfind : (s.put comp).puts.find? (fun row => decide (row.id = id)) =
      (if id = comp.id then none else s.puts.find? fun row => decide (row.id = id)).or
        (if comp.id = id then some comp else none) := by
    rw [put, find?_append, find?_filter_ne]
    congr 1
    by_cases hid : comp.id = id
    · simp [hid]
    · simp [hid]
  simp only [view, hfind, hmem]
  by_cases hid : id = comp.id
  · rw [if_pos hid, if_pos hid, if_pos hid.symm, if_neg fun h => h.2 hid]
    rfl
  · rw [if_neg hid, if_neg hid, if_neg (Ne.symm hid), or_none]
    by_cases hremoved : id ∈ s.removes
    · rw [if_pos hremoved, if_pos ⟨hremoved, hid⟩]
    · rw [if_neg hremoved, if_neg fun h => hremoved h.1]

lemma view_remove :
    (s.remove x).view storage id = if id = x then none else s.view storage id := by
  have hmem : id ∈ (s.remove x).removes ↔ id ∈ s.removes ∧ id ≠ x ∨ id = x := by
    simp only [remove, mem_append, mem_filter, decide_eq_true_eq, mem_singleton]
  have hfind : (s.remove x).puts.find? (fun row => decide (row.id = id)) =
      if id = x then none else s.puts.find? fun row => decide (row.id = id) :=
    find?_filter_ne s.puts
  simp only [view, hfind, hmem]
  by_cases hid : id = x
  · rw [if_pos hid, if_pos hid, if_pos (.inr hid)]
  · rw [if_neg hid, if_neg hid]
    by_cases hremoved : id ∈ s.removes
    · rw [if_pos hremoved, if_pos (.inl ⟨hremoved, hid⟩)]
    · rw [if_neg hremoved, if_neg fun h => h.elim (fun h => hremoved h.1) hid]

end Staging

namespace Storage
variable {s : Storage} {id : CompositionId}

lemma get_put : (s.put comp).get id = if id = comp.id then some comp else s.get id :=
  Maps.lookup_insert _ _ _

lemma get_foldl_put {puts : List Composition} (hnodup : (puts.map Composition.id).Nodup) :
    (puts.foldl put s).get id =
      (puts.find? fun comp => decide (comp.id = id)).or (s.get id) := by
  induction puts generalizing s with
  | nil => rfl
  | cons comp puts ih =>
    obtain ⟨hfresh, hrest⟩ := nodup_cons.1 hnodup
    rw [foldl_cons, ih hrest, get_put]
    by_cases hid : id = comp.id
    · have hnone : puts.find? (fun row => decide (row.id = id)) = none := by
        rw [find?_eq_none]
        intro row hrow heq
        exact hfresh (hid ▸ of_decide_eq_true heq ▸ mem_map_of_mem hrow)
      have hfirst : decide (comp.id = id) = true := decide_eq_true hid.symm
      rw [if_pos hid, hnone, find?_cons, hfirst]
      rfl
    · have hfirst : decide (comp.id = id) = false := decide_eq_false (Ne.symm hid)
      rw [if_neg hid, find?_cons, hfirst]

lemma get_foldl_dropRow (backend : Backend) (before s : Storage) (removes : List CompositionId) :
    (removes.foldl (fun t x => dropRow (seenBy backend before t) t x) s).get id =
      if id ∈ removes then none else s.get id := by
  induction removes generalizing s with
  | nil => rw [if_neg not_mem_nil]; rfl
  | cons x removes ih =>
    rw [foldl_cons, ih, get, compositions_dropRow]
    rw [Maps.lookup_erase]
    by_cases hid : id = x
    · rw [hid, if_pos rfl, if_pos mem_cons_self, ite_self]
    · simp only [if_neg hid, mem_cons, or_iff_right hid]
      rfl

lemma get_applyHydrationBatch_view {st : Staging} {backend : Backend}
    (hnodup : (st.puts.map Composition.id).Nodup) {batch : HydrationBatch}
    (hputs : batch.puts = st.puts) (hremoves : batch.removes = st.removes) (id : CompositionId) :
    (s.applyHydrationBatch backend batch).get id = st.view s id := by
  apply rows_after_removes s fun rows => rows.lookup id = st.view s id
  rw [hputs, hremoves]
  exact (get_foldl_dropRow backend s _ st.removes).trans (by rw [get_foldl_put hnodup, view])

end Storage

section
variable {store : CompositionStore} {s s' : Staging} {op : DeltaOp} {id : CompositionId}

lemma DeltaOp.target_of_created (h : op.created = some id) : op.target = some id := by
  cases op with
  | create x namespaceId size name lens seq chunkRefs => exact h
  | _ => cases h

lemma DeltaOp.created_of_bound (h : op.bound = some b) : op.created = some b.2.1 := by
  cases op with
  | create id namespaceId size name lens seq chunkRefs =>
    cases name with
    | some name =>
      cases h
      rfl
    | none => cases h
  | _ => cases h

/-- What a delta makes of its row; `ns` is the namespace a create finds. -/
def DeltaOp.onRow (ns : Option Namespace) (row : Option Composition) : DeltaOp → Option Composition
  | .create id namespaceId size _ lens _ chunkRefs =>
    row.or (ns.map fun ns =>
      { Composition.new ns id chunkRefs (lens.getD []) size with namespaceId := namespaceId })
  | .update _ size chunkRefs =>
    row.map fun comp =>
      if comp.chunks = chunkRefs ∧ comp.size = size then comp else comp.updated size chunkRefs
  | .delete _ => none
  | .migrateChunkLocations _ poolName slabId entries =>
    row.map (Composition.migrated · poolName slabId entries)
  | _ => row

def Staging.namespaceFor (store : CompositionStore) (s : Staging) : DeltaOp → Option Namespace
  | .create _ namespaceId _ _ _ _ _ =>
    (s.namespaceInserts.find? fun ns => decide (ns.id = namespaceId)).or
      (store.namespace? namespaceId)
  | _ => none

variable {x : CompositionId}

lemma Staging.view_empty {storage : Storage} :
    ({} : Staging).view storage x = storage.get x := by
  rw [view, if_neg not_mem_nil]
  exact none_or

lemma Staging.view_id (hkeyed : store.storage.Keyed) {comp : Composition}
    (h : s.view store.storage id = some comp) : comp.id = id := by
  rw [view] at h
  split at h
  · cases h
  · rcases or_eq_some_iff.1 h with hput | ⟨_, hdurable⟩
    · have hfound := find?_some hput
      exact of_decide_eq_true hfound
    · exact hkeyed id comp hdurable

/-- The staged rows stay, a delta's row is put, or a deleted one is removed. -/
def StagesRow (store : CompositionStore) (s : Staging) (op : DeltaOp) (s' : Staging) : Prop :=
  ∃ t, s'.puts = t.puts ∧ s'.removes = t.removes ∧
    (t = s ∧ (∀ x, op.target = some x →
        op.onRow (s.namespaceFor store op) (s.view store.storage x) = s.view store.storage x) ∨
      (∃ comp, t = s.put comp ∧ (store.storage.Keyed → op.target = some comp.id ∧
        op.onRow (s.namespaceFor store op) (s.view store.storage comp.id) = some comp)) ∨
      ∃ x, op = .delete x ∧ t = s.remove x)

lemma StagesRow.same (htarget : op.target = some id)
    (h : op.onRow (s.namespaceFor store op) (s.view store.storage id) = s.view store.storage id) :
    StagesRow store s op s :=
  ⟨s, rfl, rfl, .inl ⟨rfl, fun x hx => by cases htarget.symm.trans hx; exact h⟩⟩

lemma StagesRow.bindName (h : StagesRow store s op s') (namespaceId : NamespaceId)
    (name : Option String) (seq : Option PerspectiveSeq) :
    StagesRow store s op (s'.bindName namespaceId name id seq) := by
  cases name with
  | none => exact h
  | some name => exact h

lemma stageCreate_rows {namespaceId : NamespaceId} {size : Nat} {chunkRefs : List ChunkId} :
    StagesRow store s (.create id namespaceId size name lens seq chunkRefs)
      (stage store s (.create id namespaceId size name lens seq chunkRefs)).1 := by
  simp only [stage, stageCreate]
  split
  · next comp hview => exact (StagesRow.same rfl (by rw [hview]; rfl)).bindName ..
  · next hview =>
    split
    · next hns => exact .same rfl (by rw [onRow, namespaceFor, hns, hview]; rfl)
    · next ns hns =>
      refine StagesRow.bindName ⟨s.put _, rfl, rfl, .inr (.inl ⟨_, rfl, fun _ => ⟨rfl, ?_⟩⟩)⟩ ..
      rw [onRow, namespaceFor, hns]
      exact congrArg (Option.or · _) hview

lemma stageUpdate_rows {size : Nat} {chunkRefs : List ChunkId} :
    StagesRow store s (.update id size chunkRefs)
      (stage store s (.update id size chunkRefs)).1 := by
  simp only [stage, stageUpdate]
  split
  · next hview => exact .same rfl (by rw [hview]; rfl)
  · next comp hview =>
    split
    · next hsame =>
      refine .same rfl ?_
      rw [hview]
      exact congrArg some (if_pos hsame)
    · next hchanged =>
      refine ⟨s.put _, rfl, rfl, .inr (.inl ⟨_, rfl, fun hkeyed => ?_⟩)⟩
      obtain rfl : comp.id = id := view_id hkeyed hview
      refine ⟨rfl, (congrArg (onRow _ · _) hview).trans ?_⟩
      exact congrArg some (if_neg hchanged)

lemma stageMigrate_rows : StagesRow store s (.migrateChunkLocations id poolName slabId entries)
    (stage store s (.migrateChunkLocations id poolName slabId entries)).1 := by
  simp only [stage, stageMigrateChunkLocations]
  split
  · next hview => exact .same rfl (by rw [hview]; rfl)
  · next comp hview =>
    refine ⟨s.put _, rfl, rfl, .inr (.inl ⟨_, rfl, fun hkeyed => ?_⟩)⟩
    obtain rfl : comp.id = id := view_id hkeyed hview
    exact ⟨rfl, congrArg (onRow _ · _) hview⟩

lemma stage_rows (store : CompositionStore) (s : Staging) (op : DeltaOp) :
    StagesRow store s op (stage store s op).1 := by
  cases op with
  | create id namespaceId size name lens seq chunkRefs => exact stageCreate_rows
  | update id size chunkRefs => exact stageUpdate_rows
  | delete id =>
    refine ⟨s.remove id, ?_, ?_, .inr (.inr ⟨id, rfl, rfl⟩)⟩ <;>
    · simp only [stage, stageDelete]
      split <;> rfl
  | migrateChunkLocations id poolName slabId entries => exact stageMigrate_rows
  | namespaceCreate ns => exact ⟨s, rfl, rfl, .inl ⟨rfl, nofun⟩⟩
  | undecodable reason => exact ⟨s, rfl, rfl, .inl ⟨rfl, nofun⟩⟩
  | other => exact ⟨s, rfl, rfl, .inl ⟨rfl, nofun⟩⟩

lemma view_stage (hkeyed : store.storage.Keyed) :
    (stage store s op).1.view store.storage x =
      if op.target = some x then op.onRow (s.namespaceFor store op) (s.view store.storage x)
      else s.view store.storage x := by
  obtain ⟨t, hputs, hremoves, ht⟩ := stage_rows store s op
  rw [view, hputs, hremoves]
  change t.view store.storage x = _
  rcases ht with ⟨rfl, hkept⟩ | ⟨comp, rfl, hrow⟩ | ⟨y, rfl, rfl⟩
  · split
    · exact (hkept x ‹_›).symm
    · rfl
  · obtain ⟨htarget, hrow⟩ := hrow hkeyed
    rw [view_put, htarget]
    by_cases hid : x = comp.id
    · rw [hid, if_pos rfl, if_pos rfl, hrow]
    · rw [if_neg hid, if_neg fun h => hid (some.inj h).symm]
  · simp only [view_remove, target, some.injEq, eq_comm]
    rfl

lemma view_stage_of_ne (hkeyed : store.storage.Keyed) (h : op.target ≠ some id) :
    (stage store s op).1.view store.storage id = s.view store.storage id := by
  rw [view_stage hkeyed, if_neg h]

lemma view_stage_target (hkeyed : store.storage.Keyed) (h : op.target = some id) :
    (stage store s op).1.view store.storage id =
      op.onRow (s.namespaceFor store op) (s.view store.storage id) := by
  rw [view_stage hkeyed, if_pos h]

lemma mem_removes_stage {x : CompositionId} (h : x ∈ (stage store s op).1.removes) :
    x ∈ s.removes ∨ op = .delete x := by
  obtain ⟨t, _, hremoves, ⟨rfl, _⟩ | ⟨comp, rfl, _⟩ | ⟨y, rfl, rfl⟩⟩ := stage_rows store s op
  · exact .inl (hremoves ▸ h)
  · rw [hremoves] at h
    exact .inl (mem_of_mem_filter h)
  · rw [hremoves, remove, mem_append, mem_singleton] at h
    rcases h with h | rfl
    · exact .inl (mem_of_mem_filter h)
    · exact .inr rfl

def Staging.touched (s : Staging) : List CompositionId := s.puts.map Composition.id ++ s.removes

lemma touched_stage (h : id ∈ s.touched) : id ∈ (stage store s op).1.touched := by
  obtain ⟨t, hputs, hremoves, ht⟩ := stage_rows store s op
  rw [touched, hputs, hremoves]
  change id ∈ t.touched
  simp only [touched, List.mem_append, List.mem_map] at h ⊢
  rcases ht with ⟨rfl, _⟩ | ⟨row, rfl, _⟩ | ⟨y, _, rfl⟩
  · exact h
  · by_cases hid : id = row.id
    · exact .inl ⟨row, List.mem_append_right _ (List.mem_singleton_self row), hid.symm⟩
    · rcases h with ⟨comp, hcomp, rfl⟩ | h
      · exact .inl ⟨comp, mem_append_left _ (mem_filter.2 ⟨hcomp, decide_eq_true hid⟩), rfl⟩
      · exact .inr (mem_filter.2 ⟨h, decide_eq_true hid⟩)
  · by_cases hid : id = y
    · exact .inr (mem_append_right _ (mem_singleton.2 hid))
    · rcases h with ⟨comp, hcomp, rfl⟩ | h
      · exact .inl ⟨comp, mem_filter.2 ⟨hcomp, decide_eq_true hid⟩, rfl⟩
      · exact .inr (mem_append_left _ (mem_filter.2 ⟨h, decide_eq_true hid⟩))

lemma stage_transient {reason : String} (h : stage store s op = (s', .transientSkip reason)) :
    s' = s := by
  cases op with
  | create id namespaceId size name lens seq chunkRefs =>
    simp only [stage, stageCreate] at h
    split at h
    · cases h
    · split at h
      · exact (mk.inj h).1.symm
      · cases h
  | update id size chunkRefs =>
    simp only [stage, stageUpdate] at h
    split at h
    · exact (mk.inj h).1.symm
    · split at h <;> cases h
  | delete id => cases h
  | namespaceCreate ns => cases h
  | migrateChunkLocations id poolName slabId entries =>
    simp only [stage, stageMigrateChunkLocations] at h
    split at h <;> cases h
  | undecodable reason => cases h
  | other => cases h

def stageAll (store : CompositionStore) (s : Staging) (ops : List DeltaOp) : Staging :=
  ops.foldl (fun s op => (stage store s op).1) s

lemma nodup_stageAll {ops : List DeltaOp} :
    ((stageAll store {} ops).puts.map Composition.id).Nodup := by
  have hempty : (({} : Staging).puts.map Composition.id).Nodup := nodup_nil
  apply foldlRecOn (motive := fun s : Staging => (s.puts.map Composition.id).Nodup) ops _ hempty
  intro s hs op _
  have hfilter : ∀ x, ((s.puts.filter fun row => decide (row.id ≠ x)).map Composition.id).Nodup :=
    fun x => hs.sublist (List.Sublist.map _ filter_sublist)
  obtain ⟨t, hputs, _, ⟨rfl, _⟩ | ⟨comp, rfl, _⟩ | ⟨x, _, rfl⟩⟩ := stage_rows store s op
  · rw [hputs]
    exact hs
  · rw [hputs, put, map_append, nodup_append]
    apply And.intro (hfilter comp.id) (And.intro (nodup_singleton _) _)
    intro x hx y hy
    obtain ⟨row, hrow, rfl⟩ := mem_map.1 hx
    rw [mem_singleton.1 hy]
    exact of_decide_eq_true (mem_filter.1 hrow).2
  · rw [hputs]
    exact hfilter x

lemma touched_stageAll (first rest : List DeltaOp) :
    id ∈ (stageAll store {} (first ++ .delete id :: rest)).touched := by
  rw [stageAll, foldl_append, foldl_cons]
  apply foldlRecOn (motive := fun s : Staging => id ∈ s.touched) rest
  · exact mem_append_right _ (mem_append_right _ (mem_singleton_self id))
  · exact fun s hs op _ => touched_stage hs

lemma view_stageAll_of_ne (hkeyed : store.storage.Keyed) (ops : List DeltaOp)
    (hops : ∀ op ∈ ops, op.target ≠ some id) :
    (stageAll store s ops).view store.storage id = s.view store.storage id :=
  foldlRecOn (motive := fun t : Staging => t.view store.storage id = _) ops _ rfl
    fun _ ht op hop => (view_stage_of_ne hkeyed (hops op hop)).trans ht

lemma mem_removes_of_touched {storage : Storage} (htouched : id ∈ s.touched)
    (hview : s.view storage id = none) : id ∈ s.removes := by
  rcases mem_append.1 htouched with hput | hremoved
  · by_contra hkept
    obtain ⟨comp, hcomp, hid⟩ := mem_map.1 hput
    rw [view, if_neg hkept, or_eq_none_iff, find?_eq_none] at hview
    exact hview.1 comp hcomp (decide_eq_true hid)
  · exact hremoved

lemma view_stageAll_none (hkeyed : store.storage.Keyed) (h : s.view store.storage id = none)
    (ops : List DeltaOp) (hops : ∀ op ∈ ops, op.created ≠ some id) :
    (stageAll store s ops).view store.storage id = none := by
  apply foldlRecOn (motive := fun s : Staging => s.view store.storage id = none) ops _ h
  intro s hs op hop
  rw [view_stage hkeyed, hs]
  split
  · cases op with
    | create => exact absurd ‹_› (hops _ hop)
    | _ => rfl
  · rfl

end

def DeltaOp.registers : DeltaOp → Option Namespace
  | .namespaceCreate ns => some ns
  | _ => none

section
variable {st : CompositionStore} {s s' : Staging} {ops : List DeltaOp} {id : CompositionId}

/-- A delta stages at most one bind, one unbind or one namespace. -/
structure StagesNames (st : CompositionStore) (s : Staging) (op : DeltaOp) (s' : Staging) :
    Prop where
  inserts : s'.nameInserts = s.nameInserts ∨
    ∃ b, op.bound = some b ∧ s'.nameInserts = s.nameInserts ++ [b]
  removes : s'.nameRemoves = s.nameRemoves ∨
    ∃ id key, op = .delete id ∧ st.storage.nameFor id = some key ∧
      s'.nameRemoves = s.nameRemoves ++ [(key, none)]
  namespaces : s'.namespaceInserts = s.namespaceInserts ++ op.registers.toList

lemma StagesNames.same (hinserts : s'.nameInserts = s.nameInserts)
    (hremoves : s'.nameRemoves = s.nameRemoves)
    (hnamespaces : s'.namespaceInserts = s.namespaceInserts) (hop : op.registers = none) :
    StagesNames st s op s' := by
  apply StagesNames.mk (.inl hinserts) (.inl hremoves)
  rw [hnamespaces, hop]
  exact (append_nil _).symm

lemma stagesNames_bindName (namespaceId : NamespaceId)
    (size : Nat) (name : Option String) (lens : Option (List Nat)) (seq : Option PerspectiveSeq)
    (chunkRefs : List ChunkId) (hinserts : s'.nameInserts = s.nameInserts)
    (hremoves : s'.nameRemoves = s.nameRemoves)
    (hnamespaces : s'.namespaceInserts = s.namespaceInserts) :
    StagesNames st s (.create id namespaceId size name lens seq chunkRefs)
      (s'.bindName namespaceId name id seq) := by
  cases name with
  | none => exact .same hinserts hremoves hnamespaces rfl
  | some name =>
    have hadd : (s'.bindName namespaceId (some name) id seq).nameInserts =
        s.nameInserts ++ [((namespaceId, name), id, seq)] := by
      rw [bindName, hinserts]
    exact ⟨.inr ⟨_, rfl, hadd⟩, .inl hremoves, hnamespaces.trans (append_nil _).symm⟩

section
variable (st : CompositionStore)

lemma stage_names (s : Staging) (op : DeltaOp) : StagesNames st s op (stage st s op).1 := by
  cases op with
  | create id namespaceId size name lens seq chunkRefs =>
    simp only [stage, stageCreate]
    split
    · exact stagesNames_bindName namespaceId size name lens seq chunkRefs rfl rfl rfl
    · split
      · exact .same rfl rfl rfl rfl
      · exact stagesNames_bindName namespaceId size name lens seq chunkRefs rfl rfl rfl
  | update id size chunkRefs =>
    simp only [stage, stageUpdate]
    split
    · exact .same rfl rfl rfl rfl
    · split <;> exact .same rfl rfl rfl rfl
  | delete id =>
    simp only [stage, stageDelete]
    split
    · next key hkey =>
      exact ⟨.inl rfl, .inr ⟨id, key, rfl, hkey, rfl⟩, (append_nil _).symm⟩
    · exact .same rfl rfl rfl rfl
  | namespaceCreate ns => exact ⟨.inl rfl, .inl rfl, rfl⟩
  | migrateChunkLocations id poolName slabId entries =>
    simp only [stage, stageMigrateChunkLocations]
    split <;> exact .same rfl rfl rfl rfl
  | undecodable reason => exact .same rfl rfl rfl rfl
  | other => exact .same rfl rfl rfl rfl

lemma stageAll_concat (op : DeltaOp) :
    stageAll st s (ops ++ [op]) = (stage st (stageAll st s ops) op).1 := by
  rw [stageAll, foldl_append]
  rfl

lemma nameInserts_stageAll (ops : List DeltaOp) :
    List.Sublist (stageAll st {} ops).nameInserts (ops.filterMap DeltaOp.bound) := by
  induction ops using reverseRecOn with
  | nil => exact List.Sublist.slnil
  | append_singleton ops op ih =>
    rw [stageAll_concat, filterMap_append]
    rcases (stage_names st (stageAll st {} ops) op).inserts with hsame | ⟨b, hbound, hadd⟩
    · rw [hsame]
      exact ih.trans (sublist_append_left _ _)
    · have hlast : [op].filterMap DeltaOp.bound = [b] := by
        rw [filterMap_cons, hbound]
        rfl
      rw [hadd, hlast]
      exact List.Sublist.append ih (List.Sublist.refl [b])

end

lemma mem_nameInserts_stageAll (ops : List DeltaOp)
    (h : b ∈ (stageAll st {} ops).nameInserts) : ∃ op ∈ ops, op.bound = some b :=
  mem_filterMap.1 ((nameInserts_stageAll st ops).subset h)

end

def numbered (start : Nat) : List DeltaOp → List HydratorDelta
  | [] => []
  | op :: ops => ⟨start + 1, op⟩ :: numbered (start + 1) ops

section
variable (store : CompositionStore) (retryThreshold : Nat) (priorStuck : Option (Nat × Nat))
  {p : Progress}

lemma pollStep_cases (h : p.stopped = false) (delta : HydratorDelta) :
    ((pollStep store retryThreshold priorStuck p delta).stopped = false ∧
        (pollStep store retryThreshold priorStuck p delta).lastApplied = delta.sequence ∧
        (pollStep store retryThreshold priorStuck p delta).staging =
          (stage store p.staging delta.op).1) ∨
      ((pollStep store retryThreshold priorStuck p delta).stopped = true ∧
        (pollStep store retryThreshold priorStuck p delta).lastApplied = p.lastApplied ∧
        (pollStep store retryThreshold priorStuck p delta).staging = p.staging ∧
        (stage store p.staging delta.op).2 ≠ .applied) := by
  simp only [pollStep, h, Bool.false_eq_true, if_false]
  split
  · rename_i hstage
    exact .inl ⟨rfl, rfl, (congrArg fst hstage).symm⟩
  · rename_i hstage
    exact .inl ⟨rfl, rfl, (congrArg fst hstage).symm⟩
  · rename_i hstage
    generalize (_ : Nat) + 1 = retries
    by_cases hretries : retryThreshold ≤ retries
    · rw [if_pos hretries]
      exact .inl ⟨rfl, rfl, (congrArg fst hstage).symm⟩
    · rw [if_neg hretries]
      exact .inr ⟨rfl, rfl, stage_transient hstage, by rw [hstage]; exact nofun⟩

lemma foldl_pollStep_stopped (h : p.stopped = true) (deltas : List HydratorDelta) :
    deltas.foldl (pollStep store retryThreshold priorStuck) p = p := by
  induction deltas with
  | nil => rfl
  | cons delta deltas ih =>
    have hstep : pollStep store retryThreshold priorStuck p delta = p := if_pos h
    rw [foldl_cons, hstep]
    exact ih

lemma foldl_pollStep (h : p.stopped = false) (ops : List DeltaOp) :
    ∃ n ≤ ops.length,
      ((numbered p.lastApplied ops).foldl (pollStep store retryThreshold priorStuck)
        p).lastApplied =
        p.lastApplied + n ∧
      ((numbered p.lastApplied ops).foldl (pollStep store retryThreshold priorStuck) p).staging =
        stageAll store p.staging (ops.take n) ∧
      ((∀ op ∈ ops, ∀ s, (stage store s op).2 = .applied) → n = ops.length) := by
  induction ops generalizing p with
  | nil => exact ⟨0, le_refl 0, rfl, rfl, fun _ => rfl⟩
  | cons op ops ih =>
    rw [numbered, foldl_cons]
    rcases pollStep_cases store retryThreshold priorStuck h ⟨p.lastApplied + 1, op⟩ with
      ⟨hstopped, hlast, hstaging⟩ | ⟨hstopped, hlast, hstaging, hskipped⟩
    · obtain ⟨n, hn, hlast', hstaging', hall⟩ := ih hstopped
      rw [hlast] at hlast' hstaging'
      refine ⟨n + 1, succ_le_succ hn, ?_, ?_, fun h => ?_⟩
      · rw [hlast', add_assoc, add_comm 1 n]
      · rw [hstaging', hstaging]
        rfl
      · exact congrArg succ (hall (forall_mem_cons.1 h).2)
    · rw [foldl_pollStep_stopped store retryThreshold priorStuck hstopped]
      exact ⟨0, zero_le _, hlast, hstaging, fun h => absurd (h op mem_cons_self _) hskipped⟩

end

inductive Hydrates (st : CompositionStore) : List DeltaOp → CompositionStore → Prop where
  | idle : Hydrates st [] st
  | halt (h : CompositionHydrator) : Hydrates st [] (h.enterHaltMode st).2
  | commit (shardId : ShardId) (lastApplied : Nat) (stuck : Option (Nat × Nat)) :
      Hydrates st ops
        (commit shardId st (stageAll st {} ops) lastApplied stuck)

lemma poll_hydrates (h : CompositionHydrator) (st : CompositionStore) (ops : List DeltaOp)
    (earliestVisible : Option Nat) (hfirst : h.lastAppliedCache ≤ first) :
    ∃ n ≤ ops.length, (0 < n → first = h.lastAppliedCache) ∧
      (h.poll st (numbered first ops) earliestVisible).1.lastAppliedCache =
        h.lastAppliedCache + n ∧
      Hydrates st (ops.take n) (h.poll st (numbered first ops) earliestVisible).2.1 := by
  have hpositive : 0 < 0 → first = h.lastAppliedCache := nofun
  simp only [poll]
  split
  · exact ⟨0, zero_le _, hpositive, rfl, .idle⟩
  · cases ops with
    | nil =>
      simp only [numbered]
      split
      · split
        · exact ⟨0, zero_le _, hpositive, rfl, .halt h⟩
        · exact ⟨0, zero_le _, hpositive, rfl, .idle⟩
      · exact ⟨0, zero_le _, hpositive, rfl, .idle⟩
    | cons op ops =>
      simp only [numbered]
      by_cases hgap : h.lastAppliedCache + 1 < first + 1
      · rw [if_pos hgap]
        exact ⟨0, zero_le _, hpositive, rfl, .halt h⟩
      · rw [if_neg hgap]
        obtain rfl : first = h.lastAppliedCache := by omega
        have hstart : (⟨{}, h.lastAppliedCache, 0, none, false⟩ : Progress).stopped = false := rfl
        obtain ⟨n, hn, hlast, hstaging, _⟩ := foldl_pollStep st h.transientRetryThreshold
          (st.storage.stuckState.lookup h.shardId).join hstart (op :: ops)
        refine ⟨n, hn, fun _ => rfl, hlast, ?_⟩
        dsimp only
        rw [numbered] at hstaging
        rw [hstaging]
        exact .commit h.shardId _ _

def windowBatch (shardId : ShardId) (s : Staging) (lastApplied : Nat)
    (stuck : Option (Nat × Nat)) : HydrationBatch :=
  ⟨shardId, s.puts, s.removes, s.nameInserts, s.nameRemoves, lastApplied, some stuck, none⟩

def committed (shardId : ShardId) (st : CompositionStore) (s : Staging) (lastApplied : Nat)
    (stuck : Option (Nat × Nat)) : CompositionStore :=
  let st := s.namespaceInserts.foldl addNamespace st
  let batch := windowBatch shardId s lastApplied stuck
  { st with storage := st.storage.applyHydrationBatch st.backend batch }

lemma addNamespaces_eq (st : CompositionStore) (inserts : List Namespace) :
    inserts.foldl addNamespace st =
      { st with namespaces := inserts.foldl (fun m ns => m.insert ns.id ns) st.namespaces } := by
  induction inserts generalizing st with
  | nil => rfl
  | cons ns inserts ih => exact ih (st.addNamespace ns)

lemma committed_eq (shardId : ShardId) (st : CompositionStore) (s : Staging) (lastApplied : Nat)
    (stuck : Option (Nat × Nat)) :
    committed shardId st s lastApplied stuck =
      { st with
        namespaces := s.namespaceInserts.foldl (fun m ns => m.insert ns.id ns) st.namespaces
        storage := st.storage.applyHydrationBatch st.backend
          (windowBatch shardId s lastApplied stuck) } := by
  rw [committed, addNamespaces_eq]

lemma commit_eq (shardId : ShardId) (st : CompositionStore) (s : Staging) (lastApplied : Nat)
    (stuck : Option (Nat × Nat)) :
    commit shardId st s lastApplied stuck =
      (s.puts.map Composition.id ++ s.removes).foldl drainPending
        (committed shardId st s lastApplied stuck) := rfl

section
variable {st st' : CompositionStore} {id : CompositionId} {name : Option NameKey}
  {ops : List DeltaOp} {s : Staging} {shardId : ShardId} {lastApplied : Nat}
  {stuck : Option (Nat × Nat)}

lemma keyed_committed (h : st.storage.Keyed) :
    (committed shardId st s lastApplied stuck).storage.Keyed := by
  rw [committed_eq]
  exact h.applyHydrationBatch _ _

lemma get_hydrates (h : st.storage.Keyed) (hhydrates : Hydrates st ops st') (x : CompositionId) :
    (st'.storage.get x).map Composition.bare =
      ((stageAll st {} ops).view st.storage x).map Composition.bare := by
  cases hhydrates with
  | idle => exact congrArg _ (view_empty).symm
  | halt hydrator =>
    exact congrArg _
      (Storage.get_applyHydrationBatch_view nodup_stageAll rfl rfl x)
  | commit shardId lastApplied stuck =>
    rw [commit_eq, bare_drainAll (keyed_committed h), committed_eq]
    exact congrArg _
      (Storage.get_applyHydrationBatch_view nodup_stageAll rfl rfl x)

lemma lookup_pending_hydrates (h : st.storage.Keyed) (hhydrates : Hydrates st ops st')
    (hcomp : st'.pending.lookup id = some comp) : st.pending.lookup id = some comp := by
  cases hhydrates with
  | idle => exact hcomp
  | halt hydrator => exact hcomp
  | commit shardId lastApplied stuck =>
    have hbefore := lookup_pending_drainAll (keyed_committed h) hcomp
    rw [committed_eq] at hbefore
    exact hbefore

def Named (name : Option NameKey) (id : CompositionId) (ops : List DeltaOp) : Prop :=
  ∀ op ∈ ops, ∀ b, op.bound = some b → b.2.1 = id → name = some b.1

lemma Named.stageAll (h : Named name id ops) :
    ∀ b ∈ (stageAll st {} ops).nameInserts, b.2.1 = id → name = some b.1 := by
  intro b hb
  obtain ⟨op, hop, hbound⟩ := mem_nameInserts_stageAll ops hb
  exact h op hop b hbound

lemma Named.ofUnbound (h : ∀ op ∈ ops, ∀ b, op.bound = some b → b.2.1 ≠ id) :
    Named name id ops := fun op hop b hbound hid => absurd hid (h op hop b hbound)

lemma Tidy.ofCommitted (h : Tidy name id st)
    (hinserts : ∀ b ∈ s.nameInserts, b.2.1 = id → name = some b.1) :
    Tidy name id (committed shardId st s lastApplied stuck) := by
  rw [committed_eq]
  exact ⟨h.keyed.applyHydrationBatch _ _, h.overlayKeyed, h.bound.applyHydrationBatch _ hinserts,
    h.overlayBound⟩

lemma Tidy.hydrates (h : Tidy name id st) (hhydrates : Hydrates st ops st')
    (hnamed : Named name id ops) : Tidy name id st' := by
  cases hhydrates with
  | idle => exact h
  | halt hydrator =>
    exact ⟨h.keyed.applyHydrationBatch _ _, h.overlayKeyed,
      h.bound.applyHydrationBatch _ fun _ hb => absurd hb not_mem_nil, h.overlayBound⟩
  | commit shardId lastApplied stuck =>
    rw [commit_eq]
    exact (h.ofCommitted hnamed.stageAll).drainAll _

lemma unbound_hydrates (h : Tidy name id st) (hhydrates : Hydrates st ops st')
    (hops : ∀ op ∈ ops, ∀ b, op.bound = some b → b.2.1 ≠ id)
    (hunbound : st.storage.Unbound id ∨ id ∈ (stageAll st {} ops).removes) :
    st'.storage.Unbound id := by
  cases hhydrates with
  | idle => exact hunbound.resolve_right not_mem_nil
  | halt hydrator =>
    exact (hunbound.resolve_right not_mem_nil).applyHydrationBatch _
      fun _ hb => absurd hb not_mem_nil
  | commit shardId lastApplied stuck =>
    have hinserts : ∀ b ∈ (stageAll st {} ops).nameInserts, b.2.1 ≠ id := by
      intro b hb
      obtain ⟨op, hop, hbound⟩ := mem_nameInserts_stageAll ops hb
      exact hops op hop b hbound
    rw [commit_eq]
    apply drainAll_induct (P := fun t => t.storage.Unbound id) (fun _ _ ht => ht)
      (fun _ _ ht _ => ht) (keyed_committed h.keyed)
    rw [committed_eq]
    rcases hunbound with hunbound | hremoved
    · exact hunbound.applyHydrationBatch _ hinserts
    · exact h.bound.applyHydrationBatch_remove hremoved hinserts

lemma Undurable.hydrates (h : Undurable id st) (htidy : Tidy name id st)
    (hhydrates : Hydrates st ops st') (hops : ∀ op ∈ ops, op.created ≠ some id) :
    Undurable id st' := by
  constructor
  · have hget := get_hydrates htidy.keyed hhydrates id
    have hview : ({} : Staging).view st.storage id = none :=
      (view_empty).trans h.row
    rw [view_stageAll_none htidy.keyed hview ops hops] at hget
    exact map_eq_none_iff.1 hget
  · apply unbound_hydrates htidy hhydrates _ (.inl h.unbound)
    rintro op hop b hbound rfl
    exact hops op hop (created_of_bound hbound)

lemma Unpending.hydrates (h : Unpending id st) (htidy : Tidy name id st)
    (hhydrates : Hydrates st ops st') : Unpending id st' := by
  cases hhydrates with
  | idle => exact h
  | halt hydrator => exact ⟨h.overlay, h.overlayUnbound⟩
  | commit shardId lastApplied stuck =>
    rw [commit_eq]
    apply Unpending.drainAll _ (keyed_committed htidy.keyed)
    rw [committed_eq]
    exact ⟨h.overlay, h.overlayUnbound⟩

lemma Gone.hydrates (h : Gone id st) (htidy : Tidy name id st)
    (hhydrates : Hydrates st ops st') (hops : ∀ op ∈ ops, op.created ≠ some id) : Gone id st' :=
  ⟨h.toUndurable.hydrates htidy hhydrates hops, h.toUnpending.hydrates htidy hhydrates⟩

lemma Tidy.hydrates_delete (h : Tidy name id st) (hhydrates : Hydrates st ops st')
    (hdelete : ops = before ++ .delete id :: after)
    (hafter : ∀ op ∈ after, op.created ≠ some id)
    (hunnamed : ∀ op ∈ ops, ∀ b, op.bound = some b → b.2.1 ≠ id) : Gone id st' := by
  have hview : (stageAll st {} ops).view st.storage id = none := by
    rw [hdelete, stageAll, foldl_append, foldl_cons]
    apply view_stageAll_none h.keyed _ after hafter
    exact view_stage_target h.keyed rfl
  have htouched : id ∈ (stageAll st {} ops).touched := hdelete ▸ touched_stageAll before after
  constructor
  · refine ⟨?_, unbound_hydrates h hhydrates hunnamed
      (.inr (mem_removes_of_touched htouched hview))⟩
    have hget := get_hydrates h.keyed hhydrates id
    rw [hview] at hget
    exact map_eq_none_iff.1 hget
  · cases hhydrates with
    | idle => simp at hdelete
    | halt hydrator => simp at hdelete
    | commit shardId lastApplied stuck =>
      exact (h.ofCommitted (Named.stageAll (.ofUnbound hunnamed))).drainAll_self htouched

lemma HoldsChunks.hydrates {chunks : List ChunkId} (h : HoldsChunks id chunks st)
    (hkeyed : st.storage.Keyed) (hhydrates : Hydrates st ops st')
    (hops : ∀ op ∈ ops, op.target = some id →
      op = .delete id ∨ op.created = some id ∧ op.chunkRefs = chunks) :
    HoldsChunks id chunks st' := by
  refine ⟨fun comp hcomp => h.overlay comp (lookup_pending_hydrates hkeyed hhydrates hcomp), ?_⟩
  have hview : ∀ comp, (stageAll st {} ops).view st.storage id = some comp →
      comp.chunks = chunks := by
    apply foldlRecOn (motive := fun s : Staging => ∀ comp, s.view st.storage id = some comp →
      comp.chunks = chunks) ops
    · exact fun comp hcomp => h.durable comp ((view_empty).symm.trans hcomp)
    · intro s hs op hop comp hcomp
      rw [view_stage hkeyed] at hcomp
      split at hcomp
      · rename_i htarget
        rcases hops op hop htarget with rfl | ⟨hcreated, hrefs⟩
        · cases hcomp
        · cases op with
          | create x namespaceId size name lens seq chunkRefs =>
            rcases or_eq_some_iff.1 hcomp with hold | ⟨_, hnew⟩
            · exact hs comp hold
            · obtain ⟨ns, _, rfl⟩ := map_eq_some_iff.1 hnew
              exact hrefs
          | _ => cases hcreated
      · exact hs comp hcomp
  intro comp hcomp
  have hget := get_hydrates hkeyed hhydrates id
  rw [hcomp] at hget
  obtain ⟨row, hrow, heq⟩ := map_eq_some_iff.1 hget.symm
  exact (congrArg Composition.chunks heq).symm.trans (hview row hrow)

end

end Kiseki.Compositions
