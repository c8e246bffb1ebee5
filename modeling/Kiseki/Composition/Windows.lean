import Kiseki.Composition.Hydration
import Kiseki.Composition.NameIndex

namespace Kiseki.Compositions
open Intent Pairing CompositionStore List Nat Storage Prod CompositionHydrator DeltaOp

/-- What a log makes of a node: rows, name index and namespaces. -/
@[ext]
structure Replica where
  rows : Finmap fun _ : CompositionId => Composition
  index : Index NameKey CompositionId PerspectiveSeq
  namespaces : Finmap fun _ : NamespaceId => Namespace

namespace Replica

def putRow (r : Replica) (comp : Composition) : Replica :=
  { r with rows := r.rows.insert comp.id comp }

def bindName (r : Replica) (namespaceId : NamespaceId) (name : Option String) (id : CompositionId)
    (seq : Option PerspectiveSeq) : Replica :=
  match name with
  | some name => { r with index := r.index.offer lwwAcceptsBind ((namespaceId, name), id, seq) }
  | none => r

def apply (r : Replica) : DeltaOp → Replica
  | .create id namespaceId size name lens seq chunkRefs =>
    match r.rows.lookup id with
    | some _ => r.bindName namespaceId name id seq
    | none =>
      match r.namespaces.lookup namespaceId with
      | none => r
      | some ns =>
        let comp := { Composition.new ns id chunkRefs (lens.getD []) size with
          namespaceId := namespaceId }
        (r.putRow comp).bindName namespaceId name id seq
  | .update id size chunkRefs =>
    match r.rows.lookup id with
    | none => r
    | some comp =>
      if comp.chunks = chunkRefs ∧ comp.size = size then r
      else r.putRow (comp.updated size chunkRefs)
  | .delete id => { r with rows := r.rows.erase id, index := r.index.release id }
  | .namespaceCreate ns => { r with namespaces := r.namespaces.insert ns.id ns }
  | .migrateChunkLocations id poolName slabId entries =>
    match r.rows.lookup id with
    | none => r
    | some comp => r.putRow (comp.migrated poolName slabId entries)
  | .undecodable _ => r
  | .other => r

end Replica

def CompositionStore.replica (st : CompositionStore) : Replica :=
  ⟨st.storage.compositions, st.storage.index, st.namespaces⟩

def DeltaOp.deleted : DeltaOp → Option CompositionId
  | .delete id => some id
  | _ => none

/-- No delta of the window depends on the names that another one changes. -/
structure Separate (st : CompositionStore) (ops : List DeltaOp) : Prop where
  unnamed : ops.Pairwise fun op op' => ∀ b ∈ op.bound, op'.deleted ≠ some b.2.1
  kept : ∀ op ∈ ops, ∀ id ∈ op.deleted, ∀ op' ∈ ops, ∀ b ∈ op'.bound,
    st.storage.nameLookup b.1 ≠ some id
  apart : st.backend = .fjall →
    (ops.filterMap bound).Pairwise st.storage.index.Apart ∧
      ∀ b ∈ ops.filterMap bound, b.2.1 ∉ ops.filterMap deleted

/-- Moreover no namespace is registered in two ways. -/
structure Orderly (st : CompositionStore) (ops : List DeltaOp) : Prop extends Separate st ops where
  registered : ops.Pairwise fun op op' =>
    ∀ ns ∈ op.registers, ∀ ns' ∈ op'.registers, ns.id = ns'.id → ns = ns'

instance (st : CompositionStore) (ops : List DeltaOp) : Decidable (Separate st ops) :=
  decidable_of_iff
    ((ops.Pairwise fun op op' => ∀ b ∈ op.bound, op'.deleted ≠ some b.2.1) ∧
      (∀ op ∈ ops, ∀ id ∈ op.deleted, ∀ op' ∈ ops, ∀ b ∈ op'.bound,
        st.storage.nameLookup b.1 ≠ some id) ∧
      (st.backend = .fjall → (ops.filterMap bound).Pairwise st.storage.index.Apart ∧
        ∀ b ∈ ops.filterMap bound, b.2.1 ∉ ops.filterMap deleted))
    ⟨fun h => ⟨h.1, h.2.1, h.2.2⟩, fun h => ⟨h.unnamed, h.kept, h.apart⟩⟩

instance (st : CompositionStore) (ops : List DeltaOp) : Decidable (Orderly st ops) :=
  decidable_of_iff
    (Separate st ops ∧ ops.Pairwise fun op op' =>
      ∀ ns ∈ op.registers, ∀ ns' ∈ op'.registers, ns.id = ns'.id → ns = ns')
    ⟨fun h => ⟨h.1, h.2⟩, fun h => ⟨h.toSeparate, h.registered⟩⟩

section
variable {st : CompositionStore} {s : Staging} {ops : List DeltaOp} {id : CompositionId}

section
variable (st : CompositionStore)

lemma namespaceInserts_stageAll :
    (stageAll st {} ops).namespaceInserts = ops.filterMap registers := by
  induction ops using reverseRecOn with
  | nil => rfl
  | append_singleton ops op ih =>
    rw [stageAll_concat, (stage_names st _ op).namespaces, ih, filterMap_append]
    congr 1

lemma mem_nameRemoves_stageAll (ops : List DeltaOp) :
    ∀ u ∈ (stageAll st {} ops).nameRemoves, u.2 = none ∧
      ∃ id, .delete id ∈ ops ∧ st.storage.nameFor id = some u.1 := by
  induction ops using reverseRecOn with
  | nil =>
    intro u hu
    cases hu
  | append_singleton ops op ih =>
    have hold : ∀ u ∈ (stageAll st {} ops).nameRemoves, u.2 = none ∧
        ∃ id, .delete id ∈ ops ++ [op] ∧ st.storage.nameFor id = some u.1 := by
      intro u hu
      obtain ⟨hnone, id, hid, hname⟩ := ih u hu
      exact ⟨hnone, id, mem_append_left _ hid, hname⟩
    rw [stageAll_concat]
    rcases (stage_names st (stageAll st {} ops) op).removes with
      hsame | ⟨id, key, hop, hname, hadd⟩
    · rw [hsame]
      exact hold
    · rw [hadd]
      refine forall_mem_append.2 ⟨hold, forall_mem_singleton.2 ?_⟩
      exact ⟨rfl, id, mem_append_right _ (mem_singleton.2 hop.symm), hname⟩

end

lemma Separate.before {ops' : List DeltaOp} (h : Separate st (ops ++ ops')) : Separate st ops where
  unnamed := (pairwise_append.1 h.unnamed).1
  kept := fun op hop id hid op' hop' =>
    h.kept op (mem_append_left _ hop) id hid op' (mem_append_left _ hop')
  apart := by
    intro hfjall
    obtain ⟨hbinds, hdeletes⟩ := h.apart hfjall
    rw [filterMap_append] at hbinds hdeletes
    rw [filterMap_append] at hdeletes
    apply And.intro (pairwise_append.1 hbinds).1
    intro b hb hdeleted
    exact hdeletes b (mem_append_left _ hb) (mem_append_left _ hdeleted)

lemma Orderly.before {ops' : List DeltaOp} (h : Orderly st (ops ++ ops')) : Orderly st ops :=
  ⟨h.toSeparate.before, (pairwise_append.1 h.registered).1⟩

structure Staging.Stands (st : CompositionStore) (s : Staging) (r : Replica) : Prop where
  rows : ∀ id, s.view st.storage id = r.rows.lookup id
  namespaces : r.namespaces =
    s.namespaceInserts.foldl (fun m ns => m.insert ns.id ns) st.namespaces
  index : r.index = (st.storage.index.unbinds (s.nameRemoves.map Prod.fst)).offers lwwAcceptsBind
    s.nameInserts

namespace Staging.Stands
variable {r : Replica}

lemma start (st : CompositionStore) : Stands st {} st.replica where
  rows := by
    intro id
    rw [view, if_neg not_mem_nil]
    exact Option.none_or
  namespaces := rfl
  index := rfl

section
variable (h : Stands st s r)

include h

lemma put (comp : Composition) : Stands st (s.put comp) (r.putRow comp) where
  rows := by
    intro id
    rw [view_put, Replica.putRow, Maps.lookup_insert, h.rows]
  namespaces := h.namespaces
  index := h.index

lemma bindName (namespaceId : NamespaceId) (name : Option String)
    (id : CompositionId) (seq : Option PerspectiveSeq) :
    Stands st (s.bindName namespaceId name id seq) (r.bindName namespaceId name id seq) := by
  cases name with
  | none => exact h
  | some name =>
    have hindex : r.index.offer lwwAcceptsBind ((namespaceId, name), id, seq) =
        (st.storage.index.unbinds (s.nameRemoves.map fst)).offers lwwAcceptsBind
          (s.nameInserts ++ [((namespaceId, name), id, seq)]) := by
      rw [h.index, Index.offers, Index.offers, foldl_append]
      rfl
    exact ⟨h.rows, h.namespaces, hindex⟩

lemma register (ns : Namespace) :
    Stands st { s with namespaceInserts := s.namespaceInserts ++ [ns] }
      { r with namespaces := r.namespaces.insert ns.id ns } := by
  have hnamespaces : r.namespaces.insert ns.id ns =
      (s.namespaceInserts ++ [ns]).foldl (fun m ns => m.insert ns.id ns) st.namespaces := by
    rw [h.namespaces, foldl_append]
    rfl
  exact ⟨h.rows, hnamespaces, h.index⟩

lemma remove (hst : st.storage.index.Paired) (id : CompositionId)
    (hids : ∀ b ∈ s.nameInserts, b.2.1 ≠ id)
    (hkeys : ∀ b ∈ s.nameInserts, st.storage.nameLookup b.1 ≠ some id) :
    Stands st (stageDelete st s id).1
      { r with rows := r.rows.erase id, index := r.index.release id } := by
  have hrelease := hst.release_offers lwwAcceptsBind (s.nameRemoves.map fst) hids hkeys
  rw [← h.index] at hrelease
  have hrows : ∀ x, (s.remove id).view st.storage x = (r.rows.erase id).lookup x := by
    intro x
    rw [view_remove, Maps.lookup_erase, h.rows]
  simp only [stageDelete]
  cases hname : st.storage.nameFor id with
  | none =>
    have hrev : st.storage.index.reverse.lookup id = none := hname
    rw [hrev] at hrelease
    exact ⟨hrows, h.namespaces, hrelease.trans h.index⟩
  | some key =>
    have hrev : st.storage.index.reverse.lookup id = some key := hname
    rw [hrev] at hrelease
    have hnames : st.storage.index.names.lookup key = some id := (hst.inverse key id).2 hrev
    have hfree : ∀ b ∈ s.nameInserts, b.1 ≠ key := by
      intro b hb heq
      apply hkeys b hb
      rw [heq]
      exact hnames
    have hmap : (s.unbindName key none).nameRemoves.map fst =
        s.nameRemoves.map fst ++ [key] := map_append
    have hunbind : r.index.unbind key =
        (st.storage.index.unbinds ((s.unbindName key none).nameRemoves.map fst)).offers
          lwwAcceptsBind s.nameInserts := by
      rw [hmap, Index.unbinds, foldl_append, h.index]
      exact ((hst.unbinds _).offers_unbind hfree).symm
    exact ⟨hrows, h.namespaces, hrelease.trans hunbind⟩

lemma stage (hst : st.storage.index.Paired) (op : DeltaOp)
    (hdelete : ∀ id ∈ op.deleted, ∀ b ∈ s.nameInserts,
      b.2.1 ≠ id ∧ st.storage.nameLookup b.1 ≠ some id)
    (hnamespaces : ∀ n, (s.namespaceInserts.find? fun ns => decide (ns.id = n)).or
      (st.namespace? n) = r.namespaces.lookup n) :
    Stands st (Compositions.stage st s op).1 (r.apply op) := by
  cases op with
  | create id namespaceId size name lens seq chunkRefs =>
    simp only [Compositions.stage, stageCreate, Replica.apply, h.rows, hnamespaces]
    cases r.rows.lookup id with
    | some row => exact h.bindName namespaceId name id seq
    | none =>
      cases r.namespaces.lookup namespaceId with
      | none => exact h
      | some ns => exact (h.put _).bindName namespaceId name id seq
  | update id size chunkRefs =>
    simp only [Compositions.stage, stageUpdate, Replica.apply, h.rows]
    cases r.rows.lookup id with
    | none => exact h
    | some comp =>
      by_cases hsame : comp.chunks = chunkRefs ∧ comp.size = size
      · simp only [if_pos hsame]
        exact h
      · simp only [if_neg hsame]
        exact h.put (comp.updated size chunkRefs)
  | delete id =>
    apply h.remove hst id
    · exact fun b hb => (hdelete id rfl b hb).1
    · exact fun b hb => (hdelete id rfl b hb).2
  | namespaceCreate ns => exact h.register ns
  | migrateChunkLocations id poolName slabId entries =>
    simp only [Compositions.stage, stageMigrateChunkLocations, Replica.apply, h.rows]
    cases r.rows.lookup id with
    | none => exact h
    | some comp =>
      have hput := h.put (comp.migrated poolName slabId entries)
      exact ⟨hput.rows, hput.namespaces, hput.index⟩
  | undecodable reason => exact h
  | other => exact h

end

end Staging.Stands

lemma lookup_foldl_namespaces {inserts : List Namespace}
    (h : inserts.Pairwise fun ns ns' => ns.id = ns'.id → ns = ns')
    (m : Finmap fun _ : NamespaceId => Namespace) (n : NamespaceId) :
    (inserts.foldl (fun m ns => m.insert ns.id ns) m).lookup n =
      (inserts.find? fun ns => decide (ns.id = n)).or (m.lookup n) := by
  induction inserts generalizing m with
  | nil => rfl
  | cons ns inserts ih =>
    obtain ⟨hfirst, hrest⟩ := pairwise_cons.1 h
    rw [foldl_cons, ih hrest]
    by_cases hn : ns.id = n
    · rw [find?_cons, decide_eq_true hn]
      cases hfind : inserts.find? fun ns => decide (ns.id = n) with
      | none =>
        rw [← hn, Finmap.lookup_insert]
        rfl
      | some ns' =>
        have hfound := find?_some hfind
        have hid : ns'.id = n := of_decide_eq_true hfound
        rw [hfirst ns' (mem_of_find?_eq_some hfind) (hn.trans hid.symm)]
        rfl
    · rw [find?_cons, decide_eq_false hn, Finmap.lookup_insert_of_ne _ (Ne.symm hn)]

lemma Orderly.stands (hst : st.storage.index.Paired) (h : Orderly st ops) :
    (stageAll st {} ops).Stands st (ops.foldl Replica.apply st.replica) := by
  induction ops using reverseRecOn with
  | nil => exact .start st
  | append_singleton ops op ih =>
    have hbefore := ih h.before
    rw [stageAll_concat, foldl_append]
    apply hbefore.stage hst op
    · intro id hid b hb
      obtain ⟨op', hop', hbound⟩ := mem_nameInserts_stageAll ops hb
      have hlast : op ∈ [op] := mem_singleton_self op
      apply And.intro
      · intro heq
        have hnot := (pairwise_append.1 h.unnamed).2.2 op' hop' op hlast b hbound
        rw [heq] at hnot
        exact hnot hid
      · exact h.kept op (mem_append_right _ hlast) id hid op' (mem_append_left _ hop') b hbound
    · intro n
      have hregistered : (ops.filterMap registers).Pairwise
          fun ns ns' => ns.id = ns'.id → ns = ns' := by
        apply pairwise_filterMap.2
        exact h.before.registered
      rw [hbefore.namespaces, namespaceInserts_stageAll, lookup_foldl_namespaces hregistered]
      rfl

lemma mem_removes_stageAll {x : CompositionId} (h : x ∈ (stageAll st {} ops).removes) :
    .delete x ∈ ops := by
  induction ops using reverseRecOn with
  | nil => cases h
  | append_singleton ops op ih =>
    rw [stageAll_concat] at h
    rcases mem_removes_stage h with hbefore | hop
    · exact mem_append_left _ (ih hbefore)
    · exact mem_append_right _ (mem_singleton.2 hop.symm)

lemma cascades_stageAll (st : CompositionStore) (ops : List DeltaOp) :
    ∀ id ∈ (stageAll st {} ops).removes, ∀ key, st.storage.nameFor id = some key →
      key ∈ (stageAll st {} ops).nameRemoves.map Prod.fst := by
  induction ops using reverseRecOn with
  | nil =>
    intro id hid
    cases hid
  | append_singleton ops op ih =>
    intro id hid key hkey
    rw [stageAll_concat] at hid ⊢
    rcases mem_removes_stage hid with hbefore | rfl
    · have hold := ih id hbefore key hkey
      rcases (stage_names st (stageAll st {} ops) op).removes with hsame | ⟨_, _, _, _, hadd⟩
      · rw [hsame]
        exact hold
      · rw [hadd, map_append]
        exact mem_append_left _ hold
    · simp only [stage, stageDelete, hkey]
      exact mem_map.2 ⟨(key, none), mem_append_right _ (mem_singleton_self _), rfl⟩

structure Plain (st : CompositionStore) : Prop where
  pending : st.pending = ∅
  keyed : st.storage.Keyed
  paired : st.storage.index.Paired

lemma Separate.unbound (hst : st.storage.index.Paired) (h : Separate st ops) :
    ∀ b ∈ (stageAll st {} ops).nameInserts, ∀ u ∈ (stageAll st {} ops).nameRemoves,
      b.1 ≠ u.1 ∧ ∃ id, .delete id ∈ ops ∧ st.storage.names.lookup u.1 = some id := by
  intro b hb u hu
  obtain ⟨op, hop, hbound⟩ := mem_nameInserts_stageAll ops hb
  obtain ⟨_, id, hid, hname⟩ := mem_nameRemoves_stageAll st ops u hu
  have hnames : st.storage.names.lookup u.1 = some id := (hst.inverse u.1 id).2 hname
  apply And.intro _ ⟨id, hid, hnames⟩
  intro heq
  apply h.kept (.delete id) hid id rfl op hop b hbound
  rw [heq]
  exact hnames

variable {shardId : ShardId} {lastApplied : Nat} {stuck : Option (Nat × Nat)}

lemma Separate.batchApart (hst : st.storage.index.Paired) (h : Separate st ops)
    (hfjall : st.backend = .fjall) :
    (windowBatch shardId (stageAll st {} ops) lastApplied stuck).Apart st.storage := by
  obtain ⟨hbinds, hdeletes⟩ := h.apart hfjall
  have hids : ∀ b ∈ (stageAll st {} ops).nameInserts, ∀ id, .delete id ∈ ops → b.2.1 ≠ id := by
    intro b hb id hid heq
    apply hdeletes b ((nameInserts_stageAll st ops).subset hb)
    rw [heq]
    exact mem_filterMap.2 ⟨.delete id, hid, rfl⟩
  constructor
  · exact hbinds.sublist (nameInserts_stageAll st ops)
  · intro b hb id hid
    obtain ⟨op, hop, hbound⟩ := mem_nameInserts_stageAll ops hb
    have hdelete := mem_removes_stageAll hid
    exact ⟨hids b hb id hdelete, h.kept (.delete id) hdelete id rfl op hop b hbound⟩
  · intro b hb u hu
    obtain ⟨hkey, id, hid, hname⟩ := h.unbound hst b hb u hu
    apply And.intro hkey
    rw [hname]
    intro heq
    exact hids b hb id hid (Option.some.inj heq).symm

lemma Separate.index_batch (hst : st.storage.index.Paired) (h : Separate st ops) :
    (st.storage.applyHydrationBatch st.backend
      (windowBatch shardId (stageAll st {} ops) lastApplied stuck)).index =
      (st.storage.index.unbinds ((stageAll st {} ops).nameRemoves.map Prod.fst)).offers
        lwwAcceptsBind (stageAll st {} ops).nameInserts := by
  have hagree : st.storage.applyHydrationBatch st.backend
      (windowBatch shardId (stageAll st {} ops) lastApplied stuck) =
      st.storage.applyHydrationBatch .memory
        (windowBatch shardId (stageAll st {} ops) lastApplied stuck) := by
    cases hbackend : st.backend with
    | memory => rfl
    | fjall => exact (h.batchApart hst hbackend).agree hst
  have hnone : ∀ u ∈ (stageAll st {} ops).nameRemoves, u.2 = none := fun u hu =>
    (mem_nameRemoves_stageAll st ops u hu).1
  have hkeys : ∀ b ∈ (stageAll st {} ops).nameInserts,
      b.1 ∉ (stageAll st {} ops).nameRemoves.map fst := by
    intro b hb hmem
    obtain ⟨u, hu, heq⟩ := mem_map.1 hmem
    exact (h.unbound hst b hb u hu).1 heq.symm
  have hcascades : (stageAll st {} ops).removes.filterMap st.storage.index.reverse.lookup ⊆
      (stageAll st {} ops).nameRemoves.map fst := by
    intro key hkey
    obtain ⟨id, hid, hname⟩ := mem_filterMap.1 hkey
    exact cascades_stageAll st ops id hid key hname
  rw [hagree, index_applyHydrationBatch hst hnone, hst.releases_eq_unbinds]
  change ((st.storage.index.unbinds ((stageAll st {} ops).removes.filterMap
    st.storage.index.reverse.lookup)).offers lwwAcceptsBind
      (stageAll st {} ops).nameInserts).unbinds ((stageAll st {} ops).nameRemoves.map fst) = _
  rw [← (hst.unbinds _).offers_unbinds hkeys, hst.unbinds_absorb hcascades]

lemma get_batch :
    (st.storage.applyHydrationBatch st.backend
      (windowBatch shardId (stageAll st {} ops) lastApplied stuck)).get id =
      (stageAll st {} ops).view st.storage id :=
  get_applyHydrationBatch_view nodup_stageAll rfl rfl id

lemma drain_of_empty (ids : List CompositionId) (st : CompositionStore) (h : st.pending = ∅) :
    (ids.foldl drainPending st).storage = st.storage ∧
      (ids.foldl drainPending st).namespaces = st.namespaces ∧
      (ids.foldl drainPending st).pending = ∅ ∧
      (ids.foldl drainPending st).backend = st.backend := by
  induction ids generalizing st with
  | nil => exact ⟨rfl, rfl, h, rfl⟩
  | cons id ids ih =>
    have hnone : st.pending.lookup id = none := by
      rw [h]
      exact Finmap.lookup_empty id
    have hdrain : st.drainPending id = (st.discardVolatile id).1 := by
      rw [drainPending, hnone]
    have hpending : (st.drainPending id).pending = ∅ := by
      rw [hdrain, discardVolatile, erase_of_lookup_none hnone]
      exact h
    have hrest := ih (st.drainPending id) hpending
    rw [hdrain] at hrest
    rw [foldl_cons, hdrain]
    exact hrest

lemma commit_of_empty (hpending : st.pending = ∅) (shardId : ShardId) (s : Staging)
    (lastApplied : Nat) (stuck : Option (Nat × Nat)) :
    (commit shardId st s lastApplied stuck).storage =
        st.storage.applyHydrationBatch st.backend (windowBatch shardId s lastApplied stuck) ∧
      (commit shardId st s lastApplied stuck).namespaces =
        s.namespaceInserts.foldl (fun m ns => m.insert ns.id ns) st.namespaces ∧
      (commit shardId st s lastApplied stuck).pending = ∅ ∧
      (commit shardId st s lastApplied stuck).backend = st.backend := by
  rw [commit_eq, committed_eq]
  exact drain_of_empty _ _ hpending

lemma Orderly.hydrates {st' : CompositionStore} (hst : Plain st) (h : Orderly st ops)
    (hhydrates : Hydrates st ops st') : st'.replica = ops.foldl Replica.apply st.replica := by
  cases hhydrates with
  | idle => rfl
  | halt hydrator => rfl
  | commit shardId lastApplied stuck =>
    have hstands := h.stands hst.paired
    obtain ⟨hstorage, hnamespaces, _⟩ := commit_of_empty hst.pending shardId (stageAll st {} ops)
      lastApplied stuck
    apply Replica.ext
    · apply Finmap.ext_lookup
      intro id
      rw [← hstands.rows id, replica, hstorage]
      exact get_batch
    · rw [hstands.index, replica, hstorage]
      exact h.toSeparate.index_batch hst.paired
    · rw [hstands.namespaces]
      exact hnamespaces

lemma Plain.hydrates {st' : CompositionStore} (hst : Plain st) (h : Separate st ops)
    (hhydrates : Hydrates st ops st') : Plain st' := by
  cases hhydrates with
  | idle => exact hst
  | halt hydrator =>
    exact ⟨hst.pending, hst.keyed.applyHydrationBatch _ _, hst.paired⟩
  | commit shardId lastApplied stuck =>
    obtain ⟨hstorage, _, hpending, _⟩ := commit_of_empty hst.pending shardId (stageAll st {} ops)
      lastApplied stuck
    apply Plain.mk hpending
    · rw [hstorage]
      exact hst.keyed.applyHydrationBatch _ _
    · rw [hstorage, h.index_batch hst.paired]
      exact (hst.paired.unbinds _).offers lwwAcceptsBind _

end

def polls (h : CompositionHydrator) (st : CompositionStore) :
    List (List HydratorDelta) → CompositionHydrator × CompositionStore
  | [] => (h, st)
  | w :: ws =>
    let polled := h.poll st w none
    polls polled.1 polled.2.1 ws

def WindowsMeet (P : CompositionStore → List DeltaOp → Prop) (h : CompositionHydrator)
    (st : CompositionStore) : List (List HydratorDelta) → Prop
  | [] => True
  | w :: ws =>
    P st (w.map HydratorDelta.op) ∧
      WindowsMeet P (h.poll st w none).1 (h.poll st w none).2.1 ws

lemma map_op_numbered (start : Nat) (ops : List DeltaOp) :
    (numbered start ops).map HydratorDelta.op = ops := by
  induction ops generalizing start with
  | nil => rfl
  | cons op ops ih => rw [numbered, map_cons, ih]

lemma eq_nil_of_numbered (h : [] = numbered start ops) : ops = [] := by
  cases ops with
  | nil => rfl
  | cons op ops => cases h

lemma numbered_split {start : Nat} {ops : List DeltaOp} {w rest : List HydratorDelta}
    (h : w ++ rest = numbered start ops) :
    ∃ first last, ops = first ++ last ∧ w = numbered start first ∧
      rest = numbered (start + first.length) last := by
  induction w generalizing start ops with
  | nil => exact ⟨[], ops, rfl, rfl, h⟩
  | cons d w ih =>
    cases ops with
    | nil => cases h
    | cons op ops =>
      obtain ⟨hd, hrest⟩ := cons.inj h
      obtain ⟨first, last, hops, hw, hlast⟩ := ih hrest
      have hlength : start + (op :: first).length = start + 1 + first.length := by
        rw [length_cons, add_assoc, add_comm 1]
      exact ⟨op :: first, last, by rw [hops]; rfl, by rw [hd, hw]; rfl,
        by rw [hlength]; exact hlast⟩

section
variable {st : CompositionStore} {h : CompositionHydrator} {ops : List DeltaOp}
  {ws : List (List HydratorDelta)} {start : Nat}

lemma lastApplied_polls (st : CompositionStore) (hle : h.lastAppliedCache ≤ start)
    (hws : ws.flatten = numbered start ops) :
    (polls h st ws).1.lastAppliedCache ≤ start + ops.length ∧
      (h.lastAppliedCache < start → (polls h st ws).1.lastAppliedCache < start + ops.length) := by
  induction ws generalizing h start ops st with
  | nil =>
    rw [eq_nil_of_numbered hws]
    exact ⟨hle, fun hlt => hlt⟩
  | cons w ws ih =>
    obtain ⟨first, last, rfl, rfl, hrest⟩ := numbered_split hws
    obtain ⟨n, hn, hpositive, hlast, _⟩ := poll_hydrates h st first none hle
    have hnext : (h.poll st (numbered start first) none).1.lastAppliedCache ≤
        start + first.length := by omega
    obtain ⟨hbound, hstrict⟩ := ih (h.poll st (numbered start first) none).2.1 hnext hrest
    rw [length_append, ← add_assoc]
    apply And.intro hbound
    intro hlt
    apply hstrict
    rw [hlast]
    by_cases hpos : 0 < n
    · have := hpositive hpos
      omega
    · omega

lemma replica_polls (hst : Plain st) (hle : h.lastAppliedCache = start)
    (hws : ws.flatten = numbered start ops)
    (hall : (polls h st ws).1.lastAppliedCache = start + ops.length)
    (hmeet : WindowsMeet Orderly h st ws) :
    (polls h st ws).2.replica = ops.foldl Replica.apply st.replica := by
  induction ws generalizing h st start ops with
  | nil =>
    rw [eq_nil_of_numbered hws]
    rfl
  | cons w ws ih =>
    obtain ⟨first, last, rfl, rfl, hrest⟩ := numbered_split hws
    obtain ⟨horderly, hmeet⟩ := hmeet
    rw [map_op_numbered] at horderly
    obtain ⟨n, hn, _, hlast, hhydrates⟩ := poll_hydrates h st first none hle.le
    -- a poll that stops early leaves deltas that no later poll takes in
    have hwhole : n = first.length := by
      by_contra hne
      have hnext : (h.poll st (numbered start first) none).1.lastAppliedCache <
          start + first.length := by omega
      have hstrict := (lastApplied_polls (h.poll st (numbered start first) none).2.1 hnext.le
        hrest).2 hnext
      rw [length_append, ← add_assoc] at hall
      exact absurd hall hstrict.ne
    rw [hwhole, take_length] at hhydrates
    rw [foldl_append, ← horderly.hydrates hst hhydrates]
    apply ih (hst.hydrates horderly.toSeparate hhydrates) _ hrest _ hmeet
    · omega
    · rw [length_append, ← add_assoc] at hall
      exact hall

end

def CompositionStore.fresh (backend : Backend) (pendingMax : Nat)
    (namespaces : Finmap fun _ : NamespaceId => Namespace) : CompositionStore :=
  { new backend pendingMax with namespaces := namespaces }

lemma plain_fresh (backend : Backend) (pendingMax : Nat)
    (namespaces : Finmap fun _ : NamespaceId => Namespace) :
    Plain (.fresh backend pendingMax namespaces) where
  pending := rfl
  keyed := by
    intro id comp hcomp
    cases hcomp
  paired := paired_empty

/-- Two cuts of a log into orderly windows give the same store. -/
theorem hydration_window_independent {h : CompositionHydrator} (hstart : h.lastAppliedCache = 0)
    (backend : Backend) (pendingMax : Nat)
    (namespaces : Finmap fun _ : NamespaceId => Namespace) (ops : List DeltaOp)
    {ws ws' : List (List HydratorDelta)} (hws : ws.flatten = numbered 0 ops)
    (hws' : ws'.flatten = numbered 0 ops)
    (hall : (polls h (.fresh backend pendingMax namespaces) ws).1.lastAppliedCache = ops.length)
    (hall' : (polls h (.fresh backend pendingMax namespaces) ws').1.lastAppliedCache = ops.length)
    (hmeet : WindowsMeet Orderly h (.fresh backend pendingMax namespaces) ws)
    (hmeet' : WindowsMeet Orderly h (.fresh backend pendingMax namespaces) ws') :
    let s := (polls h (.fresh backend pendingMax namespaces) ws).2.storage
    let s' := (polls h (.fresh backend pendingMax namespaces) ws').2.storage
    s.compositions = s'.compositions ∧ s.names = s'.names ∧ s.namesReverse = s'.namesReverse ∧
      s.nameSeqs = s'.nameSeqs := by
  have hplain := plain_fresh backend pendingMax namespaces
  have hreplica : (polls h (.fresh backend pendingMax namespaces) ws).2.replica =
      (polls h (.fresh backend pendingMax namespaces) ws').2.replica := by
    rw [replica_polls hplain hstart hws (by rw [hall, zero_add]) hmeet,
      replica_polls hplain hstart hws' (by rw [hall', zero_add]) hmeet']
  have hindex := congrArg Replica.index hreplica
  exact ⟨congrArg Replica.rows hreplica, congrArg Index.names hindex,
    congrArg Index.reverse hindex, congrArg Index.stamps hindex⟩

instance decidableWindowsMeet (P : CompositionStore → List DeltaOp → Prop)
    [∀ st ops, Decidable (P st ops)] (h : CompositionHydrator) (st : CompositionStore)
    (ws : List (List HydratorDelta)) : Decidable (WindowsMeet P h st ws) :=
  match ws with
  | [] => .isTrue trivial
  | w :: ws =>
    have := decidableWindowsMeet P (h.poll st w none).1 (h.poll st w none).2.1 ws
    inferInstanceAs (Decidable (_ ∧ _))

def newHydrator : CompositionHydrator := ⟨⟨.replicate 16 1⟩, 0, false, 3, 16⟩

def plainNamespace : Namespace :=
  ⟨⟨.replicate 16 2⟩, ⟨.replicate 16 1⟩, ⟨.replicate 16 1⟩, false, false⟩

def namedCreate (n : UInt8) (seq : UInt64) : DeltaOp :=
  .create ⟨.replicate 16 n⟩ plainNamespace.id 0 (some "a") none (some ⟨seq, 0, 0⟩) []

def overwriteLog : List DeltaOp :=
  [.namespaceCreate plainNamespace, namedCreate 1 1, namedCreate 2 2,
    .delete ⟨.replicate 16 1⟩]

def deleteLog : List DeltaOp :=
  [.namespaceCreate plainNamespace, namedCreate 1 1, .delete ⟨.replicate 16 1⟩]

def cutAt (n : Nat) (ops : List DeltaOp) : List (List HydratorDelta) :=
  [(numbered 0 ops).take n, (numbered 0 ops).drop n]

theorem hydration_window_independent_overwrite : let s := (polls newHydrator (.fresh .memory 4 ∅)
      ((numbered 0 overwriteLog).map fun d => [d])).2.storage
    let s' := (polls newHydrator (.fresh .memory 4 ∅) (cutAt 3 overwriteLog)).2.storage
    s.compositions = s'.compositions ∧ s.names = s'.names ∧ s.namesReverse = s'.namesReverse ∧
      s.nameSeqs = s'.nameSeqs :=
  hydration_window_independent rfl .memory 4 ∅ overwriteLog rfl rfl rfl rfl (by decide +kernel)
    (by decide +kernel)

/-- Deleted in the window of its bind, a row's name stays. -/
theorem hydration_depends_on_windows :
    ((cutAt 3 deleteLog).flatten = numbered 0 deleteLog ∧
      (cutAt 2 deleteLog).flatten = numbered 0 deleteLog ∧
      (polls newHydrator (.fresh .memory 4 ∅) (cutAt 3 deleteLog)).1.lastAppliedCache = 3 ∧
      (polls newHydrator (.fresh .memory 4 ∅) (cutAt 2 deleteLog)).1.lastAppliedCache = 3 ∧
      (polls newHydrator (.fresh .memory 4 ∅) (cutAt 3 deleteLog)).2.storage.nameLookup
        (plainNamespace.id, "a") = some ⟨.replicate 16 1⟩ ∧
      (polls newHydrator (.fresh .memory 4 ∅) (cutAt 2 deleteLog)).2.storage.nameLookup
        (plainNamespace.id, "a") = none) ∧
    (cutAt 2 overwriteLog).flatten = numbered 0 overwriteLog ∧
      (cutAt 3 overwriteLog).flatten = numbered 0 overwriteLog ∧
      (polls newHydrator (.fresh .memory 4 ∅) (cutAt 2 overwriteLog)).1.lastAppliedCache = 4 ∧
      (polls newHydrator (.fresh .memory 4 ∅) (cutAt 3 overwriteLog)).1.lastAppliedCache = 4 ∧
      (polls newHydrator (.fresh .memory 4 ∅) (cutAt 2 overwriteLog)).2.storage.nameLookup
        (plainNamespace.id, "a") = none ∧
      (polls newHydrator (.fresh .memory 4 ∅) (cutAt 3 overwriteLog)).2.storage.nameLookup
        (plainNamespace.id, "a") = some ⟨.replicate 16 2⟩ := by
  decide +kernel

end Kiseki.Compositions
