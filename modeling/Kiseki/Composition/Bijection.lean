import Kiseki.Composition.Backends
import Kiseki.Composition.Windows

namespace Kiseki.Compositions
open Intent Pairing Relation Storage List Option CompositionStore CompositionHydrator

namespace CompositionStore

/-- The owner found for the name is handed on to the put. -/
def createWithNameOn (st : CompositionStore) (id : CompositionId) (nsId : NamespaceId)
    (name : String) (cond : Option ConditionalCheck) (chunks : List ChunkId) (size : Nat) :
    Except CompositionError CompositionStore := do
  let ns ← st.writable nsId
  let existing := st.storage.nameLookup (nsId, name)
  checkConditional cond existing
  return { st with
    storage := st.storage.putWithNamePrior st.backend (.new ns id chunks [] size) (nsId, name)
      existing }

def bindName (st : CompositionStore) (key : NameKey) (id : CompositionId) : CompositionStore :=
  { st with storage := st.storage.nameInsert key id }

def unbindName (st : CompositionStore) (key : NameKey) : CompositionStore :=
  { st with storage := st.storage.nameRemove key }

end CompositionStore

/-- The durable steps: ids are new, names go to rows, windows are separate. -/
inductive NameStep (st : CompositionStore) : CompositionStore → Prop where
  | addNamespace (ns : Namespace) : NameStep st (st.addNamespace ns)
  | createWithName {id : CompositionId} {cond : Option ConditionalCheck} {st' : CompositionStore}
      (hfresh : st.storage.get id = none)
      (h : st.createWithNameOn id nsId name cond chunks size = .ok st') : NameStep st st'
  | bindName {id : CompositionId} (key : NameKey) (hrow : st.storage.get id ≠ none) :
      NameStep st (st.bindName key id)
  | unbindName (key : NameKey) : NameStep st (st.unbindName key)
  | delete {id : CompositionId} {st' : CompositionStore} (h : st.delete id = .ok (st', result)) :
      NameStep st st'
  | poll (h : CompositionHydrator) (ops : List DeltaOp) (earliestVisible : Option Nat)
      (hfirst : h.lastAppliedCache ≤ first) (hseparate : Separate st ops) :
      NameStep st (h.poll st (numbered first ops) earliestVisible).2.1

structure Sound (st : CompositionStore) : Prop extends Plain st where
  rows : ∀ key id, st.storage.nameLookup key = some id → st.storage.get id ≠ none

section
variable {st st' : CompositionStore} {id : CompositionId} {key : NameKey} {ops : List DeltaOp}
  {cond : Option ConditionalCheck}

lemma createWithNameOn_ok (h : st.createWithNameOn id nsId name cond chunks size = .ok st') :
    ∃ ns, st' = { st with
      storage := st.storage.putWithNamePrior st.backend (.new ns id chunks [] size) (nsId, name)
        (st.storage.nameLookup (nsId, name)) } := by
  obtain ⟨ns, _, h⟩ := bind_ok h
  obtain ⟨_, _, h⟩ := bind_ok h
  exact ⟨ns, (Except.ok.inj h).symm⟩

lemma Sound.nameFor_none (h : Sound st) (hid : st.storage.get id = none) :
    st.storage.nameFor id = none := by
  apply eq_none_iff_forall_ne_some.2
  intro key hkey
  exact h.rows key id ((h.paired.inverse key id).2 hkey) hid

lemma rows_put (st : CompositionStore) (comp : Composition) (x : CompositionId)
    (hx : st.storage.get x ≠ none) : (st.storage.put comp).get x ≠ none := by
  rw [get_put]
  split
  · intro heq
    cases heq
  · exact hx

section
variable (h : Sound st)

include h

lemma Sound.ofBind (s : Storage) (hindex : s.index = st.storage.index)
    (hkeyed : s.Keyed) (hrows : ∀ x, st.storage.get x ≠ none → s.get x ≠ none)
    (hrow : s.get id ≠ none) (key : NameKey) :
    Sound { st with storage := s.nameInsert key id } := by
  have hpaired : s.index.Paired := by
    rw [hindex]
    exact h.paired
  have hbind : (s.nameInsert key id).index = s.index.offer lwwAcceptsBind (key, id, none) :=
    index_bind hpaired key id none
  have hcompositions : (s.nameInsert key id).compositions = s.compositions :=
    compositions_bind
  refine ⟨⟨h.pending, hkeyed.ofRows hcompositions, ?_⟩, ?_⟩
  · rw [hbind]
    exact hpaired.offer lwwAcceptsBind (key, id, none)
  · intro k i hk
    have hk' : (s.nameInsert key id).index.names.lookup k = some i := hk
    rw [hbind] at hk'
    change (s.nameInsert key id).compositions.lookup i ≠ none
    rw [hcompositions]
    rcases hpaired.names_offer hk' with ⟨_, rfl⟩ | hold
    · exact hrow
    · rw [hindex] at hold
      exact hrows i (h.rows k i hold)

lemma Sound.createWithName (hfresh : st.storage.get id = none)
    (hok : st.createWithNameOn id nsId name cond chunks size = .ok st') : Sound st' := by
  obtain ⟨ns, rfl⟩ := createWithNameOn_ok hok
  have hagree : st.storage.putWithNamePrior st.backend (.new ns id chunks [] size) (nsId, name)
      (st.storage.nameLookup (nsId, name)) =
      st.storage.putWithName (.new ns id chunks [] size) (nsId, name) := by
    cases st.backend with
    | memory => rfl
    | fjall => exact putWithNamePrior_agree (.inl (h.nameFor_none hfresh)) (.inr rfl)
  rw [hagree]
  have hrows := rows_put st (.new ns id chunks [] size)
  have hrow : (st.storage.put (.new ns id chunks [] size)).get id ≠ none := by
    have hget : (st.storage.put (.new ns id chunks [] size)).get id =
        some (.new ns id chunks [] size) := Finmap.lookup_insert _
    rw [hget]
    intro heq
    cases heq
  exact h.ofBind (st.storage.put (.new ns id chunks [] size)) rfl (h.keyed.put _) hrows hrow
    (nsId, name)

lemma Sound.bindName (hrow : st.storage.get id ≠ none) (key : NameKey) :
    Sound (st.bindName key id) := h.ofBind st.storage rfl h.keyed (fun _ hx => hx) hrow key

lemma Sound.unbindName (key : NameKey) : Sound (st.unbindName key) := by
  have hindex : (st.storage.nameRemove key).index = st.storage.index.unbind key :=
    index_nameRemove
  have hcompositions : (st.storage.nameRemove key).compositions = st.storage.compositions :=
    compositions_unbind none
  refine ⟨⟨h.pending, h.keyed.ofRows hcompositions, ?_⟩, ?_⟩
  · change (st.storage.nameRemove key).index.Paired
    rw [hindex]
    exact h.paired.unbind key
  · intro k i hk
    have hk' : (st.storage.nameRemove key).index.names.lookup k = some i := hk
    rw [hindex, Index.names_unbind] at hk'
    change (st.storage.nameRemove key).compositions.lookup i ≠ none
    rw [hcompositions]
    split at hk'
    · cases hk'
    · exact h.rows k i hk'

section
variable (hok : st.delete id = .ok (st', result))

include hok

lemma Sound.delete_cases :
    ∃ comp, comp.id = id ∧
      (st' = st.putRow comp ∨ st' = { st with storage := st.storage.remove id }) := by
  have hpending : st.pending.lookup id = none := by
    rw [h.pending]
    exact Finmap.lookup_empty id
  simp only [delete, hpending] at hok
  split at hok
  · next comp hcomp =>
    have hid := h.keyed id comp hcomp
    split at hok
    · cases hok
      exact ⟨{ comp with version := comp.version + 1 }, hid, .inl rfl⟩
    · cases hok
      exact ⟨comp, hid, .inr rfl⟩
  · cases hok

lemma Sound.delete : Sound st' := by
  obtain ⟨comp, hid, rfl | rfl⟩ := h.delete_cases hok
  · refine ⟨⟨h.pending, h.keyed.put comp, h.paired⟩, ?_⟩
    intro k i hk
    exact rows_put st comp i (h.rows k i hk)
  · have hindex : (st.storage.remove id).index = st.storage.index.release id :=
      index_dropRow h.paired id
    refine ⟨⟨h.pending, h.keyed.dropRow, ?_⟩, ?_⟩
    · change (st.storage.remove id).index.Paired
      rw [hindex]
      exact h.paired.release id
    · intro k i hk
      have hk' : (st.storage.remove id).index.names.lookup k = some i := hk
      rw [hindex, h.paired.names_release] at hk'
      split at hk'
      · cases hk'
      · next hne =>
        have hi : i ≠ id := by
          rintro rfl
          exact hne hk'
        change (st.storage.remove id).get i ≠ none
        rw [get_remove_of_ne hi]
        exact h.rows k i hk'

lemma Sound.delete_keeps
    {other : CompositionId} (hother : other ≠ id) (hkey : st.storage.nameLookup key = some other) :
    st'.storage.nameLookup key = some other := by
  obtain ⟨comp, _, rfl | rfl⟩ := h.delete_cases hok
  · exact hkey
  · have hindex : (st.storage.remove id).index = st.storage.index.release id :=
      index_dropRow h.paired id
    have hkey' : st.storage.index.names.lookup key = some other := hkey
    change (st.storage.remove id).index.names.lookup key = some other
    rw [hindex, h.paired.names_release, hkey', if_neg fun heq => hother (some.inj heq)]

end

end

lemma view_stage_ne_none {s : Staging} {op : DeltaOp} (hkeyed : st.storage.Keyed)
    (hview : s.view st.storage id ≠ none) (hop : op.deleted ≠ some id) :
    (stage st s op).1.view st.storage id ≠ none := by
  obtain ⟨comp, hcomp⟩ := ne_none_iff_exists'.1 hview
  rw [view_stage hkeyed, hcomp]
  split
  · cases op with
    | delete x => exact absurd ‹_› hop
    | _ => exact some_ne_none _
  · exact some_ne_none comp

lemma view_stage_bound {s : Staging} {op : DeltaOp} (hkeyed : st.storage.Keyed)
    {b : NameKey × CompositionId × Option PerspectiveSeq} (hbound : op.bound = some b)
    (hinserts : (stage st s op).1.nameInserts ≠ s.nameInserts) :
    (stage st s op).1.view st.storage b.2.1 ≠ none := by
  intro hnone
  rw [view_stage_target hkeyed
    (DeltaOp.target_of_created (DeltaOp.created_of_bound hbound))] at hnone
  cases op with
  | create x namespaceId size name lens seq chunkRefs =>
    cases name with
    | none => cases hbound
    | some name =>
      cases hbound
      obtain ⟨hview, hns⟩ := or_eq_none_iff.1 hnone
      apply hinserts
      simp only [stage, stageCreate, hview]
      rw [show (s.namespaceInserts.find? _).or _ = none from map_eq_none_iff.1 hns]
  | _ => cases hbound

lemma Separate.viewed (h : Separate st ops) (hkeyed : st.storage.Keyed) :
    ∀ b ∈ (stageAll st {} ops).nameInserts,
      (stageAll st {} ops).view st.storage b.2.1 ≠ none := by
  induction ops using reverseRecOn with
  | nil =>
    intro b hb
    cases hb
  | append_singleton ops op ih =>
    have hold : ∀ b ∈ (stageAll st {} ops).nameInserts,
        (stage st (stageAll st {} ops) op).1.view st.storage b.2.1 ≠ none := by
      intro b hb
      obtain ⟨op', hop', hbound⟩ := mem_nameInserts_stageAll ops hb
      apply view_stage_ne_none hkeyed (ih h.before b hb)
      exact (pairwise_append.1 h.unnamed).2.2 op' hop' op (mem_singleton_self op) b hbound
    rw [stageAll_concat]
    rcases (stage_names st (stageAll st {} ops) op).inserts with hsame | ⟨b', hbound, hadd⟩
    · rw [hsame]
      exact hold
    · have hnew : (stage st (stageAll st {} ops) op).1.nameInserts ≠
          (stageAll st {} ops).nameInserts := by
        rw [hadd]
        exact fun heq => absurd (congrArg length heq) (by simp)
      rw [hadd]
      exact forall_mem_append.2 ⟨hold, forall_mem_singleton.2 (view_stage_bound hkeyed hbound hnew)⟩

lemma Separate.take (h : Separate st ops) (n : Nat) : Separate st (ops.take n) := by
  rw [← take_append_drop n ops] at h
  exact h.before

lemma Sound.hydrates (h : Sound st) (hseparate : Separate st ops)
    (hhydrates : Hydrates st ops st') : Sound st' := by
  apply Sound.mk (h.toPlain.hydrates hseparate hhydrates)
  cases hhydrates with
  | idle => exact h.rows
  | halt hydrator => exact h.rows
  | commit shardId lastApplied stuck =>
    obtain ⟨hstorage, _⟩ := commit_of_empty h.pending shardId (stageAll st {} ops) lastApplied stuck
    intro k i hk
    rw [hstorage] at hk ⊢
    have hk' : (st.storage.applyHydrationBatch st.backend
        (windowBatch shardId (stageAll st {} ops) lastApplied stuck)).index.names.lookup k =
        some i := hk
    rw [hseparate.index_batch h.paired] at hk'
    rw [get_batch]
    rcases (h.paired.unbinds _).names_offers hk' with ⟨b, hb, _, rfl⟩ | hold
    · exact hseparate.viewed h.keyed b hb
    · rw [Index.names_unbinds] at hold
      split at hold
      · cases hold
      · next hkept =>
        -- a row that goes has its name unbound
        have hremoved : i ∉ (stageAll st {} ops).removes := by
          intro hi
          exact hkept (cascades_stageAll st ops i hi k ((h.paired.inverse k i).1 hold))
        rw [Staging.view, if_neg hremoved]
        intro hnone
        exact h.rows k i hold (or_eq_none_iff.1 hnone).2

lemma Sound.hydrated_delete_keeps (h : Sound st) (hseparate : Separate st (ops ++ [.delete id]))
    {other : CompositionId} (hother : other ≠ id) (shardId : ShardId) (lastApplied : Nat)
    (stuck : Option (Nat × Nat))
    (hkey : (commit shardId st (stageAll st {} ops) lastApplied
      stuck).storage.nameLookup key = some other) :
    (commit shardId st (stageAll st {} (ops ++ [.delete id])) lastApplied
      stuck).storage.nameLookup key = some other := by
  have hbefore := hseparate.before
  obtain ⟨hstorage, _⟩ := commit_of_empty h.pending shardId (stageAll st {} ops) lastApplied stuck
  obtain ⟨hstorage', _⟩ := commit_of_empty h.pending shardId (stageAll st {} (ops ++ [.delete id]))
    lastApplied stuck
  have hlookup : ∀ s : Storage, s.nameLookup key = s.index.names.lookup key := fun _ => rfl
  rw [hstorage, hlookup, hbefore.index_batch h.paired] at hkey
  have hnames := stage_names st (stageAll st {} ops) (.delete id)
  have hinserts : (stageAll st {} (ops ++ [.delete id])).nameInserts =
      (stageAll st {} ops).nameInserts := by
    rw [stageAll_concat]
    rcases hnames.inserts with hsame | ⟨_, hbound, _⟩
    · exact hsame
    · cases hbound
  rw [hstorage', hlookup, hseparate.index_batch h.paired, hinserts]
  have hunbound := hseparate.unbound h.paired
  rw [hinserts, stageAll_concat] at hunbound
  rw [stageAll_concat]
  rcases hnames.removes with hsame | ⟨x, old, hx, hold, hadd⟩
  · rw [hsame]
    exact hkey
  · cases hx
    have hmem : (old, none) ∈ (stage st (stageAll st {} ops) (.delete id)).1.nameRemoves := by
      rw [hadd]
      exact mem_append_right _ (mem_singleton_self _)
    have hfree : ∀ b ∈ (stageAll st {} ops).nameInserts, b.1 ≠ old := fun b hb =>
      (hunbound b hb (old, none) hmem).1
    have hne : key ≠ old := by
      rintro rfl
      rcases (h.paired.unbinds _).names_offers hkey with ⟨b, hb, heq, _⟩ | hbound
      · exact hfree b hb heq
      · rw [Index.names_unbinds] at hbound
        split at hbound
        · cases hbound
        · have howner : st.storage.index.names.lookup key = some id :=
            (h.paired.inverse key id).2 hold
          rw [howner] at hbound
          exact hother (some.inj hbound).symm
    have hlast : st.storage.index.unbinds
        ((stage st (stageAll st {} ops) (.delete id)).1.nameRemoves.map Prod.fst) =
        (st.storage.index.unbinds ((stageAll st {} ops).nameRemoves.map Prod.fst)).unbind old := by
      rw [hadd, map_append, Index.unbinds, foldl_append]
      rfl
    rw [hlast, (h.paired.unbinds _).offers_unbind hfree, Index.names_unbind, if_neg hne]
    exact hkey

lemma Sound.step (h : Sound st) (hstep : NameStep st st') : Sound st' := by
  cases hstep with
  | addNamespace ns => exact ⟨⟨h.pending, h.keyed, h.paired⟩, h.rows⟩
  | createWithName hfresh hok => exact h.createWithName hfresh hok
  | bindName key hrow => exact h.bindName hrow key
  | unbindName key => exact h.unbindName key
  | delete hok => exact h.delete hok
  | poll hydrator ops earliestVisible hfirst hseparate =>
    obtain ⟨n, _, _, _, hhydrates⟩ := poll_hydrates hydrator st ops earliestVisible hfirst
    exact h.hydrates (hseparate.take n) hhydrates

lemma Sound.run (h : Sound st) (hrun : ReflTransGen NameStep st st') : Sound st' := by
  induction hrun with
  | refl => exact h
  | tail _ hstep ih => exact ih.step hstep

end

lemma sound_fresh (backend : Backend) (pendingMax : Nat)
    (namespaces : Finmap fun _ : NamespaceId => Namespace) :
    Sound (.fresh backend pendingMax namespaces) := by
  apply Sound.mk (plain_fresh backend pendingMax namespaces)
  intro key id hkey
  cases hkey

/-- The two directions of the name index are inverse, and names lead to rows. -/
theorem name_index_bijective (backend : Backend) (pendingMax : Nat)
    (namespaces : Finmap fun _ : NamespaceId => Namespace) {st : CompositionStore}
    (hrun : ReflTransGen NameStep (.fresh backend pendingMax namespaces) st) :
    (∀ key id, st.storage.nameLookup key = some id ↔ st.storage.nameFor id = some key) ∧
      (∀ key id, st.storage.nameLookup key = some id → ∃ comp, st.storage.get id = some comp) ∧
      (∀ id st' result, st.delete id = .ok (st', result) → ∀ key other, other ≠ id →
        st.storage.nameLookup key = some other → st'.storage.nameLookup key = some other) ∧
      ∀ shardId lastApplied stuck ops id, Separate st (ops ++ [.delete id]) →
        ∀ key other, other ≠ id →
          (commit shardId st (stageAll st {} ops) lastApplied
            stuck).storage.nameLookup key = some other →
          (commit shardId st (stageAll st {} (ops ++ [.delete id])) lastApplied
            stuck).storage.nameLookup key = some other := by
  have hsound := (sound_fresh backend pendingMax namespaces).run hrun
  refine ⟨hsound.paired.inverse, ?_, ?_, ?_⟩
  · intro key id hkey
    exact ne_none_iff_exists'.1 (hsound.rows key id hkey)
  · intro id st' result hok key other hother hkey
    exact hsound.delete_keeps hok hother hkey
  · intro shardId lastApplied stuck ops id hseparate key other hother hkey
    exact hsound.hydrated_delete_keeps hseparate hother shardId lastApplied stuck hkey

def createWindow : List DeltaOp := [.namespaceCreate plainNamespace, namedCreate 1 1]

/-- Once its object is deleted, a name leads to the next object created under it. -/
theorem name_index_bijective_recreate :
    let created := newHydrator.poll (.fresh .fjall 4 ∅) (numbered 0 createWindow) none
    let deleted := created.1.poll created.2.1 (numbered 2 [.delete ⟨.replicate 16 1⟩]) none
    let st := (deleted.1.poll deleted.2.1 (numbered 3 [namedCreate 2 2]) none).2.1
    st.storage.nameLookup (plainNamespace.id, "a") = some ⟨.replicate 16 2⟩ ∧
      ∃ comp, st.storage.get ⟨.replicate 16 2⟩ = some comp := by
  intro created deleted st
  have hcreate : NameStep (.fresh .fjall 4 ∅) created.2.1 :=
    .poll newHydrator createWindow none (Nat.le_refl 0) (by decide +kernel)
  have hdelete : NameStep created.2.1 deleted.2.1 :=
    .poll created.1 _ none (by decide +kernel) (by decide +kernel)
  have hrename : NameStep deleted.2.1 st :=
    .poll deleted.1 _ none (by decide +kernel) (by decide +kernel)
  have hname : st.storage.nameLookup (plainNamespace.id, "a") = some ⟨.replicate 16 2⟩ := by
    decide +kernel
  have hrun := ((ReflTransGen.single hcreate).tail hdelete).tail hrename
  exact ⟨hname, (name_index_bijective .fjall 4 ∅ hrun).2.1 _ _ hname⟩

/-- A create and its delete in one window leave a name without a row. -/
theorem name_index_broken :
    (∀ backend, let s := (polls newHydrator (.fresh backend 4 ∅) [numbered 0 deleteLog]).2.storage
      s.nameLookup (plainNamespace.id, "a") = some ⟨.replicate 16 1⟩ ∧
        s.get ⟨.replicate 16 1⟩ = none) ∧
    let s := (polls newHydrator (.fresh .fjall 4 ∅) [numbered 0 (overwriteLog.take 3)]).2.storage
    s.nameLookup (plainNamespace.id, "a") = some ⟨.replicate 16 2⟩ ∧
      s.nameFor ⟨.replicate 16 1⟩ = some (plainNamespace.id, "a") ∧
      s.nameFor ⟨.replicate 16 2⟩ = some (plainNamespace.id, "a") := by
  apply And.intro
  · intro backend
    cases backend <;> decide +kernel
  · decide +kernel

end Kiseki.Compositions
