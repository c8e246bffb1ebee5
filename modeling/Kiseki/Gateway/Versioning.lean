import Kiseki.Composition.Bijection
import Kiseki.Gateway.AsyncWrite
import Kiseki.Gateway.Sharing

namespace Kiseki.Gateway
open Compositions Intent Log Relation Finmap CompositionStore List Option

/-- A shard's nodes, log and chunk rows. -/
structure Vault (N : Type) extends Cluster N where
  shard : ShardSmInner

def Live (key : ChunkKey) (shard : ShardSmInner) : Prop :=
  ∃ n tombstoned, shard.count key = some (n, tombstoned) ∧ 0 < n

/-- The create brings a row for the chunk, or there is one. -/
def Provided (key : ChunkKey) (newChunks : List NewChunkMeta) (shard : ShardSmInner) : Prop :=
  Live key shard ∨ shard.count key = none ∧ shard.parked key = 0 ∧
    key.2 ∈ newChunks.map fun nc => ⟨nc.chunkId⟩

/-- The delete is logged before the row is marked; no chunk is released. -/
inductive VersionedStep {N : Type} [DecidableEq N] (id : CompositionId) (op : DeltaOp)
    (tenantId : OrgId) (may : List DeltaOp → Prop) (v : Vault N) : Vault N → Prop where
  | write (k : N) {req : WriteRequest} {draw : Draw} {st : CompositionStore} {size : Nat}
      (hgone : Gone id (v.nodes k).store)
      (hrow : createRow (v.nodes k).store req draw op.chunkRefs size = .ok (st, id))
      (hop : op = .create id req.namespaceId size req.name (some []) seq op.chunkRefs) :
      VersionedStep id op tenantId may v ⟨v.setStore k st, v.shard⟩
  | incorporate (hshard : Incorporates tenantId newChunks v.shard async shard)
      (hrows : ∀ chunk ∈ op.chunkRefs, Provided (tenantId, chunk) newChunks v.shard) :
      VersionedStep id op tenantId may v ⟨v.append op, shard⟩
  | emitDelete (k : N) {comp : Composition} (hget : (v.nodes k).store.get id = .ok comp)
      (hmay : may v.log) (hshard : Incorporates tenantId [] v.shard false shard) :
      VersionedStep id op tenantId may v ⟨v.append (.delete id), shard⟩
  | mark (k : N) {st : CompositionStore}
      (hdelete : (v.nodes k).store.delete id = .ok (st, .deleteMarker)) :
      VersionedStep id op tenantId may v ⟨v.setStore k st, v.shard⟩
  | background {c : Cluster N} {shard : ShardSmInner}
      (hbackground : Background id (fun d => d.target ≠ some id) (fun _ => True) v.toCluster c)
      (hshard : shard = v.shard ∨ ∃ tenantId' newChunks async,
        Incorporates tenantId' newChunks v.shard async shard) :
      VersionedStep id op tenantId may v ⟨c, shard⟩

structure Node.Keeps (id : CompositionId) (nsId : NamespaceId) (op : DeltaOp) (log : List DeltaOp)
    (node : Node) : Prop where
  consumed : node.hydrator.lastAppliedCache ≤ log.length
  tidy : Tidy (nameKey op) id node.store
  chunks : HoldsChunks id op.chunkRefs node.store
  known : node.store.namespace? nsId ≠ none
  durable : op ∈ log.take node.hydrator.lastAppliedCache → node.store.storage.get id ≠ none

structure Vault.Keeps {N : Type} (id : CompositionId) (nsId : NamespaceId) (op : DeltaOp)
    (tenantId : OrgId) (v : Vault N) : Prop where
  log : ∀ d ∈ v.log, d.target = some id → d = .delete id ∨ d = op
  ordered : v.log.Pairwise fun a b => a = op → b ≠ .delete id
  live : op ∈ v.log → ∀ chunk ∈ op.chunkRefs, Live (tenantId, chunk) v.shard
  nodes : ∀ k, (v.nodes k).Keeps id nsId op v.log

section
variable {st st' : CompositionStore} {id : CompositionId} {nsId : NamespaceId} {ops : List DeltaOp}
  {name : Option NameKey}

lemma namespace_touches (h : Touches x key st st') : st'.namespaces = st.namespaces := by
  induction h with
  | refl => rfl
  | tail _ htouch ih =>
    rw [← ih]
    cases htouch <;> rfl

lemma namespace_hydrates (h : st.namespace? nsId ≠ none) (hkeyed : st.storage.Keyed)
    (hhydrates : Hydrates st ops st') : st'.namespace? nsId ≠ none := by
  cases hhydrates with
  | idle => exact h
  | halt hydrator => exact h
  | commit shardId lastApplied stuck =>
    rw [commit_eq]
    apply drainAll_induct (P := fun t => t.namespace? nsId ≠ none) (fun _ _ ht => ht)
      (fun _ _ ht _ => ht) (keyed_committed hkeyed)
    apply foldlRecOn (motive := fun t : CompositionStore => t.namespace? nsId ≠ none) _ _ h
    intro t ht ns _
    rw [namespace?, addNamespace]
    by_cases hns : nsId = ns.id
    · subst hns
      rw [lookup_insert]
      exact some_ne_none ns
    · rw [lookup_insert_of_ne _ hns]
      exact ht

lemma get_hydrates_ne_none (hkeyed : st.storage.Keyed) (hhydrates : Hydrates st ops st')
    (h : st.storage.get id ≠ none ∧ .delete id ∉ ops ∨ st.namespace? nsId ≠ none ∧
      ∃ before after, ops = before ++ .create id nsId size bound lens seq chunks :: after ∧
        .delete id ∉ after) : st'.storage.get id ≠ none := by
  have hkeep : ∀ (after : List DeltaOp) (s : Staging), s.view st.storage id ≠ none →
      .delete id ∉ after → (stageAll st s after).view st.storage id ≠ none := by
    intro after s hs hafter
    apply foldlRecOn (motive := fun s : Staging => s.view st.storage id ≠ none) after _ hs
    intro s hs d hd
    apply view_stage_ne_none hkeyed hs
    intro hdeleted
    cases d <;> cases hdeleted
    exact hafter hd
  have hview : (stageAll st {} ops).view st.storage id ≠ none := by
    rcases h with ⟨hrow, hops⟩ | ⟨hknown, before, after, rfl, hafter⟩
    · exact hkeep ops {} (Staging.view_empty ▸ hrow) hops
    · rw [stageAll, foldl_append, foldl_cons]
      refine hkeep after _ ?_ hafter
      rw [view_stage_target hkeyed rfl]
      intro hnone
      have hns := map_eq_none_iff.1 (or_eq_none_iff.1 hnone).2
      exact hknown (or_eq_none_iff.1 hns).2
  intro hnone
  have hget := get_hydrates hkeyed hhydrates id
  rw [hnone] at hget
  exact hview (map_eq_none_iff.1 hget.symm)

lemma delete_marks (htidy : Tidy name id st) (h : st.delete id = .ok (st', .deleteMarker)) :
    (st'.storage.get id = none ↔ st.storage.get id = none) ∧ st'.namespaces = st.namespaces ∧
      ∀ chunks, HoldsChunks id chunks st → HoldsChunks id chunks st' := by
  simp only [delete] at h
  split at h
  · rename_i comp hpending
    split at h
    · cases h
      refine ⟨Iff.rfl, rfl, fun chunks hchunks => ⟨fun row hrow => ?_, hchunks.durable⟩⟩
      rw [lookup_insert] at hrow
      rw [← some.inj hrow]
      exact hchunks.overlay comp hpending
    · cases h
  · split at h
    · rename_i comp hrow
      split at h
      · cases h
        have hget : (st.putRow { comp with version := comp.version + 1 }).storage.get id =
            some { comp with version := comp.version + 1 } := by
          rw [putRow, Storage.get_put, if_pos (htidy.keyed id comp hrow).symm]
        refine ⟨by rw [hget, hrow]; simp, rfl, fun chunks hchunks => ⟨hchunks.overlay, ?_⟩⟩
        intro row hmarked
        rw [hget] at hmarked
        rw [← some.inj hmarked]
        exact hchunks.durable comp hrow
      · cases h
    · cases h

end

section
variable {key : ChunkKey} {shard shard' : ShardSmInner} {newChunks : List NewChunkMeta}

lemma Live.incorporates (h : Live key shard)
    (hshard : Incorporates tenantId newChunks shard async shard') : Live key shard' := by
  obtain ⟨n, tombstoned, hcount, hn⟩ := h
  obtain ⟨logIndex, hafter, _⟩ := hshard.count key
  refine ⟨n, tombstoned, ?_, hn⟩
  rw [hafter]
  exact ShardSmInner.count_applyNewChunks_of_some hcount

lemma Provided.live (h : Provided (tenantId, chunk) newChunks shard)
    (hshard : Incorporates tenantId newChunks shard async shard') :
    Live (tenantId, chunk) shard' := by
  rcases h with hlive | ⟨hnone, hparked, hlisted⟩
  · exact hlive.incorporates hshard
  · obtain ⟨logIndex, hafter, _⟩ := hshard.count (tenantId, chunk)
    have hborn := (ShardSmInner.count_applyNewChunks hnone logIndex).1
      (listsChunk_iff.2 ⟨rfl, hlisted⟩)
    refine ⟨1, false, ?_, Nat.one_pos⟩
    rw [hafter, hborn, hparked]
    rfl

end

section
variable {N : Type} {v v' : Vault N} {c : Cluster N} {id : CompositionId} {nsId : NamespaceId}
  {op : DeltaOp} {shard : ShardSmInner}

lemma Vault.Keeps.append (h : v.Keeps id nsId op tenantId) {d : DeltaOp}
    (htarget : d.target = some id → d = .delete id ∨ d = op)
    (hordered : d = .delete id → op ∉ v.log)
    (hlive : d = op ∨ op ∈ v.log → ∀ chunk ∈ op.chunkRefs, Live (tenantId, chunk) shard) :
    Vault.Keeps id nsId op tenantId ⟨v.append d, shard⟩ := by
  constructor
  · exact forall_mem_append.2 ⟨h.log, forall_mem_singleton.2 htarget⟩
  · refine pairwise_append.2 ⟨h.ordered, pairwise_singleton _ _, ?_⟩
    intro a ha b hb hop hdelete
    rw [mem_singleton.1 hb] at hdelete
    exact hordered hdelete (hop ▸ ha)
  · intro hop
    apply hlive
    exact (mem_append.1 hop).symm.imp_left fun hd => (mem_singleton.1 hd).symm
  · intro k
    obtain ⟨hconsumed, htidy, hchunks, hknown, hdurable⟩ := h.nodes k
    refine ⟨?_, htidy, hchunks, hknown, ?_⟩
    · rw [Cluster.append, length_append]
      exact Nat.le_add_right_of_le hconsumed
    · rw [Cluster.append, take_append_of_le_length hconsumed]
      exact hdurable

variable [DecidableEq N]

lemma Vault.Keeps.setNode (h : v.Keeps id nsId op tenantId) (k : N) {node : Node}
    (hnode : node.Keeps id nsId op v.log)
    (hlive : op ∈ v.log → ∀ chunk ∈ op.chunkRefs, Live (tenantId, chunk) shard) :
    Vault.Keeps id nsId op tenantId ⟨v.setNode k node, shard⟩ :=
  ⟨h.log, h.ordered, hlive, Cluster.forall_setNode (fun _ node => node.Keeps id nsId op v.log)
    hnode fun j _ => h.nodes j⟩

lemma Vault.Keeps.poll (h : v.Keeps id nsId op tenantId)
    (hop : op = .create id nsId size bound lens seq chunks) (k : N) (count : Nat)
    (earliestVisible : Option Nat) (hfirst : (v.nodes k).hydrator.lastAppliedCache ≤ first)
    (hlive : op ∈ v.log → ∀ chunk ∈ op.chunkRefs, Live (tenantId, chunk) shard) :
    Vault.Keeps id nsId op tenantId ⟨v.poll k first count earliestVisible, shard⟩ := by
  obtain ⟨ops, hydrator, st, heq, hlast, hhydrates, ⟨rest, hrest⟩, _⟩ :=
    v.poll_cases count earliestVisible hfirst
  obtain ⟨hconsumed, htidy, hchunks, hknown, hdurable⟩ := h.nodes k
  have hlog : v.log = v.log.take (v.nodes k).hydrator.lastAppliedCache ++ (ops ++ rest) := by
    rw [hrest, take_append_drop]
  have htarget : ∀ d ∈ ops, d.target = some id → d = .delete id ∨ d = op := by
    intro d hd
    exact h.log d (mem_of_mem_drop (hrest ▸ mem_append_left rest hd))
  have hordered := h.ordered
  rw [hlog, pairwise_append, pairwise_append] at hordered
  have hnamed : Named (nameKey op) id ops := by
    intro d hd b hbound hb
    rcases htarget d hd (DeltaOp.target_of_created (hb ▸ DeltaOp.created_of_bound hbound)) with
      rfl | rfl
    · cases hbound
    · rw [nameKey, hbound]
      rfl
  rw [heq]
  apply h.setNode k _ hlive
  refine ⟨?_, htidy.hydrates hhydrates hnamed, hchunks.hydrates htidy.keyed hhydrates ?_,
    namespace_hydrates hknown htidy.keyed hhydrates, ?_⟩
  · have hlen := congrArg length hlog
    rw [length_append, length_append, length_take, Nat.min_eq_left hconsumed] at hlen
    dsimp only
    omega
  · intro d hd hid
    refine (htarget d hd hid).imp_right ?_
    rintro rfl
    exact ⟨hop ▸ rfl, rfl⟩
  · intro hin
    rw [hlast, take_add, ← hrest, take_left, mem_append] at hin
    apply get_hydrates_ne_none htidy.keyed hhydrates
    rcases hin with hbefore | hnow
    · refine .inl ⟨hdurable hbefore, fun hdelete => ?_⟩
      exact hordered.2.2 op hbefore _ (mem_append_left rest hdelete) rfl rfl
    · obtain ⟨before, after, hops⟩ := append_of_mem hnow
      refine .inr ⟨hknown, before, after, hop ▸ hops, fun hdelete => ?_⟩
      have hpair := hordered.2.1.1
      rw [hops, pairwise_append, pairwise_cons] at hpair
      exact hpair.2.1.1 _ hdelete rfl rfl

lemma VersionedStep.keeps (hop : op = .create id nsId size bound lens seq chunks)
    (hstep : VersionedStep id op tenantId (fun log => op ∉ log) v v')
    (h : v.Keeps id nsId op tenantId) : v'.Keeps id nsId op tenantId := by
  cases hstep with
  | write k hgone hrow hwritten =>
    obtain ⟨hconsumed, htidy, _, hknown, hdurable⟩ := h.nodes k
    have htouches := createRow_touches hrow
    refine h.setNode k ⟨hconsumed, htidy.touches htouches fun _ => ?_,
      createRow_holdsChunks hgone hrow, ?_, fun hin => absurd hgone.row (hdurable hin)⟩ h.live
    · rw [hwritten, nameKey_create]
    · rw [namespace?, namespace_touches htouches]
      exact hknown
  | incorporate hshard hrows =>
    apply h.append
    · exact fun _ => .inr rfl
    · rintro rfl
      cases hop
    · intro _ chunk hchunk
      exact (hrows chunk hchunk).live hshard
  | emitDelete k hget hmay hshard =>
    apply h.append
    · exact fun _ => .inl rfl
    · exact fun _ => hmay
    · rintro (rfl | hin)
      · cases hop
      · exact absurd hin hmay
  | mark k hdelete =>
    obtain ⟨hconsumed, htidy, hchunks, hknown, hdurable⟩ := h.nodes k
    obtain ⟨hrow, hnamespaces, hkept⟩ := delete_marks htidy hdelete
    have htouches : Touches id (nameKey op) _ _ := delete_touches htidy hdelete
    refine h.setNode k ⟨hconsumed, htidy.touches htouches fun _ => rfl, hkept _ hchunks, ?_,
      fun hin hnone => hdurable hin (hrow.1 hnone)⟩ h.live
    rw [namespace?, hnamespaces]
    exact hknown
  | @background _ shard hbackground hshard =>
    have hlive : op ∈ v.log → ∀ chunk ∈ op.chunkRefs, Live (tenantId, chunk) shard := by
      intro hin chunk hchunk
      rcases hshard with rfl | ⟨_, _, _, hshard⟩
      · exact h.live hin chunk hchunk
      · exact (h.live hin chunk hchunk).incorporates hshard
    cases hbackground with
    | poll k first count earliestVisible hfirst hwindow hreadable =>
      exact h.poll hop k count earliestVisible hfirst hlive
    | append d hforeign =>
      apply h.append
      · exact fun htarget => absurd htarget hforeign
      · rintro rfl
        exact absurd rfl hforeign
      · rintro (rfl | hin)
        · exact absurd (hop ▸ rfl) hforeign
        · exact hlive hin
    | other k hx htouches =>
      obtain ⟨hconsumed, htidy, hchunks, hknown, hdurable⟩ := h.nodes k
      refine h.setNode k ⟨hconsumed, htidy.touches htouches fun heq => absurd heq.symm hx,
        hchunks.touches htouches hx, ?_, ?_⟩ hlive
      · rw [namespace?, namespace_touches htouches]
        exact hknown
      · rw [get_touches_of_ne htouches hx]
        exact hdurable

lemma keeps_of_run (hop : op = .create id nsId size bound lens seq chunks)
    (hrun : ReflTransGen (VersionedStep id op tenantId fun log => op ∉ log) v v')
    (h : v.Keeps id nsId op tenantId) : v'.Keeps id nsId op tenantId := by
  induction hrun with
  | refl => exact h
  | tail _ hstep ih => exact hstep.keeps hop ih

/-- With the delete logged first, every node keeps the marked composition and its chunks. -/
theorem marked_composition_kept (hop : op = .create id nsId size bound lens seq chunks)
    (hblank : v.Blank id (nameKey op)) (huntargeted : ∀ d ∈ v.log, d.target ≠ some id)
    (hversioned : ∀ k, (v.nodes k).store.versioningEnabled nsId = true)
    (hrun : ReflTransGen (VersionedStep id op tenantId fun log => op ∉ log) v v')
    (hcreated : op ∈ v'.log)
    (hconsumed : ∀ k, (v'.nodes k).hydrator.lastAppliedCache = v'.log.length) :
    (∀ k, ∃ comp, (v'.nodes k).store.find id = some comp ∧ comp.chunks = chunks) ∧
      ∀ chunk ∈ chunks, Live (tenantId, chunk) v'.shard := by
  have hstart : v.Keeps id nsId op tenantId := by
    have hcreates : op.target = some id := hop ▸ rfl
    refine ⟨fun d hd htarget => absurd htarget (huntargeted d hd), ?_,
      fun hin => absurd hcreates (huntargeted op hin), fun k => ⟨hblank.consumed k, hblank.tidy k,
      (hblank.gone k).holdsChunks _, ?_, ?_⟩⟩
    · exact pairwise_of_forall_mem_list fun a _ b hb _ hdelete =>
        huntargeted b hb (hdelete ▸ rfl)
    · intro hnone
      have hflag := hversioned k
      rw [versioningEnabled, hnone] at hflag
      cases hflag
    · exact fun hin => absurd hcreates (huntargeted op (mem_of_mem_take hin))
  have hkeeps := keeps_of_run hop hrun hstart
  subst hop
  refine ⟨fun k => ?_, hkeeps.live hcreated⟩
  have hrow : (v'.nodes k).store.storage.get id ≠ none := by
    apply (hkeeps.nodes k).durable
    rw [hconsumed k, take_length]
    exact hcreated
  obtain ⟨comp, hfind⟩ : ∃ comp, (v'.nodes k).store.find id = some comp := by
    rw [← ne_none_iff_exists', find]
    exact fun hnone => hrow (or_eq_none_iff.1 hnone).2
  exact ⟨comp, hfind, (hkeeps.nodes k).chunks.find hfind⟩

end

def versionedStore : CompositionStore :=
  (new .memory 16).addNamespace
    ⟨⟨.replicate 16 2⟩, ⟨.replicate 16 1⟩, ⟨.replicate 16 1⟩, false, true⟩

def versionedNodes : Cluster Bool where
  nodes _ := ⟨⟨⟨.replicate 16 1⟩, 0, false, 3, 16⟩, versionedStore⟩
  log := []

def objectTenant : OrgId := ⟨.replicate 16 1⟩

def objectShard (newChunks : List NewChunkMeta) (shard : ShardSmInner) : ShardSmInner :=
  shard.apply ⟨.chunkAndDelta (createItem 9 []).toDeltaArgs newChunks [], 1, 0⟩

def objectChunks : List NewChunkMeta := [⟨Vector.replicate 32 120, [], 1⟩]

def versionedPut : Cluster Bool := versionedNodes.setStore true (withObject versionedStore)

def markedFirst : Vault Bool :=
  ⟨pollBoth (((versionedPut.append (.delete objectId)).setStore true
    (withoutObject (withObject versionedStore))).append objectCreate) 0,
    objectShard objectChunks (objectShard [] (plainShard 2 60000))⟩

def createdFirst : Cluster Bool := pollBoth (versionedPut.append objectCreate) 0

def markedLast : Vault Bool :=
  ⟨pollBoth ((createdFirst.append (.delete objectId)).setStore true
    (withoutObject (createdFirst.nodes true).store)) 1,
    objectShard [] (objectShard objectChunks (plainShard 2 60000))⟩

lemma versionedNodes_blank : versionedNodes.Blank objectId (nameKey objectCreate) := by
  obtain ⟨_, _, htidy, hgone⟩ := twoNodes_blank
  refine ⟨nofun, fun _ => Nat.le_refl 0, fun k => ?_, fun k => ?_⟩
  · exact ⟨(htidy k).keyed, (htidy k).overlayKeyed, (htidy k).bound, (htidy k).overlayBound⟩
  · exact ⟨⟨(hgone k).row, (hgone k).unbound⟩, ⟨(hgone k).overlay, (hgone k).overlayUnbound⟩⟩

lemma objectShard_incorporates (newChunks : List NewChunkMeta) (shard : ShardSmInner) :
    Incorporates objectTenant newChunks shard false (objectShard newChunks shard) := .commit _ rfl

lemma provided_of_none {shard : ShardSmInner}
    (hnone : shard.count (objectTenant, plainDerive [120]) = none)
    (hparked : shard.parked (objectTenant, plainDerive [120]) = 0) :
    ∀ chunk ∈ objectCreate.chunkRefs, Provided (objectTenant, chunk) objectChunks shard :=
  forall_mem_singleton.2 (.inr ⟨hnone, hparked, mem_singleton_self _⟩)

section
variable {may : List DeltaOp → Prop} {shard : ShardSmInner}

lemma versioned_write : VersionedStep objectId objectCreate objectTenant may
    ⟨versionedNodes, shard⟩ ⟨versionedPut, shard⟩ := by
  have hrow : createRow versionedStore (plainWrite [120]) (plainDraw 9) [plainDerive [120]] 1 =
      .ok (withObject versionedStore, objectId) := rfl
  exact .write true (versionedNodes_blank.gone true) hrow rfl

lemma run_versioned_pollBoth {c : Cluster Bool} {first : Nat}
    (h : ∀ k, (c.nodes k).hydrator.lastAppliedCache = first ∧
      (c.nodes k).hydrator.batchWindow = 16) :
    ReflTransGen (VersionedStep objectId objectCreate objectTenant may) ⟨c, shard⟩
      ⟨pollBoth c first, shard⟩ := by
  obtain ⟨hfirst, hsecond⟩ := @pollBoth_background (fun d => d.target ≠ some objectId)
    (fun _ => True) c first h trivial
  exact .tail (.single (.background hfirst (.inl rfl))) (.background hsecond (.inl rfl))

end

lemma run_markedFirst :
    ReflTransGen (VersionedStep objectId objectCreate objectTenant (objectCreate ∉ ·))
      ⟨versionedNodes, plainShard 2 60000⟩ markedFirst := by
  have hget : (versionedPut.nodes true).store.get objectId = .ok _ := rfl
  have hmark : (versionedPut.nodes true).store.delete objectId =
      .ok (withoutObject (withObject versionedStore), .deleteMarker) := rfl
  refine .head versioned_write (.head (.emitDelete true hget not_mem_nil
    (objectShard_incorporates [] _)) (.head (.mark true hmark) (.head (.incorporate
    (objectShard_incorporates objectChunks _) (provided_of_none rfl rfl)) ?_)))
  exact run_versioned_pollBoth (by decide)

theorem marked_composition_kept_behind_delete :
    (∃ comp, (markedFirst.nodes false).store.find objectId = some comp ∧
      comp.chunks = [plainDerive [120]]) ∧
      Live (objectTenant, plainDerive [120]) markedFirst.shard := by
  obtain ⟨hrows, hlive⟩ := marked_composition_kept (v := ⟨versionedNodes, plainShard 2 60000⟩)
    rfl versionedNodes_blank (fun d hd => absurd hd not_mem_nil) (fun _ => rfl) run_markedFirst
      (by decide) (fun k => by cases k <;> rfl)
  exact ⟨hrows false, hlive _ (mem_singleton_self _)⟩

theorem marked_composition_removed :
    versionedNodes.Blank objectId (nameKey objectCreate) ∧
      (∀ k, (versionedNodes.nodes k).store.versioningEnabled ⟨.replicate 16 2⟩ = true) ∧
      ReflTransGen (VersionedStep objectId objectCreate objectTenant fun _ => True)
        ⟨versionedNodes, plainShard 2 60000⟩ markedLast ∧
      (createdFirst.nodes true).store.delete objectId =
        .ok (withoutObject (createdFirst.nodes true).store, .deleteMarker) ∧
      (∀ k, (markedLast.nodes k).hydrator.lastAppliedCache = markedLast.log.length) ∧
      ∀ k, (markedLast.nodes k).store.find objectId = none := by
  have hget : (createdFirst.nodes true).store.get objectId = .ok _ := rfl
  have hmark : (createdFirst.nodes true).store.delete objectId =
      .ok (withoutObject (createdFirst.nodes true).store, .deleteMarker) := rfl
  refine ⟨versionedNodes_blank, fun _ => rfl, ?_, hmark, fun k => ?_, fun k => ?_⟩
  · refine .head versioned_write (.head (.incorporate (objectShard_incorporates objectChunks _)
      (provided_of_none rfl rfl)) (.trans (run_versioned_pollBoth
      (Bool.forall_bool.2 ⟨⟨rfl, rfl⟩, rfl, rfl⟩)) ?_))
    refine .head (.emitDelete true hget trivial (objectShard_incorporates [] _))
      (.head (.mark true hmark) ?_)
    exact run_versioned_pollBoth (by decide)
  · cases k <;> rfl
  · cases k <;> rfl

end Kiseki.Gateway
