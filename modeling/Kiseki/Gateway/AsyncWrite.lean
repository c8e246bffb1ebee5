import Kiseki.Gateway.Deletion

namespace Kiseki.Gateway
open Compositions Intent Log Relation Finmap CompositionStore List Option Bool

inductive Fate where
  | inFlight
  | acked
  | rejected
deriving DecidableEq, Repr

/-- The chunks still to be written, and the nodes with the intent. -/
structure Writing (N : Type) extends Cluster N where
  chunks : ChunkStore
  inlined : Finmap fun _ : ChunkId => Bytes
  staged : List (ChunkId × Bytes)
  holders : Finset N
  fate : Fate

/-- The node, the id and delta of the row, and if it is volatile. -/
structure FannedWrite (N : Type) where
  ingress : N
  id : CompositionId
  op : DeltaOp
  volatileCreated : Bool
  minAcks : Nat

def rollback (st : CompositionStore) (id : CompositionId) (volatileCreated : Bool) :
    CompositionStore :=
  let (st, discarded) := if volatileCreated then st.discardVolatile id else (st, false)
  if discarded then st
  else
    match st.delete id with
    | .ok (st, _) => st
    | .error _ => st

section
variable {N : Type} [DecidableEq N]

/-- A fan may fail at any time; nothing takes an intent back. -/
inductive FanStep (f : FannedWrite N) (Holdable Rejectable : Writing N → Prop) (w : Writing N) :
    Writing N → Prop where
  | storeChunk {chunk : ChunkId} {data : Bytes} {rest : List (ChunkId × Bytes)}
      (hstaged : w.staged = (chunk, data) :: rest) :
      FanStep f Holdable Rejectable w
        { w with chunks := (w.chunks.writeChunk chunk data).1, staged := rest }
  | hold (k : N) (hholdable : Holdable w) :
      FanStep f Holdable Rejectable w { w with holders := insert k w.holders }
  | incorporate (hholders : w.holders.Nonempty) :
      FanStep f Holdable Rejectable w { w with toCluster := w.toCluster.append f.op }
  | ack (hflight : w.fate = .inFlight) (hstaged : w.staged = [])
      (hquorum : f.minAcks ≤ w.holders.card) :
      FanStep f Holdable Rejectable w { w with fate := .acked }
  | reject (hflight : w.fate = .inFlight) (hrejectable : Rejectable w) :
      FanStep f Holdable Rejectable w
        { w with
          toCluster := w.toCluster.setStore f.ingress
            (rollback (w.nodes f.ingress).store f.id f.volatileCreated)
          fate := .rejected }
  | background {c : Cluster N} (hbackground : Background f.id (fun op => op.target ≠ some f.id)
        (fun _ => True) w.toCluster c) :
      FanStep f Holdable Rejectable w { w with toCluster := c }

def Timely (w : Writing N) : Prop := w.fate ≠ .rejected

/-- No node has the intent, and the row can be taken back. -/
def Withdrawable (f : FannedWrite N) (w : Writing N) : Prop :=
  w.holders = ∅ ∧
    ((w.nodes f.ingress).store.pending.lookup f.id ≠ none ∨
      ∀ comp, (w.nodes f.ingress).store.storage.get f.id = some comp →
        (w.nodes f.ingress).store.versioningEnabled comp.namespaceId = false)

end

def Held (chunks : ChunkStore) (inlined : Finmap fun _ : ChunkId => Bytes) (id : ChunkId) : Prop :=
  ∃ data, Stored chunks inlined id data

section
variable {chunks chunks' : ChunkStore} {inlined : Finmap fun _ : ChunkId => Bytes} {id c : ChunkId}

lemma held_writeChunk (h : Held chunks inlined c) (data : Bytes) :
    Held (chunks.writeChunk id data).1 inlined c := by
  obtain ⟨b, hb | hb⟩ := h
  · exact ⟨b, .inl hb⟩
  · refine ⟨b, .inr ?_⟩
    rw [ChunkStore.readChunk_writeChunk, hb, some_or]

variable {data : Bytes}

lemma held_self_writeChunk : Held (chunks.writeChunk id data).1 inlined id := by
  cases hread : chunks.readChunk id with
  | some b => exact held_writeChunk ⟨b, .inr hread⟩ data
  | none =>
    refine ⟨data, .inr ?_⟩
    rw [ChunkStore.readChunk_writeChunk, hread, if_pos rfl, none_or]

lemma held_tryIncrement (h : chunks.tryIncrementIfExists id = some chunks') :
    Held chunks' inlined c ↔ Held chunks inlined c := by
  simp only [Held, Stored, ChunkStore.readChunk_tryIncrementIfExists h]

lemma held_self_tryIncrement (h : chunks.tryIncrementIfExists id = some chunks') :
    Held chunks' inlined id := by
  rw [held_tryIncrement h]
  cases hread : chunks.readChunk id with
  | some b => exact ⟨b, .inr hread⟩
  | none =>
    rw [ChunkStore.tryIncrementIfExists_eq_none.2 hread] at h
    cases h

lemma held_inline (h : Held chunks inlined c) : Held chunks (inlined.insert id data) c := by
  by_cases hc : c = id
  · subst hc
    exact ⟨data, .inl (lookup_insert _)⟩
  · obtain ⟨b, hb⟩ := h
    exact ⟨b, hb.imp_left (lookup_insert_of_ne _ hc).trans⟩

end

structure Landing.Covers (gw : InMemoryGateway) (l : Landing) : Prop where
  kept : ∀ c, Held gw.chunks gw.inlined c → Held l.chunks l.inlined c
  landed : ∀ c ∈ l.landed.map ChunkLanded.id,
    Held l.chunks l.inlined c ∨ c ∈ l.staged.map Prod.fst

section
variable {deriveChunkId : Bytes → ChunkId} {gw : InMemoryGateway}

lemma Landing.Covers.landPiece {l : Landing} (h : l.Covers gw) (willInline : Bool)
    (piece : Bytes) : (landPiece deriveChunkId willInline l piece).Covers gw := by
  simp only [Gateway.landPiece]
  cases htry : l.chunks.tryIncrementIfExists (deriveChunkId piece) with
  | some chunks =>
    refine ⟨fun c hc => (held_tryIncrement htry).2 (h.kept c hc), ?_⟩
    rw [map_append]
    refine forall_mem_append.2 ⟨fun c hold => ?_, forall_mem_singleton.2 ?_⟩
    · exact (h.landed c hold).imp_left (held_tryIncrement htry).2
    · exact .inl (held_self_tryIncrement htry)
  | none =>
    cases willInline with
    | true =>
      refine ⟨fun c hc => held_inline (h.kept c hc), ?_⟩
      rw [if_pos rfl, map_append]
      refine forall_mem_append.2 ⟨fun c hold => ?_, forall_mem_singleton.2 ?_⟩
      · exact (h.landed c hold).imp_left fun hc => held_inline hc
      · exact .inl ⟨piece, .inl (lookup_insert _)⟩
    | false =>
      refine ⟨h.kept, ?_⟩
      intro c hc
      rw [if_neg Bool.false_ne_true, map_append, mem_append] at hc ⊢
      rcases hc with hold | hnew
      · exact (h.landed c hold).imp_right .inl
      · exact .inr (.inr hnew)

def Complete (gw : InMemoryGateway) : Prop :=
  ∀ x comp, gw.compositions.find x = some comp → ∀ c ∈ comp.chunks, Held gw.chunks gw.inlined c

end

def Provisional (volatileCreated : Bool) (id : CompositionId) (st : CompositionStore) : Prop :=
  volatileCreated = true ∧ Undurable id st ∨ Unpending id st ∧ st.storage.get id ≠ none

section
variable {st st' : CompositionStore} {id : CompositionId} {name : Option NameKey} {v : Bool}
  {ops : List DeltaOp}

lemma Provisional.hydrates (h : Provisional v id st) (htidy : Tidy name id st)
    (hhydrates : Hydrates st ops st') (hops : ∀ op ∈ ops, op.target ≠ some id) :
    Provisional v id st' := by
  have hcreated : ∀ op ∈ ops, op.created ≠ some id := fun op hop hcreated =>
    hops op hop (DeltaOp.target_of_created hcreated)
  rcases h with ⟨hv, hundurable⟩ | ⟨hunpending, hrow⟩
  · exact .inl ⟨hv, hundurable.hydrates htidy hhydrates hcreated⟩
  · refine .inr ⟨hunpending.hydrates htidy hhydrates, fun hnone => hrow ?_⟩
    have hget := get_hydrates htidy.keyed hhydrates id
    rw [hnone, view_stageAll_of_ne htidy.keyed ops hops, Staging.view_empty] at hget
    exact map_eq_none_iff.1 hget.symm

lemma Provisional.touches (h : Provisional v id st) {x : CompositionId} {key : Option NameKey}
    (htouches : Touches x key st st') (hx : id ≠ x) : Provisional v id st' := by
  rcases h with ⟨hv, hundurable⟩ | ⟨hunpending, hrow⟩
  · exact .inl ⟨hv, hundurable.touches htouches hx⟩
  · refine .inr ⟨hunpending.touches htouches hx, ?_⟩
    rw [get_touches_of_ne htouches hx]
    exact hrow

lemma createRow_cases {req : WriteRequest} {draw : Draw} (hgone : Gone id st)
    (h : createRow st req draw chunkIds size = .ok (st', id)) :
    ∃ comp : Composition, comp.chunks = chunkIds ∧
      (st'.pending = st.pending ∧ st'.pendingNames.Unbound id ∧ st'.storage.get id = some comp ∨
        req.compIdOverride = none ∧ st'.storage = st.storage ∧
          st'.pending = st.pending.insert id comp) := by
  have hnamed (ns : Namespace) (key : NameKey) :
      (st.storage.putWithName (.new ns id chunkIds [] size) key).get id =
        some (.new ns id chunkIds [] size) := by
    rw [Storage.get, Storage.compositions_putWithName]
    exact lookup_insert _
  simp only [createRow] at h
  split at h
  · obtain ⟨hcreate, rfl⟩ := map_pair_ok h
    obtain ⟨ns, _, rfl⟩ := createAt_ok hgone.row hcreate
    exact ⟨.new ns id chunkIds [] size, rfl, .inl ⟨rfl, hgone.overlayUnbound, lookup_insert _⟩⟩
  · rename_i hoverride _
    split at h <;> obtain ⟨hcreate, rfl⟩ := map_pair_ok h
    · obtain ⟨ns, _, rfl | rfl⟩ := createWithNameVolatile_ok hcreate
      · exact ⟨_, rfl, .inl ⟨rfl, hgone.overlayUnbound.removeByName _, hnamed ns _⟩⟩
      · exact ⟨.new ns draw.id chunkIds [] size, rfl, .inr ⟨hoverride, rfl, rfl⟩⟩
    · obtain ⟨ns, _, rfl⟩ := createWithName_ok hcreate
      exact ⟨_, rfl, .inl ⟨rfl, hgone.overlayUnbound, hnamed ns _⟩⟩
  · rename_i hoverride _
    split at h <;> obtain ⟨hcreate, rfl⟩ := map_pair_ok h
    · obtain ⟨ns, _, rfl | rfl⟩ := createVolatile_ok hcreate
      · exact ⟨.new ns draw.id chunkIds [] size, rfl,
          .inl ⟨rfl, hgone.overlayUnbound, lookup_insert _⟩⟩
      · exact ⟨.new ns draw.id chunkIds [] size, rfl, .inr ⟨hoverride, rfl, rfl⟩⟩
    · obtain ⟨ns, _, rfl⟩ := createWithLens_ok hcreate
      exact ⟨.new ns draw.id chunkIds [] size, rfl,
        .inl ⟨rfl, hgone.overlayUnbound, lookup_insert _⟩⟩

lemma createRow_holdsChunks {req : WriteRequest} {draw : Draw} (hgone : Gone id st)
    (h : createRow st req draw chunkIds size = .ok (st', id)) : HoldsChunks id chunkIds st' := by
  obtain ⟨comp, rfl, ⟨hpending, _, hrow⟩ | ⟨_, hstorage, hpending⟩⟩ := createRow_cases hgone h
  · refine ⟨fun row hoverlay => ?_, fun row hdurable => ?_⟩
    · rw [hpending, hgone.overlay] at hoverlay
      cases hoverlay
    · rw [some.inj (hdurable.symm.trans hrow)]
  · refine ⟨fun row hoverlay => ?_, fun row hdurable => ?_⟩
    · rw [hpending, lookup_insert] at hoverlay
      rw [some.inj hoverlay]
    · rw [hstorage, hgone.row] at hdurable
      cases hdurable

lemma delete_unversioned {comp : Composition} (hpending : st.pending.lookup id = none)
    (hrow : st.storage.get id = some comp)
    (hunversioned : st.versioningEnabled comp.namespaceId = false) :
    st.delete id = .ok ({ st with storage := st.storage.remove id }, .removed comp.chunks) := by
  simp only [delete, hpending, hrow, hunversioned, false_eq_true, if_false]

lemma gone_delete {comp : Composition} (htidy : Tidy name id st) (hunpending : Unpending id st)
    (hrow : st.storage.get id = some comp)
    (hunversioned : st.versioningEnabled comp.namespaceId = false) :
    ∃ st' result, st.delete id = .ok (st', result) ∧ Gone id st' :=
  ⟨_, _, delete_unversioned hunpending.overlay hrow hunversioned,
    ⟨⟨Storage.get_remove_self, htidy.bound.dropRow_self rfl⟩,
      ⟨hunpending.overlay, hunpending.overlayUnbound⟩⟩⟩

lemma rollback_gone (htidy : Tidy name id st) (h : Provisional v id st)
    (hguard : st.pending.lookup id ≠ none ∨ ∀ comp, st.storage.get id = some comp →
      st.versioningEnabled comp.namespaceId = false) : Gone id (rollback st id v) := by
  rcases h with ⟨rfl, hundurable⟩ | ⟨hunpending, hrow⟩
  · have hgone : Gone id (st.discardVolatile id).1 :=
      ⟨⟨hundurable.row, hundurable.unbound⟩, htidy.discardVolatile_self⟩
    simp only [rollback, if_true, hgone.delete]
    split <;> exact hgone
  · obtain ⟨comp, hcomp⟩ := ne_none_iff_exists'.1 hrow
    have hunversioned :=
      hguard.resolve_left (fun hpending => hpending hunpending.overlay) comp hcomp
    cases v with
    | false =>
      obtain ⟨st', result, hdelete, hgone⟩ := gone_delete htidy hunpending hcomp hunversioned
      simp only [rollback, false_eq_true, if_false, hdelete]
      exact hgone
    | true =>
      have hnone : (st.discardVolatile id).2 = false := by
        simp only [discardVolatile, hunpending.overlay, isSome_none]
      obtain ⟨st', result, hdelete, hgone⟩ := gone_delete (htidy.discardVolatile id)
        (hunpending.discardVolatile id) hcomp hunversioned
      simp only [rollback, if_true, hnone, false_eq_true, if_false, hdelete]
      exact hgone

lemma gone_rollback (h : Gone id st) : Gone id (rollback st id v) := by
  have hdiscard : Gone id (st.discardVolatile id).1 :=
    ⟨⟨h.row, h.unbound⟩, h.toUnpending.discardVolatile id⟩
  cases v with
  | false =>
    simp only [Gateway.rollback, false_eq_true, if_false, h.delete]
    exact h
  | true =>
    simp only [Gateway.rollback, if_true, hdiscard.delete]
    split <;> exact hdiscard

lemma tidy_rollback (htidy : Tidy name id st) : Tidy name id (rollback st id v) := by
  have hdelete : ∀ {t : CompositionStore}, Tidy name id t →
      Tidy name id (match t.delete id with
        | .ok (st, _) => st
        | .error _ => t) := by
    intro t ht
    split
    · rename_i hdelete
      exact ht.touches (delete_touches ht hdelete) fun _ => rfl
    · exact ht
  cases v with
  | false => exact hdelete htidy
  | true =>
    simp only [Gateway.rollback, if_true]
    split
    · exact htidy.discardVolatile id
    · exact hdelete (htidy.discardVolatile id)

end

/-- Without the intent the row is only where it came in. -/
structure FannedWrite.Kept {N : Type} (f : FannedWrite N) (holders : Finset N) (fate : Fate) (k : N)
    (st : CompositionStore) : Prop where
  tidy : Tidy (nameKey f.op) f.id st
  chunks : HoldsChunks f.id f.op.chunkRefs st
  visible : holders = ∅ → Gone f.id st ∨
    k = f.ingress ∧ fate ≠ .rejected ∧ Provisional f.volatileCreated f.id st

structure FannedWrite.Sound {N : Type} (f : FannedWrite N) (w : Writing N) : Prop where
  log : ∀ d ∈ w.log, d.target = some f.id → d = f.op
  incorporated : f.op ∈ w.log → w.holders.Nonempty
  nodes : ∀ k, f.Kept w.holders w.fate k (w.nodes k).store
  covered : ∀ c ∈ f.op.chunkRefs, Held w.chunks w.inlined c ∨ c ∈ w.staged.map Prod.fst
  acked : w.fate = .acked → w.staged = []
  rejected : w.fate = .rejected → w.holders = ∅

section
variable {N : Type} {f : FannedWrite N} {w w' : Writing N}

lemma FannedWrite.Sound.foreign (h : f.Sound w) (hholders : w.holders = ∅) :
    ∀ d ∈ w.log, d.target ≠ some f.id := by
  intro d hd htarget
  obtain rfl := h.log d hd htarget
  exact (h.incorporated hd).ne_empty hholders

lemma FannedWrite.Sound.named (h : f.Sound w) : Named (nameKey f.op) f.id w.log := by
  rintro d hd b hbound hid
  have hcreated := DeltaOp.created_of_bound hbound
  rw [hid] at hcreated
  obtain rfl := h.log d hd (DeltaOp.target_of_created hcreated)
  rw [nameKey, hbound]
  rfl

lemma FannedWrite.Sound.append (h : f.Sound w) {d : DeltaOp}
    (hd : d.target = some f.id → d = f.op) (hholders : d = f.op → w.holders.Nonempty) :
    f.Sound { w with toCluster := w.toCluster.append d } := by
  refine ⟨forall_mem_append.2 ⟨h.log, forall_mem_singleton.2 hd⟩, fun hmem => ?_, h.nodes,
    h.covered, h.acked, h.rejected⟩
  rcases mem_append.1 hmem with hmem | hmem
  · exact h.incorporated hmem
  · exact hholders (mem_singleton.1 hmem).symm

variable [DecidableEq N]

lemma FannedWrite.Sound.setStore (h : f.Sound w) (k : N) {st : CompositionStore}
    (hkept : f.Kept w.holders w.fate k st) :
    f.Sound { w with toCluster := w.toCluster.setStore k st } :=
  ⟨h.log, h.incorporated,
    Cluster.forall_setNode (fun j node => f.Kept w.holders w.fate j node.store) hkept
      fun j _ => h.nodes j, h.covered, h.acked, h.rejected⟩

lemma FannedWrite.Sound.poll (h : f.Sound w) (hop : f.op.created = some f.id) (k : N)
    (count : Nat) (earliestVisible : Option Nat)
    (hfirst : (w.nodes k).hydrator.lastAppliedCache ≤ first) :
    f.Sound { w with toCluster := w.toCluster.poll k first count earliestVisible } := by
  obtain ⟨ops, hydrator, st, heq, _, hhydrates, htaken, _⟩ :=
    w.toCluster.poll_cases count earliestVisible hfirst
  obtain ⟨htidy, hchunks, hvisible⟩ := h.nodes k
  have hmem : ∀ op ∈ ops, op ∈ w.log := fun op hop =>
    mem_of_mem_drop (htaken.subset hop)
  have hnamed : Named (nameKey f.op) f.id ops := fun op hop => h.named op (hmem op hop)
  have hkept : f.Kept w.holders w.fate k st := by
    refine ⟨htidy.hydrates hhydrates hnamed, ?_, ?_⟩
    · apply hchunks.hydrates htidy.keyed hhydrates
      intro d hd htarget
      obtain rfl := h.log d (hmem d hd) htarget
      exact .inr ⟨hop, rfl⟩
    · intro hholders
      have hforeign : ∀ d ∈ ops, d.target ≠ some f.id := fun d hd =>
        h.foreign hholders d (hmem d hd)
      rcases hvisible hholders with hgone | ⟨hk, hfate, hprovisional⟩
      · left
        apply hgone.hydrates htidy hhydrates
        exact fun d hd hcreated => hforeign d hd (DeltaOp.target_of_created hcreated)
      · exact .inr ⟨hk, hfate, hprovisional.hydrates htidy hhydrates hforeign⟩
  rw [heq]
  exact ⟨h.log, h.incorporated,
    Cluster.forall_setNode (fun j node => f.Kept w.holders w.fate j node.store) hkept
      fun j _ => h.nodes j, h.covered, h.acked, h.rejected⟩

lemma FannedWrite.Sound.background (h : f.Sound w) (hop : f.op.created = some f.id)
    {c : Cluster N} (hbackground : Background f.id (fun op => op.target ≠ some f.id)
      (fun _ => True) w.toCluster c) : f.Sound { w with toCluster := c } := by
  cases hbackground with
  | poll k first count earliestVisible hfirst hwindow hreadable =>
    exact h.poll hop k count earliestVisible hfirst
  | append d hforeign =>
    apply h.append
    · exact fun htarget => absurd htarget hforeign
    · rintro rfl
      exact absurd (DeltaOp.target_of_created hop) hforeign
  | other k hx htouches =>
    obtain ⟨htidy, hchunks, hvisible⟩ := h.nodes k
    refine h.setStore k ⟨htidy.touches htouches fun heq => absurd heq.symm hx,
      hchunks.touches htouches hx, fun hholders => ?_⟩
    rcases hvisible hholders with hgone | ⟨hk, hfate, hprovisional⟩
    · exact .inl ⟨hgone.toUndurable.touches htouches hx, hgone.toUnpending.touches htouches hx⟩
    · exact .inr ⟨hk, hfate, hprovisional.touches htouches hx⟩

lemma FannedWrite.Sound.reject (h : f.Sound w) (hwithdrawable : Withdrawable f w) :
    f.Sound { w with
      toCluster := w.toCluster.setStore f.ingress
        (rollback (w.nodes f.ingress).store f.id f.volatileCreated)
      fate := .rejected } := by
  obtain ⟨hholders, hguard⟩ := hwithdrawable
  obtain ⟨htidy, _, hvisible⟩ := h.nodes f.ingress
  have hgone : Gone f.id (rollback (w.nodes f.ingress).store f.id f.volatileCreated) := by
    rcases hvisible hholders with hgone | ⟨_, _, hprovisional⟩
    · exact gone_rollback hgone
    · exact rollback_gone htidy hprovisional hguard
  refine ⟨h.log, h.incorporated, ?_, h.covered, nofun, fun _ => hholders⟩
  apply Cluster.forall_setNode (fun j node => f.Kept w.holders .rejected j node.store)
  · exact ⟨tidy_rollback htidy, hgone.holdsChunks _, fun _ => .inl hgone⟩
  · intro j hj
    obtain ⟨htidy, hchunks, hvisible⟩ := h.nodes j
    refine ⟨htidy, hchunks, fun hholders => .inl ?_⟩
    exact (hvisible hholders).resolve_right fun hingress => hj hingress.1

lemma FanStep.sound (hstep : FanStep f Timely (Withdrawable f) w w')
    (hop : f.op.created = some f.id) (h : f.Sound w) : f.Sound w' := by
  cases hstep with
  | @storeChunk chunk data rest hstaged =>
    refine ⟨h.log, h.incorporated, h.nodes, ?_, ?_, h.rejected⟩
    · intro c hc
      rcases h.covered c hc with hheld | hmem
      · exact .inl (held_writeChunk hheld data)
      · rw [hstaged, map_cons, mem_cons] at hmem
        rcases hmem with rfl | hmem
        · exact .inl held_self_writeChunk
        · exact .inr hmem
    · intro hacked
      rw [h.acked hacked] at hstaged
      cases hstaged
  | hold k hholdable =>
    refine ⟨h.log, fun _ => Finset.insert_nonempty _ _, fun j => ?_, h.covered, h.acked, ?_⟩
    · obtain ⟨htidy, hchunks, _⟩ := h.nodes j
      exact ⟨htidy, hchunks, fun hempty => absurd hempty (Finset.insert_ne_empty _ _)⟩
    · exact fun hrejected => absurd hrejected hholdable
  | incorporate hholders => exact h.append (fun _ => rfl) fun _ => hholders
  | ack hflight hstaged hquorum =>
    refine ⟨h.log, h.incorporated, fun j => ?_, h.covered, fun _ => hstaged, nofun⟩
    obtain ⟨htidy, hchunks, hvisible⟩ := h.nodes j
    refine ⟨htidy, hchunks, fun hholders => ?_⟩
    exact (hvisible hholders).imp_right fun hprovisional =>
      ⟨hprovisional.1, nofun, hprovisional.2.2⟩
  | reject hflight hrejectable => exact h.reject hrejectable
  | background hbackground => exact h.background hop hbackground

end

section
variable {N : Type} [DecidableEq N] {c : Cluster N} {k : N} {req : WriteRequest} {draw : Draw}
  {p : Prepared} {deriveChunkId : Bytes → ChunkId} {chunks : ChunkStore}
  {inlined : Finmap fun _ : ChunkId => Bytes} {w : Writing N}

end

end Kiseki.Gateway
