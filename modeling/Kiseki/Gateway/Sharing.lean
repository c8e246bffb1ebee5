import Kiseki.Gateway.Read
import Kiseki.Log.Refcount
import Mathlib.Algebra.BigOperators.Group.Finset.Basic

namespace Kiseki.Gateway
open Compositions Intent Log Relation Finmap Option Finset Nat CompositionStore Prod
open List hiding mem_keys

structure Shared where
  gateway : InMemoryGateway
  shard : ShardSmInner

def refsIn (key : ChunkKey) : Option Composition → Nat
  | some comp => if comp.tenantId = key.1 then comp.chunks.count key.2 else 0
  | none => 0

def liveIds (st : CompositionStore) : Finset CompositionId :=
  st.pending.keys ∪ st.storage.compositions.keys

def references (st : CompositionStore) (key : ChunkKey) : Nat :=
  ∑ id ∈ liveIds st, refsIn key (st.find id)

section
variable {st st' : CompositionStore} {id : CompositionId}

lemma find_of_notMem_liveIds (h : id ∉ liveIds st) : st.find id = none := by
  rw [liveIds, Finset.mem_union, not_or, mem_keys, mem_keys] at h
  rw [find_eq_none, Storage.get]
  exact ⟨lookup_eq_none.2 h.1, lookup_eq_none.2 h.2⟩

lemma references_eq_sum {ids : Finset CompositionId} (h : liveIds st ⊆ ids) (key : ChunkKey) :
    references st key = ∑ id ∈ ids, refsIn key (st.find id) := by
  apply sum_subset h
  intro id _ hid
  rw [find_of_notMem_liveIds hid]
  rfl

lemma references_congr {key : ChunkKey}
    (h : ∀ id, refsIn key (st'.find id) = refsIn key (st.find id)) :
    references st' key = references st key := by
  have hst : liveIds st ⊆ liveIds st ∪ liveIds st' := subset_union_left
  have hst' : liveIds st' ⊆ liveIds st ∪ liveIds st' := subset_union_right
  rw [references_eq_sum hst, references_eq_sum hst']
  exact sum_congr rfl fun id _ => h id

lemma references_differAt (h : CompositionStore.DifferAt st st' id) (key : ChunkKey) :
    references st' key + refsIn key (st.find id) =
      references st key + refsIn key (st'.find id) := by
  let ids := insert id (liveIds st ∪ liveIds st')
  have hst : liveIds st ⊆ ids := subset_union_left.trans (subset_insert _ _)
  have hst' : liveIds st' ⊆ ids := subset_union_right.trans (subset_insert _ _)
  have hid : id ∈ ids := mem_insert_self _ _
  have hothers : ∑ x ∈ ids.erase id, refsIn key (st'.find x) =
      ∑ x ∈ ids.erase id, refsIn key (st.find x) :=
    sum_congr rfl fun x hx => by rw [h.others x (ne_of_mem_erase hx)]
  rw [references_eq_sum hst, references_eq_sum hst',
    ← add_sum_erase ids (fun x => refsIn key (st.find x)) hid,
    ← add_sum_erase ids (fun x => refsIn key (st'.find x)) hid, hothers]
  omega

end

def Referenced (st : CompositionStore) (key : ChunkKey) : Prop :=
  ∃ id comp, st.find id = some comp ∧ comp.tenantId = key.1 ∧ key.2 ∈ comp.chunks

lemma refsIn_pos {row : Option Composition} {key : ChunkKey} :
    0 < refsIn key row ↔ ∃ comp, row = some comp ∧ comp.tenantId = key.1 ∧ key.2 ∈ comp.chunks := by
  cases row with
  | none => exact ⟨nofun, nofun⟩
  | some comp =>
    rw [refsIn]
    split
    · rename_i htenant
      rw [count_pos_iff]
      exact ⟨fun h => ⟨comp, rfl, htenant, h⟩, fun ⟨_, heq, _, h⟩ => some.inj heq ▸ h⟩
    · rename_i htenant
      exact ⟨nofun, fun ⟨_, heq, h, _⟩ => absurd (some.inj heq ▸ h) htenant⟩

lemma references_pos {st : CompositionStore} {key : ChunkKey} :
    0 < references st key ↔ Referenced st key := by
  constructor
  · intro h
    obtain ⟨id, _, hid⟩ := exists_ne_zero_of_sum_ne_zero h.ne'
    obtain ⟨comp, hcomp⟩ := refsIn_pos.1 (Nat.pos_of_ne_zero hid)
    exact ⟨id, comp, hcomp⟩
  · rintro ⟨id, comp, hfind, hrefs⟩
    have hlive : id ∈ liveIds st := by
      by_contra hid
      rw [find_of_notMem_liveIds hid] at hfind
      cases hfind
    have hpos : 0 < refsIn key (st.find id) := refsIn_pos.2 ⟨comp, hfind, hrefs⟩
    rw [references, ← add_sum_erase _ _ hlive]
    exact Nat.add_pos_left hpos _

def newChunkMetas (placement : ChunkId → List Nat) (landed : List ChunkLanded) :
    List NewChunkMeta :=
  (landed.filter ChunkLanded.wasNew).map fun l => ⟨l.id.bytes, placement l.id, l.ciphertextLen⟩

def newPartMetas (placement : ChunkId → List Nat) (parts : List MultipartPart) :
    List NewChunkMeta :=
  (parts.filter MultipartPart.wasNew).map fun part =>
    ⟨part.chunkId.bytes, placement part.chunkId, part.size⟩

/-- By its intent, or by the commit of a synchronous surface. -/
inductive Incorporates (tenantId : OrgId) (newChunks : List NewChunkMeta) (shard : ShardSmInner) :
    Bool → ShardSmInner → Prop where
  | intent (item : IncorporateItem) (htenant : item.tenantIdBytes = tenantId.uuid)
      (hchunks : item.newChunks = newChunks)
      (haccepted : shard.refuses item.perspectiveSeq logIndex = false) :
      Incorporates tenantId newChunks shard true
        (shard.apply ⟨.incorporateIntents [item], logIndex, nowMs⟩)
  | commit (args : DeltaArgs) (htenant : args.tenantIdBytes = tenantId.uuid) :
      Incorporates tenantId newChunks shard false
        (shard.apply ⟨.chunkAndDelta args newChunks inlinePayloads, logIndex, nowMs⟩)

/-- Both counts of a chunk go down; tombstones are reported. -/
def releaseChunks (tenantId : OrgId) :
    List ChunkId → ChunkStore → ShardSmInner → ChunkStore × ShardSmInner × List (ChunkId × Bool)
  | [], held, shard => (held, shard, [])
  | chunk :: chunks, held, shard =>
    let (shard, tombstoned) := shard.decrementChunkRefcount (tenantId, chunk)
    let (held, shard, reports) :=
      releaseChunks tenantId chunks (held.decrementRefcount chunk) shard
    (held, shard, (chunk, tombstoned) :: reports)

/-- The delete is committed first; a versioned namespace releases nothing. -/
def Shared.delete (s : Shared) (tenantId : OrgId) (id : CompositionId) (delta : DeltaArgs)
    (logIndex nowMs : Nat) : Except GatewayError (Shared × List (ChunkId × Bool)) :=
  match s.gateway.compositions.get id with
  | .error e => .error (.upstream e)
  | .ok comp =>
    if comp.tenantId = tenantId then
      let shard := s.shard.apply ⟨.chunkAndDelta delta [] [], logIndex, nowMs⟩
      match s.gateway.compositions.delete id with
      | .error e => .error (.upstream e)
      | .ok (st, .deleteMarker) => .ok (⟨{ s.gateway with compositions := st }, shard⟩, [])
      | .ok (st, .removed chunks) =>
        let (held, shard, reports) := releaseChunks tenantId chunks s.gateway.chunks shard
        .ok (⟨{ s.gateway with chunks := held, compositions := st }, shard⟩, reports)
    else .error .authenticationFailed

section
variable (deriveChunkId : Bytes → ChunkId) (placement : ChunkId → List Nat)

/-- An operation that makes an object's row, its delta applied. -/
inductive Creates (s : Shared) :
    CompositionId → OrgId → List ChunkId → List ChunkId → Shared → Prop where
  | write {req : WriteRequest} {draw : Draw} {p : Prepared} {ns : Namespace}
      (hns : s.gateway.compositions.namespace? req.namespaceId = some ns)
      (hprepare : prepareWrite deriveChunkId s.gateway req draw = .ok p)
      (hshard : Incorporates ns.tenantId (newChunkMetas placement p.landed) s.shard
        req.surface.isAsyncAckEligible shard) :
      Creates s p.response.compositionId ns.tenantId p.chunkRefs
        ((p.landed.filter ChunkLanded.wasNew).map ChunkLanded.id) ⟨p.acked, shard⟩
  | completeMultipart {upload : MultipartUpload} {ns : Namespace} {id : CompositionId}
      (hlookup : s.gateway.compositions.multiparts.lookup uploadId = some (upload, nsId))
      (hns : s.gateway.compositions.namespace? nsId = some ns)
      (hcomplete : completeMultipart s.gateway uploadId name id = .ok gw)
      (hshard : Incorporates ns.tenantId (newPartMetas placement upload.parts) s.shard true
        shard) :
      Creates s id ns.tenantId (upload.parts.map MultipartPart.chunkId)
        ((upload.parts.filter MultipartPart.wasNew).map MultipartPart.chunkId) ⟨gw, shard⟩

inductive Step (allowed : Shared → CompositionId → OrgId → List ChunkId → List ChunkId → Prop)
    (s : Shared) : Shared → Prop where
  | create {id : CompositionId}
      (hcreate : Creates deriveChunkId placement s id tenantId chunks landed s')
      (hallowed : allowed s id tenantId chunks landed) : Step allowed s s'
  | startMultipart (h : startMultipart s.gateway uploadId nsId = .ok gw) :
      Step allowed s ⟨gw, s.shard⟩
  | uploadPart (h : uploadPart deriveChunkId s.gateway uploadId partNumber data = .ok gw) :
      Step allowed s ⟨gw, s.shard⟩
  | delete {id : CompositionId}
      (h : s.delete tenantId id delta logIndex nowMs = .ok (s', reports)) : Step allowed s s'
  /-- What leaves the rows' chunks and the counts alone. -/
  | other {s' : Shared}
      (hrows : ∀ id key, refsIn key (s'.gateway.compositions.find id) =
        refsIn key (s.gateway.compositions.find id))
      (hsound : s.gateway.compositions.RowsSound → s'.gateway.compositions.RowsSound)
      (hcount : ∀ key, s'.shard.count key = s.shard.count key) : Step allowed s s'

end

/-- No chunk has a row, and a landed one is nowhere else. -/
structure Unshared (s : Shared) (id : CompositionId) (tenantId : OrgId)
    (chunks landed : List ChunkId) : Prop where
  fresh : s.gateway.compositions.find id = none
  rowless : ∀ chunk ∈ chunks, s.shard.count (tenantId, chunk) = none
  sole : ∀ chunk ∈ landed, chunks.count chunk = 1 ∧
    references s.gateway.compositions (tenantId, chunk) = 0 ∧ s.shard.parked (tenantId, chunk) = 0

structure Shared.Exact (s : Shared) : Prop where
  sound : s.gateway.compositions.RowsSound
  counts : ∀ key, s.shard.count key ≠ none →
    Counts key s.shard (references s.gateway.compositions key)

section
variable {s s' : Shared} {shard shard' : ShardSmInner} {key : ChunkKey}

lemma Incorporates.count (h : Incorporates tenantId newChunks shard async shard')
    (key : ChunkKey) :
    ∃ logIndex, shard'.count key =
        (shard.applyNewChunks tenantId.uuid newChunks logIndex).count key ∧
      shard'.parked key = (shard.applyNewChunks tenantId.uuid newChunks logIndex).parked key := by
  cases h with
  | @intent logIndex nowMs item htenant hchunks haccepted =>
    have hitems := ShardSmInner.applyItems_fst logIndex nowMs [item] (shard, [])
    rw [ShardSmInner.afterItems, ShardSmInner.applyOneIncorporate, haccepted] at hitems
    rw [← htenant, ← hchunks]
    exact ⟨logIndex, congrArg (fun s => s.count key) hitems,
      congrArg (fun s => s.parked key) hitems⟩
  | @commit inlinePayloads logIndex nowMs args htenant =>
    rw [← htenant]
    exact ⟨logIndex, rfl, rfl⟩

lemma listsChunk_iff {newChunks : List NewChunkMeta} {tenantId : OrgId} :
    listsChunk key tenantId.uuid newChunks = true ↔
      key.1 = tenantId ∧ key.2 ∈ newChunks.map fun nc => ⟨nc.chunkId⟩ := by
  rw [listsChunk, List.any_eq_true, List.mem_map]
  constructor
  · rintro ⟨nc, hnc, heq⟩
    rw [of_decide_eq_true heq]
    exact ⟨rfl, nc, hnc, rfl⟩
  · rintro ⟨htenant, nc, hnc, hchunk⟩
    exact ⟨nc, hnc, decide_eq_true (Prod.ext htenant hchunk.symm)⟩

lemma bornWith_eq (h : 0 < n) : bornWith parked = (n, decide (n = 0)) ↔ n = 1 ∧ parked = 0 := by
  rw [bornWith, Prod.mk.injEq]
  constructor
  · rintro ⟨hcount, _⟩
    omega
  · rintro ⟨rfl, rfl⟩
    exact ⟨rfl, rfl⟩

lemma references_addsRow {st st' : CompositionStore} {comp : Composition}
    (h : st.AddsRow st' comp) (hfresh : st.find comp.id = none) (key : ChunkKey) :
    references st' key = references st key + refsIn key (some comp) := by
  have hdiffer := references_differAt h.1 key
  rw [hfresh, h.2] at hdiffer
  exact hdiffer

structure Adds (s : Shared) (comp : Composition) (landed : List ChunkId) (s' : Shared) : Prop where
  row : s.gateway.compositions.AddsRow s'.gateway.compositions comp
  count_of_some : ∀ key c, s.shard.count key = some c → s'.shard.count key = some c
  count_listed : ∀ chunk ∈ landed, s.shard.count (comp.tenantId, chunk) = none →
    s'.shard.count (comp.tenantId, chunk) = some (bornWith (s.shard.parked (comp.tenantId, chunk)))
  count_other : ∀ key, s.shard.count key = none → ¬(key.1 = comp.tenantId ∧ key.2 ∈ landed) →
    s'.shard.count key = none
  subset : ∀ chunk ∈ landed, chunk ∈ comp.chunks

lemma Adds.ofIncorporates {comp : Composition} {newChunks : List NewChunkMeta}
    (hrow : s.gateway.compositions.AddsRow s'.gateway.compositions comp)
    (h : Incorporates comp.tenantId newChunks s.shard async s'.shard)
    (hlanded : landed = newChunks.map fun nc => ⟨nc.chunkId⟩)
    (hsubset : ∀ chunk ∈ landed, chunk ∈ comp.chunks) : Adds s comp landed s' := by
  refine ⟨hrow, ?_, ?_, ?_, hsubset⟩
  · intro key c hc
    obtain ⟨logIndex, hcount, _⟩ := h.count key
    rw [hcount]
    exact ShardSmInner.count_applyNewChunks_of_some hc
  · intro chunk hchunk hnone
    obtain ⟨logIndex, hcount, _⟩ := h.count (comp.tenantId, chunk)
    rw [hcount]
    rw [hlanded] at hchunk
    exact (ShardSmInner.count_applyNewChunks hnone _).1 (listsChunk_iff.2 ⟨rfl, hchunk⟩)
  · intro key hnone hkey
    obtain ⟨logIndex, hcount, _⟩ := h.count key
    rw [hcount]
    rw [hlanded, ← listsChunk_iff, Bool.not_eq_true] at hkey
    exact ((ShardSmInner.count_applyNewChunks hnone _).2 hkey).1

lemma Creates.adds {deriveChunkId : Bytes → ChunkId} {placement : ChunkId → List Nat}
    {id : CompositionId} (h : Creates deriveChunkId placement s id tenantId chunks landed s')
    (hfresh : s.gateway.compositions.find id = none) :
    ∃ comp, comp.id = id ∧ comp.tenantId = tenantId ∧ comp.chunks = chunks ∧
      Adds s comp landed s' := by
  cases h with
  | @write shard req draw p ns hns hprepare hshard =>
    obtain ⟨hchain, hrow, _⟩ := prepareWrite_ok hprepare
    obtain ⟨ns', hns', hadds⟩ := createRow_addsRow hrow hfresh
    obtain rfl := some.inj (hns.symm.trans hns')
    refine ⟨_, rfl, rfl, rfl, .ofIncorporates hadds hshard ?_ ?_⟩
    · rw [newChunkMetas, List.map_map]
      rfl
    · intro chunk hchunk
      obtain ⟨l, hl, rfl⟩ := mem_map.1 hchunk
      exact mem_chainOnBase hchain _ (mem_map_of_mem (mem_filter.1 hl).1)
  | @completeMultipart uploadId nsId name gw shard upload ns _ hlookup hns hcomplete hshard =>
    obtain ⟨_, _, ns', hns', hadds⟩ := completeMultipart_addsRow hlookup hfresh hcomplete
    obtain rfl := some.inj (hns.symm.trans hns')
    refine ⟨_, rfl, rfl, rfl, .ofIncorporates hadds hshard ?_ ?_⟩
    · rw [newPartMetas, List.map_map]
      rfl
    · intro chunk hchunk
      obtain ⟨part, hpart, rfl⟩ := mem_map.1 hchunk
      exact mem_map_of_mem (mem_filter.1 hpart).1

lemma Shared.Exact.adds_iff {comp : Composition} (h : s.Exact) (hadds : Adds s comp landed s')
    (hfresh : s.gateway.compositions.find comp.id = none) :
    s'.Exact ↔ Unshared s comp.id comp.tenantId comp.chunks landed := by
  have hrefs := references_addsRow hadds.row hfresh
  have hself : ∀ chunk, refsIn (comp.tenantId, chunk) (some comp) = comp.chunks.count chunk :=
    fun _ => if_pos rfl
  constructor
  · intro h'
    have hrowless : ∀ chunk ∈ comp.chunks, s.shard.count (comp.tenantId, chunk) = none := by
      intro chunk hchunk
      cases hcount : s.shard.count (comp.tenantId, chunk) with
      | none => rfl
      | some c =>
        -- the row keeps its count while the object adds references
        have hbefore := h.counts _ (by rw [hcount]; exact some_ne_none _)
        have hkept := hadds.count_of_some _ c hcount
        have hafter := h'.counts _ (by rw [hkept]; exact some_ne_none _)
        rw [Counts, hcount] at hbefore
        rw [Counts, hkept, hbefore, hrefs, hself] at hafter
        have hpos := count_pos_iff.2 hchunk
        have := (Prod.mk.inj (some.inj hafter)).1
        omega
    refine ⟨hfresh, hrowless, ?_⟩
    intro chunk hchunk
    have hmem := hadds.subset chunk hchunk
    have hborn := hadds.count_listed chunk hchunk (hrowless chunk hmem)
    have hafter := h'.counts _ (by rw [hborn]; exact some_ne_none _)
    have hpos := count_pos_iff.2 hmem
    rw [Counts, hborn, hrefs, hself, some.injEq, bornWith_eq (by omega)] at hafter
    exact ⟨by omega, by omega, hafter.2⟩
  · intro hun
    refine ⟨hadds.row.1.sound h.sound, ?_⟩
    intro key hkey
    rw [Counts, hrefs]
    cases hcount : s.shard.count key with
    | some c =>
      have hbefore := h.counts key (by rw [hcount]; exact some_ne_none _)
      have hzero : refsIn key (some comp) = 0 := by
        rw [refsIn]
        split
        · rename_i htenant
          apply count_eq_zero.2
          intro hmem
          have hnone := hun.rowless key.2 hmem
          rw [htenant, hcount] at hnone
          cases hnone
        · rfl
      rw [hadds.count_of_some key c hcount, hzero, ← hcount]
      exact hbefore
    | none =>
      by_cases hlisted : key.1 = comp.tenantId ∧ key.2 ∈ landed
      · obtain ⟨tenantId, chunk⟩ := key
        obtain ⟨rfl, hchunk⟩ := hlisted
        obtain ⟨honce, hrefs0, hparked⟩ := hun.sole chunk hchunk
        rw [hadds.count_listed chunk hchunk hcount, hself, honce, hrefs0, hparked]
        rfl
      · exact absurd (hadds.count_other key hcount hlisted) hkey

lemma count_decrement_of_ne {key' : ChunkKey} (h : key' ≠ key) :
    (shard.decrementChunkRefcount key).1.count key' = shard.count key' := by
  simp only [ShardSmInner.decrementChunkRefcount]
  split
  · simp only [ShardSmInner.count, lookup_insert_of_ne _ h]
  · split
    · rfl
    · rfl

def CountsAt (key : ChunkKey) (shard : ShardSmInner) (o : Option Nat) : Prop :=
  shard.count key = o.map fun n => (n, decide (n = 0))

lemma CountsAt.decrement (h : CountsAt key shard o) :
    CountsAt key (shard.decrementChunkRefcount key).1 (o.map (· - 1)) ∧
      ((shard.decrementChunkRefcount key).2 = true → o = some 1) := by
  cases o with
  | none =>
    have hnone := lookup_eq_none.2 (ShardSmInner.count_eq_none.1 h)
    simp only [ShardSmInner.decrementChunkRefcount, hnone]
    split
    · exact ⟨h, Bool.false_ne_true.elim⟩
    · exact ⟨h, Bool.false_ne_true.elim⟩
  | some n =>
    obtain ⟨entry, hentry, hcount⟩ := map_eq_some_iff.1 h
    obtain ⟨hn, htomb⟩ := mk.inj hcount
    simp only [ShardSmInner.decrementChunkRefcount, hentry, CountsAt, ShardSmInner.count,
      lookup_insert, map_some, hn, htomb]
    cases n with
    | zero => exact ⟨rfl, Bool.false_ne_true.elim⟩
    | succ n =>
      simp only [succ_ne_zero, decide_false, Bool.not_false, Bool.and_true, Bool.false_or,
        decide_eq_true_eq]
      exact ⟨trivial, fun h => congrArg (fun n => some (n + 1)) h⟩

lemma count_release_of_tenant_ne {tenantId : OrgId} (h : key.1 ≠ tenantId)
    {chunks : List ChunkId} (held : ChunkStore) :
    (releaseChunks tenantId chunks held shard).2.1.count key = shard.count key := by
  induction chunks generalizing held shard with
  | nil => rfl
  | cons chunk chunks ih =>
    have hne : key ≠ (tenantId, chunk) := fun heq => h (congrArg fst heq)
    exact (ih _).trans (count_decrement_of_ne hne)

lemma CountsAt.release {tenantId : OrgId} {chunk : ChunkId}
    (h : CountsAt (tenantId, chunk) shard o) (chunks : List ChunkId) (held : ChunkStore) :
    CountsAt (tenantId, chunk) (releaseChunks tenantId chunks held shard).2.1
        (o.map (· - chunks.count chunk)) ∧
      ((chunk, true) ∈ (releaseChunks tenantId chunks held shard).2.2 →
        ∃ n, o = some n ∧ n ≤ chunks.count chunk) := by
  induction chunks generalizing held shard o with
  | nil => exact ⟨h.trans (by cases o <;> rfl), nofun⟩
  | cons c chunks ih =>
    by_cases hc : chunk = c
    · subst hc
      obtain ⟨hnext, hreport⟩ := h.decrement
      obtain ⟨hcounts, hout⟩ := ih hnext (held.decrementRefcount chunk)
      rw [count_cons_self]
      refine ⟨hcounts.trans ?_, fun hmem => ?_⟩
      · cases o with
        | none => rfl
        | some n => simp only [map_some, Nat.sub_sub, Nat.add_comm]
      · rcases mem_cons.1 hmem with heq | htail
        · exact ⟨1, hreport (mk.inj heq).2.symm, succ_pos _⟩
        · obtain ⟨n, hn, hle⟩ := hout htail
          obtain ⟨m, rfl, rfl⟩ := map_eq_some_iff.1 hn
          exact ⟨m, rfl, Nat.sub_le_iff_le_add.1 hle⟩
    · have hne : (tenantId, chunk) ≠ (tenantId, c) := fun heq => hc (mk.inj heq).2
      obtain ⟨hcounts, hout⟩ :=
        ih ((count_decrement_of_ne hne).trans h) (held.decrementRefcount c)
      rw [count_cons_of_ne (Ne.symm hc)]
      refine ⟨hcounts, fun hmem => ?_⟩
      rcases mem_cons.1 hmem with heq | htail
      · exact absurd (mk.inj heq).1 hc
      · exact hout htail

lemma CountsAt.releaseAll (h : CountsAt key shard o) (tenantId : OrgId) (chunks : List ChunkId)
    (held : ChunkStore) : CountsAt key (releaseChunks tenantId chunks held shard).2.1
      (o.map (· - if tenantId = key.1 then chunks.count key.2 else 0)) := by
  split
  · rename_i heq
    subst heq
    exact (h.release chunks held).1
  · rename_i hne
    rw [CountsAt, count_release_of_tenant_ne (Ne.symm hne)]
    exact h.trans (by cases o <;> rfl)

lemma Shared.delete_ok {id : CompositionId} (hsound : s.gateway.compositions.RowsSound)
    (h : s.delete tenantId id delta logIndex nowMs = .ok (s', reports)) :
    ∃ comp shard, s.gateway.compositions.find id = some comp ∧ comp.tenantId = tenantId ∧
      s.gateway.compositions.DifferAt s'.gateway.compositions id ∧
      (∀ key, shard.count key = s.shard.count key) ∧
      (s'.gateway.compositions.find id = some { comp with version := comp.version + 1 } ∧
          s'.shard = shard ∧ reports = [] ∨
        s'.gateway.compositions.find id = none ∧
          (s'.shard, reports) = (releaseChunks tenantId comp.chunks s.gateway.chunks shard).2) := by
  simp only [Shared.delete] at h
  cases hget : s.gateway.compositions.get id with
  | error e =>
    rw [hget] at h
    cases h
  | ok comp =>
    simp only [hget] at h
    have hfind := get_eq_ok.1 hget
    split at h
    · rename_i htenant
      refine ⟨comp, s.shard.apply ⟨.chunkAndDelta delta [] [], logIndex, nowMs⟩, hfind, htenant, ?_⟩
      split at h
      · cases h
      · rename_i st hst
        cases h
        obtain ⟨comp', hcomp, hdiffer, ⟨_, hrow⟩ | ⟨hresult, _⟩⟩ :=
          delete_ok hsound hst
        · obtain rfl := some.inj (hfind.symm.trans hcomp)
          exact ⟨hdiffer, fun _ => rfl, .inl ⟨hrow, rfl, rfl⟩⟩
        · cases hresult
      · rename_i st chunks hst
        cases h
        obtain ⟨comp', hcomp, hdiffer, ⟨hresult, _⟩ | ⟨hresult, hrow⟩⟩ :=
          delete_ok hsound hst
        · cases hresult
        · cases hresult
          obtain rfl := some.inj (hfind.symm.trans hcomp)
          exact ⟨hdiffer, fun _ => rfl, .inr ⟨hrow, rfl⟩⟩
    · cases h

lemma Shared.Exact.delete {id : CompositionId} (h : s.Exact)
    (hdelete : s.delete tenantId id delta logIndex nowMs = .ok (s', reports)) :
    s'.Exact ∧ ∀ chunk, (chunk, true) ∈ reports →
      references s'.gateway.compositions (tenantId, chunk) = 0 := by
  obtain ⟨comp, shard, hfind, htenant, hdiffer, hcount, hcases⟩ := Shared.delete_ok h.sound hdelete
  have hrefs : ∀ key, references s'.gateway.compositions key + refsIn key (some comp) =
      references s.gateway.compositions key +
        refsIn key (s'.gateway.compositions.find id) := by
    intro key
    have hdiff := references_differAt hdiffer key
    rw [hfind] at hdiff
    exact hdiff
  have hcounts : ∀ key, shard.count key ≠ none →
      Counts key shard (references s.gateway.compositions key) := by
    intro key hkey
    rw [hcount] at hkey
    rw [Counts, hcount]
    exact h.counts key hkey
  rcases hcases with ⟨hrow, hshard, hreports⟩ | ⟨hrow, hreleased⟩
  · refine ⟨⟨hdiffer.sound h.sound, ?_⟩, ?_⟩
    · intro key hkey
      have hsame := hrefs key
      rw [hrow] at hsame
      rw [hshard] at hkey ⊢
      rw [add_right_cancel hsame]
      exact hcounts key hkey
    · intro chunk hreport
      rw [hreports] at hreport
      exact absurd hreport not_mem_nil
  · obtain ⟨hshard, hreports⟩ := Prod.mk.inj hreleased
    subst htenant
    have hsum : ∀ key, references s'.gateway.compositions key + refsIn key (some comp) =
        references s.gateway.compositions key := by
      intro key
      have hdiff := hrefs key
      rw [hrow] at hdiff
      exact hdiff
    have hat : ∀ key, CountsAt key shard ((shard.count key).map fun _ =>
        references s.gateway.compositions key) := by
      intro key
      cases hbefore : shard.count key with
      | none => exact hbefore
      | some c => exact hcounts _ (by rw [hbefore]; exact some_ne_none _)
    refine ⟨⟨hdiffer.sound h.sound, ?_⟩, ?_⟩
    · intro key hkey
      have hafter := (hat key).releaseAll comp.tenantId comp.chunks s.gateway.chunks
      rw [← hshard] at hafter
      cases hbefore : shard.count key with
      | none =>
        rw [hbefore] at hafter
        exact absurd hafter hkey
      | some c =>
        rw [hbefore, map_some, ← hsum key] at hafter
        exact hafter.trans (congrArg (fun n => some (n, decide (n = 0))) (Nat.add_sub_cancel _ _))
    · intro chunk hreport
      rw [hreports] at hreport
      obtain ⟨n, hn, hle⟩ := ((hat _).release comp.chunks s.gateway.chunks).2 hreport
      obtain ⟨_, _, rfl⟩ := map_eq_some_iff.1 hn
      have hself : refsIn (comp.tenantId, chunk) (some comp) = comp.chunks.count chunk := if_pos rfl
      have := hsum (comp.tenantId, chunk)
      omega

structure Shared.Blank (s : Shared) : Prop where
  rows : ∀ id, s.gateway.compositions.find id = none
  chunks : ∀ key, s.shard.count key = none

lemma Shared.Blank.exact (h : s.Blank) : s.Exact := by
  refine ⟨⟨?_, ?_⟩, fun key hkey => absurd (h.chunks key) hkey⟩
  · intro id comp hcomp
    rw [h.rows id] at hcomp
    cases hcomp
  · intro id comp hcomp
    rw [(find_eq_none.1 (h.rows id)).1] at hcomp
    cases hcomp

lemma Shared.Exact.congr (h : s.Exact)
    (hrows : ∀ id key, refsIn key (s'.gateway.compositions.find id) =
      refsIn key (s.gateway.compositions.find id))
    (hsound : s.gateway.compositions.RowsSound → s'.gateway.compositions.RowsSound)
    (hcount : ∀ key, s'.shard.count key = s.shard.count key) : s'.Exact := by
  refine ⟨hsound h.sound, fun key hkey => ?_⟩
  rw [hcount] at hkey
  rw [Counts, hcount, references_congr fun id => hrows id key]
  exact h.counts key hkey

lemma Shared.Exact.ofUploads {gw : InMemoryGateway} (h : s.Exact)
    (hpending : gw.compositions.pending = s.gateway.compositions.pending)
    (hstorage : gw.compositions.storage = s.gateway.compositions.storage) :
    Shared.Exact ⟨gw, s.shard⟩ := by
  have hfind : ∀ id, gw.compositions.find id = s.gateway.compositions.find id := fun id => by
    rw [find, find, hpending, hstorage]
  apply h.congr
  · intro id key
    rw [hfind]
  · intro hsound
    refine ⟨fun id comp hcomp => hsound.keyed id comp (hfind id ▸ hcomp), fun id comp hcomp => ?_⟩
    rw [hstorage]
    exact hsound.disjoint id comp (hpending ▸ hcomp)
  · exact fun _ => rfl

lemma startMultipart_rows {gw gw' : InMemoryGateway}
    (h : startMultipart gw uploadId nsId = .ok gw') :
    gw'.compositions.pending = gw.compositions.pending ∧
      gw'.compositions.storage = gw.compositions.storage := by
  simp only [startMultipart, CompositionStore.startMultipart] at h
  split at h
  · rename_i hst
    split at hst
    · cases hst
      cases h
      exact ⟨rfl, rfl⟩
    · cases hst
  · cases h

lemma uploadPart_rows {deriveChunkId : Bytes → ChunkId} {gw gw' : InMemoryGateway}
    (h : uploadPart deriveChunkId gw uploadId partNumber data = .ok gw') :
    gw'.compositions.pending = gw.compositions.pending ∧
      gw'.compositions.storage = gw.compositions.storage := by
  simp only [uploadPart, CompositionStore.uploadPart] at h
  split at h
  · rename_i hst
    split at hst
    · split at hst
      · cases hst
        cases h
        exact ⟨rfl, rfl⟩
      · cases hst
    · cases hst
  · cases h

section
variable {deriveChunkId : Bytes → ChunkId} {placement : ChunkId → List Nat}

lemma Step.exact (hstep : Step deriveChunkId placement Unshared s s') (h : s.Exact) :
    s'.Exact := by
  cases hstep with
  | create hcreate hallowed =>
    obtain ⟨comp, rfl, rfl, rfl, hadds⟩ := hcreate.adds hallowed.fresh
    exact (h.adds_iff hadds hallowed.fresh).2 hallowed
  | startMultipart hstart =>
    obtain ⟨hpending, hstorage⟩ := startMultipart_rows hstart
    exact h.ofUploads hpending hstorage
  | uploadPart hupload =>
    obtain ⟨hpending, hstorage⟩ := uploadPart_rows hupload
    exact h.ofUploads hpending hstorage
  | delete hdelete => exact (h.delete hdelete).1
  | other hrows hsound hcount => exact h.congr hrows hsound hcount

lemma exact_of_run (hrun : ReflTransGen (Step deriveChunkId placement Unshared) s s')
    (h : s.Exact) : s'.Exact := by
  induction hrun with
  | refl => exact h
  | tail _ hstep ih => exact hstep.exact ih

lemma Shared.Exact.entry (h : s.Exact) {entry : ClusterChunkStateEntry}
    (hentry : s.shard.clusterChunkState.lookup key = some entry) :
    entry.refcount = references s.gateway.compositions key ∧
      (entry.tombstoned = true ↔ ¬Referenced s.gateway.compositions key) := by
  have hcount : s.shard.count key = some (entry.refcount, entry.tombstoned) := by
    rw [ShardSmInner.count, hentry]
    rfl
  have hcounts := h.counts key (by rw [hcount]; exact some_ne_none _)
  rw [Counts, hcount] at hcounts
  obtain ⟨hrefcount, htombstoned⟩ := Prod.mk.inj (some.inj hcounts)
  refine ⟨hrefcount, ?_⟩
  rw [htombstoned, decide_eq_true_iff, ← references_pos, Nat.pos_iff_ne_zero, not_not]

/-- The counts are those of the references as long as objects share nothing. -/
theorem refcounts_match_references (hblank : s.Blank)
    (hrun : ReflTransGen (Step deriveChunkId placement Unshared) s s') :
    (∀ key entry, s'.shard.clusterChunkState.lookup key = some entry →
      entry.refcount = references s'.gateway.compositions key ∧
        (entry.tombstoned = true ↔ ¬Referenced s'.gateway.compositions key)) ∧
    (∀ tenantId id delta logIndex nowMs t reports,
      s'.delete tenantId id delta logIndex nowMs = .ok (t, reports) → ∀ chunk,
        ((chunk, true) ∈ reports → ¬Referenced t.gateway.compositions (tenantId, chunk)) ∧
        (¬Referenced t.gateway.compositions (tenantId, chunk) → ∀ entry,
          t.shard.clusterChunkState.lookup (tenantId, chunk) = some entry →
            entry.tombstoned = true)) ∧
    (∀ id tenantId chunks landed t, s'.gateway.compositions.find id = none →
      Creates deriveChunkId placement s' id tenantId chunks landed t →
        (t.Exact ↔ Unshared s' id tenantId chunks landed)) := by
  have hexact := exact_of_run hrun hblank.exact
  refine ⟨fun key entry hentry => hexact.entry hentry, ?_, ?_⟩
  · intro tenantId id delta logIndex nowMs t reports hdelete chunk
    obtain ⟨hafter, hreport⟩ := hexact.delete hdelete
    constructor
    · intro hmem href
      have hpos := references_pos.2 href
      rw [hreport chunk hmem] at hpos
      exact absurd hpos (lt_irrefl 0)
    · intro hunreferenced entry hentry
      exact (hafter.entry hentry).2.2 hunreferenced
  · intro id tenantId chunks landed t hfresh hcreate
    obtain ⟨comp, rfl, rfl, rfl, hadds⟩ := hcreate.adds hfresh
    exact hexact.adds_iff hadds hfresh

end

end

def emptyShared : Shared := ⟨emptyGateway, plainShard 2 60000⟩

def plainPlacement (_ : ChunkId) : List Nat := [1, 2, 3]

def createItem (physicalMs : UInt64) (newChunks : List NewChunkMeta) : IncorporateItem :=
  { plainItem physicalMs with tenantIdBytes := Vector.replicate 16 1, newChunks := newChunks }

def Shared.afterWrite (s : Shared) (data : Bytes) (n : UInt8) (logIndex : Nat) : Shared :=
  match prepareWrite plainDerive s.gateway (plainWrite data) (plainDraw n) with
  | .ok p =>
    ⟨p.acked, s.shard.apply
      ⟨.incorporateIntents [createItem n.toUInt64 (newChunkMetas plainPlacement p.landed)],
        logIndex, 0⟩⟩
  | .error _ => s

lemma creates_afterWrite {p : Prepared} {ns : Namespace} (s : Shared) (data : Bytes) (n : UInt8)
    (logIndex : Nat)
    (hns : s.gateway.compositions.namespace? ⟨.replicate 16 2⟩ = some ns)
    (htenant : ns.tenantId = ⟨.replicate 16 1⟩)
    (hprepare : prepareWrite plainDerive s.gateway (plainWrite data) (plainDraw n) = .ok p)
    (haccepted : s.shard.refuses ⟨n.toUInt64, 0, 1⟩ logIndex = false) :
    Creates plainDerive plainPlacement s p.response.compositionId ns.tenantId p.chunkRefs
      ((p.landed.filter ChunkLanded.wasNew).map ChunkLanded.id)
      (s.afterWrite data n logIndex) := by
  rw [Shared.afterWrite, hprepare]
  apply Creates.write hns hprepare
  apply Incorporates.intent (createItem n.toUInt64 (newChunkMetas plainPlacement p.landed))
  · rw [htenant]
    rfl
  · rfl
  · exact haccepted

def oneObject : Shared := emptyShared.afterWrite [120] 9 1

def twoObjects : Shared := oneObject.afterWrite [120] 10 2

lemma creates_oneObject : Creates plainDerive plainPlacement emptyShared
    ⟨.replicate 16 9⟩ ⟨.replicate 16 1⟩ [plainDerive [120]] [plainDerive [120]]
    oneObject := by
  have hcreates := creates_afterWrite emptyShared [120] 9 1 rfl rfl rfl rfl
  exact hcreates

lemma creates_twoObjects : Creates plainDerive plainPlacement oneObject
    ⟨.replicate 16 10⟩ ⟨.replicate 16 1⟩ [plainDerive [120]] [] twoObjects := by
  have hcreates := creates_afterWrite oneObject [120] 10 2 rfl rfl rfl rfl
  exact hcreates

lemma emptyShared_blank : emptyShared.Blank := ⟨fun _ => rfl, fun _ => rfl⟩

lemma unshared_oneObject : Unshared emptyShared ⟨.replicate 16 9⟩
    ⟨.replicate 16 1⟩ [plainDerive [120]] [plainDerive [120]] := by
  refine ⟨rfl, fun _ _ => rfl, ?_⟩
  intro chunk hchunk
  obtain rfl := List.mem_singleton.1 hchunk
  exact ⟨count_singleton_self, rfl, rfl⟩

def ownObjects : Shared := oneObject.afterWrite [121] 10 2

lemma creates_ownObjects : Creates plainDerive plainPlacement oneObject
    ⟨.replicate 16 10⟩ ⟨.replicate 16 1⟩ [plainDerive [121]] [plainDerive [121]] ownObjects := by
  have hcreates := creates_afterWrite oneObject [121] 10 2 rfl rfl rfl rfl
  exact hcreates

lemma unshared_ownObjects : Unshared oneObject ⟨.replicate 16 10⟩
    ⟨.replicate 16 1⟩ [plainDerive [121]] [plainDerive [121]] :=
  ⟨rfl, forall_mem_singleton.2 rfl, forall_mem_singleton.2 ⟨count_singleton_self, rfl, rfl⟩⟩

/-- Two objects of their own chunks, and the delete of the first one. -/
theorem refcounts_match_references_own_objects :
    ∃ t reports, ownObjects.delete ⟨.replicate 16 1⟩ ⟨.replicate 16 9⟩
        (createItem 11 []).toDeltaArgs 3 0 = .ok (t, reports) ∧
      (plainDerive [120], true) ∈ reports ∧
      ¬Referenced t.gateway.compositions (⟨.replicate 16 1⟩, plainDerive [120]) ∧
      ∃ entry, t.shard.clusterChunkState.lookup (⟨.replicate 16 1⟩, plainDerive [121]) =
          some entry ∧
        entry.refcount =
          references t.gateway.compositions (⟨.replicate 16 1⟩, plainDerive [121]) ∧
        entry.tombstoned = false := by
  have hobjects : ReflTransGen (Step plainDerive plainPlacement Unshared) emptyShared ownObjects :=
    .tail (.single (.create creates_oneObject unshared_oneObject))
      (.create creates_ownObjects unshared_ownObjects)
  have hdelete : ownObjects.delete ⟨.replicate 16 1⟩ ⟨.replicate 16 9⟩
      (createItem 11 []).toDeltaArgs 3 0 = .ok (_, _) := rfl
  have hreported :=
    (refcounts_match_references emptyShared_blank hobjects).2.1 _ _ _ _ _ _ _ hdelete
  have hcounts := (refcounts_match_references emptyShared_blank (hobjects.tail (.delete hdelete))).1
  exact ⟨_, _, hdelete, List.mem_singleton.2 rfl, (hreported _).1 (List.mem_singleton.2 rfl), _,
    rfl,
    (hcounts _ _ rfl).1, rfl⟩

/-- Deleting the first of two equal objects tombstones the other's chunk. -/
theorem shared_chunk_tombstoned :
    ∃ t reports,
      ReflTransGen (Step plainDerive plainPlacement fun _ _ _ _ _ => True)
        emptyShared twoObjects ∧
      twoObjects.delete ⟨.replicate 16 1⟩ ⟨.replicate 16 9⟩
        (createItem 11 []).toDeltaArgs 3 0 = .ok (t, reports) ∧
      (plainDerive [120], true) ∈ reports ∧
      Referenced t.gateway.compositions (⟨.replicate 16 1⟩, plainDerive [120]) := by
  refine ⟨_, _, ?_, rfl, ?_, ?_⟩
  · exact .tail (.single (.create creates_oneObject trivial)) (.create creates_twoObjects trivial)
  · exact List.mem_singleton.2 rfl
  · exact ⟨⟨.replicate 16 10⟩, _, rfl, rfl, List.mem_singleton.2 rfl⟩

end Kiseki.Gateway
