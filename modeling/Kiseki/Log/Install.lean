import Kiseki.Log.Batch
import Kiseki.Log.Refcount
import Kiseki.Log.Snapshot

namespace Kiseki.Log

open List ShardSmInner Bool

def ShardSmInner.inlineGet (s : ShardSmInner) (key : Key32) : Option Bytes :=
  s.inlineStore.bind fun store => store.lookup key

def Delta.inlineKey (d : Delta) : Key32 :=
  deriveInlineKey d.header.hashedKey d.header.sequence

/-- Starts fresh, applies entries and installs snapshots of others. -/
inductive ShardSmInner.Reachable : ShardSmInner → Prop
  | new (shardId : ShardId) (tenantId : OrgId) (windowEntries windowMs : Nat)
      (inlineStore : Option InlineMap) :
      Reachable (.new shardId tenantId windowEntries windowMs inlineStore)
  | apply (h : Reachable s) (e : Entry LogCommand) (nowMs : Nat) :
      Reachable (s.applyEntry e nowMs).1
  | install (h : Reachable r) (hs : Reachable s) (windowEntries windowMs : Nat) :
      Reachable (r.installSnapshot s.buildSnapshot windowEntries windowMs)

/-- Only ciphertext in the envelope, and no payload beside an inline store. -/
structure Delta.Plain (inline : Bool) (d : Delta) : Prop where
  envelope : d.payload = ⟨d.payload.ciphertext, [], [], none, none, []⟩
  offloaded : inline = true → d.header.hasInlineData = true → d.payload.ciphertext = []

def ShardSmInner.Plain (s : ShardSmInner) : Prop :=
  ∀ d ∈ s.deltas, d.Plain s.inlineStore.isSome

section
variable {s r : ShardSmInner}

section
variable (h : s.Plain)

include h

namespace ShardSmInner.Plain

lemma congr
    (hstore : r.inlineStore.isSome = s.inlineStore.isSome) (hdeltas : r.deltas ⊆ s.deltas) :
    r.Plain := by
  intro d hd
  rw [hstore]
  exact h d (hdeltas hd)

lemma applyNewChunks (tenantIdBytes : Uuid)
    (newChunks : List NewChunkMeta) (logIndex : Nat) :
    (s.applyNewChunks tenantIdBytes newChunks logIndex).Plain := by
  obtain ⟨_, _, heq⟩ := s.applyNewChunks_eq tenantIdBytes newChunks logIndex
  rw [heq]
  exact h

lemma appendDeltaInner (args : DeltaArgs)
    (logIndex : Nat) (batch : InlineBatch) :
    (s.appendDeltaInner args logIndex batch).1.Plain := by
  refine forall_mem_append.2 ⟨h, forall_mem_singleton.2 ⟨rfl, fun hsome hinline => ?_⟩⟩
  have hoff : s.offloads args = true := and_eq_true_iff.2 ⟨hinline, hsome⟩
  simp only [mkDelta, hoff, if_true]

lemma flushInlineBatch (batch : InlineBatch) :
    (s.flushInlineBatch batch).Plain :=
  h.congr Option.isSome_map (List.Subset.refl _)

lemma applyOneIncorporate (item : IncorporateItem)
    (logIndex nowMs : Nat) (batch : InlineBatch) :
    (s.applyOneIncorporate item logIndex nowMs batch).1.Plain := by
  rw [ShardSmInner.applyOneIncorporate]
  split
  · exact h
  · exact (h.applyNewChunks item.tenantIdBytes item.newChunks logIndex).appendDeltaInner
      item.toDeltaArgs logIndex []

lemma applyItems (logIndex nowMs : Nat)
    (items : List IncorporateItem) (batch : InlineBatch) :
    (ShardSmInner.applyItems logIndex nowMs items (s, batch)).1.Plain := by
  induction items generalizing s batch with
  | nil => exact h
  | cons item items ih => exact ih (h.applyOneIncorporate item logIndex nowMs batch) _

lemma applyCommandAt (cmd : LogCommand)
    (logIndex nowMs : Nat) : (s.applyCommandAt cmd logIndex nowMs).1.Plain := by
  by_cases hc : cmd.isControl = true
  · obtain ⟨_, _, _, _, _, _, _, heq⟩ := s.applyCommandAt_control hc logIndex nowMs
    rw [heq]
    exact h
  cases cmd with
  | appendDelta args => exact (h.appendDeltaInner args logIndex []).flushInlineBatch _
  | chunkAndDelta args newChunks inlinePayloads =>
    exact ((h.applyNewChunks args.tenantIdBytes newChunks logIndex).appendDeltaInner args
      logIndex []).flushInlineBatch _
  | incorporateIntent item =>
    exact (h.applyOneIncorporate item logIndex nowMs []).flushInlineBatch _
  | incorporateIntents items => exact (h.applyItems logIndex nowMs items []).flushInlineBatch _
  | advanceWatermark consumer position =>
    simp only [ShardSmInner.applyCommandAt, ShardSmInner.pruneDeltasBelowGcBoundary]
    split
    · exact h
    · exact h.congr Option.isSome_map (drop_subset _ _)
  | _ => exact absurd rfl hc

end ShardSmInner.Plain

end

lemma ShardSmInner.Plain.installSnapshot (r : ShardSmInner)
    (snapshot : Kiseki.Snapshot ShardSnapshot) (windowEntries windowMs : Nat) :
    (r.installSnapshot snapshot windowEntries windowMs).Plain := by
  intro d hd
  obtain ⟨sd, _, rfl⟩ := mem_map.1 hd
  rw [ShardSmInner.installSnapshot, Option.isSome_map, restoreDelta]
  by_cases hclear : (sd.hasInlineData && r.inlineStore.isSome) = true
  · rw [if_pos hclear]
    exact ⟨rfl, fun _ _ => rfl⟩
  · rw [if_neg hclear]
    exact ⟨rfl, fun hsome hinline => absurd (and_eq_true_iff.2 ⟨hinline, hsome⟩) hclear⟩

lemma ShardSmInner.Reachable.plain (h : s.Reachable) : s.Plain := by
  induction h with
  | new shardId tenantId windowEntries windowMs inlineStore => exact fun d hd => nomatch hd
  | @apply s _ e nowMs ih =>
    obtain ⟨logId, payload⟩ := e
    cases payload with
    | blank => exact ih
    | normal cmd =>
      exact ShardSmInner.Plain.applyCommandAt (s := { s with lastAppliedLog := some logId }) ih
        cmd logId.index nowMs
    | membership voters => exact ih
  | install _ _ windowEntries windowMs _ _ =>
    exact ShardSmInner.Plain.installSnapshot _ _ windowEntries windowMs

def ShardSnapshot.puts (snap : ShardSnapshot) : InlineBatch :=
  (snap.deltas.filter SerializableDelta.offloads).map fun sd =>
    (deriveInlineKey sd.hashedKey sd.sequence, sd.ciphertext)

lemma ShardSmInner.inlineGet_installSnapshot (r : ShardSmInner)
    (snapshot : Kiseki.Snapshot ShardSnapshot) (windowEntries windowMs : Nat) (key : Key32) :
    (r.installSnapshot snapshot windowEntries windowMs).inlineGet key =
      if r.inlineStore.isSome then (lastPut key snapshot.image.puts).or (r.inlineGet key)
      else none := by
  simp only [inlineGet, installSnapshot]
  cases r.inlineStore with
  | none => rfl
  | some store => exact store.lookup_putMany _ key

lemma ShardSmInner.Plain.readBack (h : s.Plain) (hsome : s.inlineStore.isSome = true)
    (hd : d ∈ s.deltas) (hinline : d.header.hasInlineData = true) :
    (s.readBack d).ciphertext = (s.inlineGet d.inlineKey).getD [] := by
  have hempty := (h d hd).offloaded hsome hinline
  rw [ShardSmInner.readBack, if_pos ⟨hinline, hempty⟩]
  cases hget : s.inlineGet d.inlineKey with
  | none =>
    rw [inlineGet, Delta.inlineKey] at hget
    rw [hget]
    exact hempty
  | some data =>
    rw [inlineGet, Delta.inlineKey] at hget
    rw [hget]
    rfl

lemma ShardSmInner.readBack_header (s : ShardSmInner) (d : Delta) :
    (s.readBack d).hasInlineData = d.header.hasInlineData ∧
      deriveInlineKey (s.readBack d).hashedKey (s.readBack d).sequence = d.inlineKey := by
  simp only [readBack]
  split
  · split <;> exact ⟨rfl, rfl⟩
  · exact ⟨rfl, rfl⟩

lemma ShardSmInner.Plain.mem_puts (h : s.Plain) (hsome : s.inlineStore.isSome = true) :
    (key, data) ∈ s.shardSnapshot.puts ↔
      (∃ d ∈ s.deltas, d.header.hasInlineData = true ∧ d.inlineKey = key) ∧
        s.inlineGet key = some data ∧ data ≠ [] := by
  rw [ShardSnapshot.puts, mem_map]
  constructor
  · rintro ⟨sd, hsd, heq⟩
    obtain ⟨hmem, hoff⟩ := mem_filter.1 hsd
    obtain ⟨d, hd, rfl⟩ := mem_map.1 hmem
    obtain ⟨hinline, hkey⟩ := s.readBack_header d
    obtain ⟨hkeyeq, hdata⟩ := Prod.mk.inj heq
    obtain ⟨hhas, hne⟩ := and_eq_true_iff.1 hoff
    rw [hinline] at hhas
    rw [hkey] at hkeyeq
    have hread := h.readBack hsome hd hhas
    rw [hdata, hkeyeq] at hread
    have hdata' : data ≠ [] := by
      rw [hdata] at hne
      rintro rfl
      cases hne
    refine ⟨⟨d, hd, hhas, hkeyeq⟩, ?_, hdata'⟩
    cases hget : s.inlineGet key with
    | none =>
      rw [hget] at hread
      exact absurd hread hdata'
    | some found =>
      rw [hget] at hread
      exact congrArg some hread.symm
  · rintro ⟨⟨d, hd, hinline, rfl⟩, hget, hne⟩
    obtain ⟨hhas, hkey⟩ := s.readBack_header d
    have hread := h.readBack hsome hd hinline
    rw [hget] at hread
    refine ⟨s.readBack d, mem_filter.2 ⟨mem_map_of_mem hd, ?_⟩, ?_⟩
    · rw [SerializableDelta.offloads, hhas, hinline, hread]
      cases data with
      | nil => exact absurd rfl hne
      | cons => rfl
    · rw [hkey, hread]
      rfl

/-- The replicated state that no snapshot carries. -/
structure ShardSmInner.SameControl (a b : ShardSmInner) : Prop where
  clusterChunkState : a.clusterChunkState = b.clusterChunkState
  pendingChunkDecrements : a.pendingChunkDecrements = b.pendingChunkDecrements
  rangeStart : a.rangeStart = b.rangeStart
  rangeEnd : a.rangeEnd = b.rangeEnd
  state : a.state = b.state
  config : a.config = b.config

/-- A follower agrees exactly if control state and other payloads were the same. -/
theorem installed_control_iff (hs : s.Reachable) (r : ShardSmInner) (windowEntries windowMs : Nat) :
    ((r.installSnapshot s.buildSnapshot windowEntries windowMs).SameControl s ∧
      ∀ (chunk : ChunkId) (data : Bytes), s.inlineGet chunk.bytes = some data →
        (r.installSnapshot s.buildSnapshot windowEntries windowMs).inlineGet chunk.bytes =
          some data) ↔
      r.SameControl s ∧ ∀ (chunk : ChunkId) (data : Bytes), s.inlineGet chunk.bytes = some data →
        r.inlineGet chunk.bytes = some data ∨
          r.inlineStore.isSome = true ∧ data ≠ [] ∧
            ∃ d ∈ s.deltas, d.header.hasInlineData = true ∧ d.inlineKey = chunk.bytes := by
  have hcontrol : (r.installSnapshot s.buildSnapshot windowEntries windowMs).SameControl s ↔
      r.SameControl s :=
    ⟨fun ⟨h₁, h₂, h₃, h₄, h₅, h₆⟩ => ⟨h₁, h₂, h₃, h₄, h₅, h₆⟩,
      fun ⟨h₁, h₂, h₃, h₄, h₅, h₆⟩ => ⟨h₁, h₂, h₃, h₄, h₅, h₆⟩⟩
  rw [hcontrol]
  apply and_congr_right
  intro _
  apply forall₂_congr
  intro chunk data
  apply imp_congr_right
  intro hget
  have hsome : s.inlineStore.isSome = true := by
    cases hstore : s.inlineStore with
    | none =>
      rw [inlineGet, hstore] at hget
      cases hget
    | some store => rfl
  have hputs : ∀ found, (chunk.bytes, found) ∈ s.shardSnapshot.puts ↔ _ :=
    fun found => hs.plain.mem_puts hsome
  rw [r.inlineGet_installSnapshot]
  cases hr : r.inlineStore with
  | none =>
    have hnone : r.inlineGet chunk.bytes = none := by rw [inlineGet, hr]; rfl
    simp [hnone]
  | some store =>
    rw [Option.isSome_some, if_pos rfl]
    change (lastPut chunk.bytes s.shardSnapshot.puts).or _ = some data ↔ _
    cases hlast : lastPut chunk.bytes s.shardSnapshot.puts with
    | none =>
      have habsent := lastPut_eq_none.1 hlast
      rw [Option.none_or]
      constructor
      · exact .inl
      · rintro (hin | ⟨_, hne, hd⟩)
        · exact hin
        · exact absurd rfl (habsent _ ((hputs data).2 ⟨hd, hget, hne⟩))
    | some found =>
      obtain ⟨hd, hget', hne⟩ := (hputs found).1 (lastPut_mem hlast)
      obtain rfl := Option.some.inj (hget.symm.trans hget')
      exact ⟨fun _ => .inr ⟨rfl, hne, hd⟩, fun _ => rfl⟩

end

def inlineShard : ShardSmInner :=
  .new ⟨.replicate 16 0⟩ ⟨.replicate 16 0⟩ 2 60000 (some ∅)

def inlineArgs : DeltaArgs :=
  { (plainItem 5).toDeltaArgs with payload := [1], hasInlineData := true }

def inlineSender : ShardSmInner :=
  (inlineShard.applyEntry ⟨⟨1, 1, 1⟩, .normal (.appendDelta inlineArgs)⟩ 0).1

theorem installed_control_iff_inline :
    inlineSender.Reachable ∧
      (inlineShard.installSnapshot inlineSender.buildSnapshot 2 60000).SameControl inlineSender ∧
      ∀ (chunk : ChunkId) (data : Bytes), inlineSender.inlineGet chunk.bytes = some data →
        (inlineShard.installSnapshot inlineSender.buildSnapshot 2 60000).inlineGet chunk.bytes =
          some data := by
  have hreach : inlineSender.Reachable := .apply (.new _ _ _ _ _) _ _
  refine ⟨hreach, (installed_control_iff hreach inlineShard 2 60000).2
    ⟨⟨rfl, rfl, rfl, rfl, rfl, rfl⟩, ?_⟩⟩
  intro chunk data hget
  have hlook : lastPut chunk.bytes [(deriveInlineKey inlineArgs.hashedKey 1, [1])] = some data := by
    rw [← Option.or_none (o := lastPut _ _), ← hget]
    exact (InlineMap.lookup_putMany ∅ _ chunk.bytes).symm
  obtain ⟨hkey, hdata⟩ := Prod.mk.inj (mem_singleton.1 (lastPut_mem hlook))
  exact .inr ⟨rfl, hdata ▸ cons_ne_nil _ _, _, mem_singleton.2 rfl, rfl, hkey.symm⟩

def chunkSender : ShardSmInner :=
  ((plainShard 2 60000).applyEntry ⟨⟨1, 1, 1⟩, .normal (createPlainChunk 1).cmd⟩ 0).1

/-- A fresh follower that installs its snapshot has no row for the chunk. -/
theorem installed_row_missing :
    chunkSender.Reachable ∧ (plainShard 2 60000).Reachable ∧
      ¬((plainShard 2 60000).installSnapshot chunkSender.buildSnapshot 2 60000).SameControl
        chunkSender := by
  refine ⟨.apply (.new _ _ _ _ _) _ _, .new _ _ _ _ _, ?_⟩
  intro h
  have hnone : (plainShard 2 60000).count plainChunk = none :=
    count_eq_none.2 Finmap.notMem_empty
  have hborn := count_apply_create hnone (createPlainChunk 1) (by decide)
  have hrow : chunkSender.count plainChunk = none := by
    rw [ShardSmInner.count, ← h.clusterChunkState]
    rfl
  cases hborn.symm.trans hrow

/-- Deque and mirror, with the log indices ordered below a bound. -/
structure DedupWindow.Faithful (w : DedupWindow) (bound : Nat) : Prop where
  mirror : w.seqs = (seqsOf w.recent).toFinset
  nodup : (seqsOf w.recent).Nodup
  ordered : w.recent.Pairwise fun a b => a.logIndex ≤ b.logIndex
  below : ∀ e ∈ w.recent, e.logIndex < bound

lemma DedupWindow.Faithful.mono (h : Faithful w b) (hle : b ≤ b') : Faithful w b' :=
  { h with below := fun e he => (h.below e he).trans_le hle }

lemma DedupWindow.Faithful.push (h : Faithful w (logIndex + 1)) (hs : seq ∉ w.seqs) :
    Faithful (w.push logIndex seq nowMs) (logIndex + 1) := by
  obtain ⟨hmirror, hnodup⟩ := DedupWindow.push_mirror h.mirror h.nodup hs logIndex nowMs
  have hsuffix := Fifo.dropFront_suffix (w.evicts nowMs) (w.recent ++ [⟨logIndex, seq, nowMs⟩])
  have hbelow : ∀ e ∈ w.recent ++ [⟨logIndex, seq, nowMs⟩], e.logIndex < logIndex + 1 :=
    forall_mem_append.2 ⟨h.below, forall_mem_singleton.2 (Nat.lt_succ_self _)⟩
  refine ⟨hmirror, hnodup, .sublist hsuffix.sublist ?_, fun e he => hbelow e (hsuffix.subset he)⟩
  exact pairwise_append.2 ⟨h.ordered, pairwise_singleton _ _,
    fun e he => forall_mem_singleton.2 (Nat.le_of_lt_succ (h.below e he))⟩

lemma windowInvariant_faithful : WindowInvariant (fun _ => True)
    (fun w _ bound => w.Faithful bound) (fun w _ logIndex _ _ => w.Faithful (logIndex + 1)) where
  enter := fun h hle _ => h.mono (hle.trans (Nat.le_succ _))
  push := fun h hr => h.push (of_decide_eq_false (Bool.or_eq_false_iff.1 hr).1)
  leave := id

/-- Each replica applies in the order of the log, or installs a snapshot. -/
inductive ShardSmInner.Ordered : Nat → ShardSmInner → Prop
  | new (shardId : ShardId) (tenantId : OrgId) (windowEntries windowMs : Nat)
      (inlineStore : Option InlineMap) :
      Ordered 0 (.new shardId tenantId windowEntries windowMs inlineStore)
  | apply (h : Ordered bound s) (e : Entry LogCommand) (nowMs : Nat) (hle : bound ≤ e.logId.index) :
      Ordered (e.logId.index + 1) (s.applyEntry e nowMs).1
  | install (h : Ordered bound r) (hs : Ordered bound' s) (windowEntries windowMs : Nat) :
      Ordered bound' (r.installSnapshot s.buildSnapshot windowEntries windowMs)

lemma ShardSmInner.Ordered.faithful (h : Ordered bound s) : s.window.Faithful bound := by
  induction h with
  | new shardId tenantId windowEntries windowMs inlineStore =>
    exact ⟨rfl, nodup_nil, .nil, fun e he => nomatch he⟩
  | @apply bound s _ e nowMs hle ih =>
    obtain ⟨logId, payload⟩ := e
    cases payload with
    | normal cmd =>
      exact @WindowInvariant.apply _ _ _ { s with lastAppliedLog := some logId }
        ⟨cmd, logId.index, nowMs⟩ windowInvariant_faithful [] _ ih hle trivial
    | _ => exact ih.mono (hle.trans (Nat.le_succ _))
  | install _ _ windowEntries windowMs _ ih =>
    exact ⟨rfl, ih.nodup, ih.ordered, ih.below⟩

theorem dedup_window_faithful (h : Ordered bound s) :
    s.recentIncorporatedSeqs = (s.recentIncorporated.map (·.perspectiveSeq)).toFinset ∧
      (s.recentIncorporated.map (·.perspectiveSeq)).Nodup ∧
      s.recentIncorporated.Pairwise (fun a b => a.logIndex ≤ b.logIndex) ∧
      ∀ logIndex seq nowMs, (s.pushRecentAndEvict logIndex seq nowMs).recentIncorporated.length ≤
        s.dedupWindowEntries := by
  have hwindow := h.faithful
  refine ⟨hwindow.mirror, hwindow.nodup, hwindow.ordered, fun logIndex seq nowMs => ?_⟩
  change (s.pushRecentAndEvict logIndex seq nowMs).window.recent.length ≤ _
  rw [window_pushRecentAndEvict]
  exact s.window.length_push_le

/-- Of three intents, a window of two keeps the last two. -/
theorem dedup_window_faithful_three :
    let incorporate (s : ShardSmInner) (index : Nat) (physicalMs : UInt64) := (s.applyEntry
      ⟨⟨1, 1, index⟩, .normal (.incorporateIntent (plainItem physicalMs))⟩ 0).1
    let s := incorporate (incorporate (incorporate (plainShard 2 60000) 1 5) 2 6) 3 7
    s.recentIncorporated.length = 2 ∧ (s.recentIncorporated.map (·.perspectiveSeq)).Nodup := by
  refine ⟨by decide, ?_⟩
  exact (dedup_window_faithful (.apply (.apply (.apply (.new _ _ _ _ _) _ _ (Nat.zero_le _)) _ _
    (le_refl 2)) _ _ (le_refl 3))).2.1

end Kiseki.Log
