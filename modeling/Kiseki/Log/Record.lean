import Kiseki.Log.Install
import Kiseki.Log.Store

namespace Kiseki.Log
open Intent List Nat ShardSmInner

/-- What two shards can have in common of a delta, apart from its payload. -/
structure DeltaLabel where
  tenantId : OrgId
  operation : OperationType
  hashedKey : Key32
  chunkRefs : List ChunkId
  hasInlineData : Bool
deriving DecidableEq, Repr

structure DeltaContent extends DeltaLabel where
  payload : Bytes
deriving DecidableEq, Repr

def Delta.label (d : Delta) : DeltaLabel where
  tenantId := d.header.tenantId
  operation := d.header.operation
  hashedKey := d.header.hashedKey
  chunkRefs := d.header.chunkRefs
  hasInlineData := d.header.hasInlineData

def Delta.content (d : Delta) : DeltaContent :=
  { d.label with payload := d.payload.ciphertext }

def DeltaArgs.content (args : DeltaArgs) : DeltaContent where
  tenantId := ⟨args.tenantIdBytes⟩
  operation := u8ToOp args.operation
  hashedKey := args.hashedKey
  chunkRefs := args.chunkRefs.map ChunkId.mk
  hasInlineData := args.hasInlineData
  payload := args.payload

abbrev DeltaRecord := List (Nat × DeltaContent)

def itemRecords (logIndex nowMs : Nat) : List IncorporateItem → ShardSmInner → DeltaRecord
  | [], _ => []
  | item :: items, s =>
    if s.refuses item.perspectiveSeq logIndex then itemRecords logIndex nowMs items s
    else (s.tip + 1, item.toDeltaArgs.content) ::
      itemRecords logIndex nowMs items (s.incorporate item logIndex nowMs []).1

def LogCommand.appends : LogCommand → Bool
  | .appendDelta _ | .chunkAndDelta _ _ _ | .incorporateIntent _ | .incorporateIntents _ => true
  | _ => false

def ShardSmInner.records (s : ShardSmInner) (e : Applied) : DeltaRecord :=
  match e.cmd with
  | .appendDelta args => [(s.tip + 1, args.content)]
  | .chunkAndDelta args _ _ => [(s.tip + 1, args.content)]
  | .incorporateIntent item => itemRecords e.logIndex e.nowMs [item] s
  | .incorporateIntents items => itemRecords e.logIndex e.nowMs items s
  | _ => []

structure Recorded (s : ShardSmInner) (log : DeltaRecord) : Prop where
  held : List.Forall₂ (fun d p => d.header.sequence = p.1 ∧ d.label = p.2.toDeltaLabel) s.deltas log
  sorted : log.Pairwise fun p q => p.1 < q.1
  bounds : ∀ p ∈ log, 1 ≤ p.1 ∧ p.1 ≤ s.tip

section
variable {s s' : ShardSmInner} {log : DeltaRecord}

lemma Recorded.congr (h : Recorded s log) (hdeltas : s'.deltas = s.deltas)
    (htip : s'.tip = s.tip) : Recorded s' log := by
  refine ⟨?_, h.sorted, ?_⟩
  · rw [hdeltas]
    exact h.held
  · rw [htip]
    exact h.bounds

lemma Recorded.push (h : Recorded s log) {shardId : ShardId} {args : DeltaArgs}
    {offloaded : Bool} {logIndex : Nat}
    (hdeltas : s'.deltas = s.deltas ++ [mkDelta shardId (s.tip + 1) args offloaded logIndex])
    (htip : s'.tip = s.tip + 1) : Recorded s' (log ++ [(s.tip + 1, args.content)]) where
  held := by
    rw [hdeltas]
    exact rel_append h.held (.cons ⟨rfl, rfl⟩ .nil)
  sorted := by
    refine pairwise_append.2 ⟨h.sorted, pairwise_singleton _ _, fun p hp q hq => ?_⟩
    obtain rfl := mem_singleton.1 hq
    exact lt_succ_of_le (h.bounds p hp).2
  bounds := by
    rw [htip]
    refine forall_mem_append.2 ⟨fun p hp => ?_, forall_mem_singleton.2 ⟨le_add_left 1 _, le_refl _⟩⟩
    exact ⟨(h.bounds p hp).1, le_succ_of_le (h.bounds p hp).2⟩

lemma Recorded.afterItems (h : Recorded s log) (items : List IncorporateItem)
    (logIndex nowMs : Nat) :
    Recorded (ShardSmInner.afterItems logIndex nowMs items s)
      (log ++ itemRecords logIndex nowMs items s) := by
  induction items generalizing s log with
  | nil =>
    rw [itemRecords, append_nil]
    exact h
  | cons item items ih =>
    rw [itemRecords, afterItems, applyOneIncorporate]
    by_cases hr : s.refuses item.perspectiveSeq logIndex = true
    · rw [if_pos hr, if_pos hr]
      exact ih h
    · rw [if_neg hr, if_neg hr, append_cons]
      obtain ⟨hdeltas, htip, _, _⟩ := s.incorporate_appends []
      exact ih (h.push hdeltas htip)

lemma Recorded.apply (h : Recorded s log) {e : Applied} (he : e.cmd.appends = true) :
    Recorded (s.apply e) (log ++ s.records e) := by
  obtain ⟨cmd, logIndex, nowMs⟩ := e
  cases cmd with
  | appendDelta args => exact h.push rfl rfl
  | chunkAndDelta args newChunks inlinePayloads =>
    obtain ⟨_, _, heq⟩ := s.applyNewChunks_eq args.tenantIdBytes newChunks logIndex
    rw [ShardSmInner.apply, ShardSmInner.applyCommandAt, heq]
    exact h.push rfl rfl
  | incorporateIntent item =>
    exact (h.afterItems [item] logIndex nowMs).congr rfl rfl
  | incorporateIntents items =>
    have hitems := h.afterItems items logIndex nowMs
    rw [← applyItems_fst logIndex nowMs items (s, [])] at hitems
    exact hitems.congr rfl rfl
  | _ => cases he

lemma ShardSmInner.reconstruct_header (d : Delta) : (s.reconstruct d).header = d.header := by
  rw [reconstruct]
  split
  · split <;> rfl
  · rfl

def ShardSmInner.readRecord (s : ShardSmInner) : DeltaRecord :=
  s.deltas.map fun d => (d.header.sequence, (s.reconstruct d).content)

structure ShardSmInner.Sequenced (s : ShardSmInner) : Prop where
  sorted : s.deltas.Pairwise fun a b => a.header.sequence < b.header.sequence
  bounds : ∀ d ∈ s.deltas, 1 ≤ d.header.sequence ∧ d.header.sequence ≤ s.tip

lemma ShardSmInner.Sequenced.recorded (h : s.Sequenced) : Recorded s s.readRecord where
  held := by
    rw [readRecord, forall₂_map_right_iff, forall₂_same]
    intro d _
    refine ⟨rfl, ?_⟩
    change d.label = (s.reconstruct d).label
    rw [Delta.label, Delta.label, reconstruct_header]
  sorted := pairwise_map.2 h.sorted
  bounds := by
    intro p hp
    obtain ⟨d, hd, rfl⟩ := mem_map.1 hp
    exact h.bounds d hd

lemma Recorded.sequences (h : Recorded s log) :
    s.deltas.map (fun d => d.header.sequence) = log.map Prod.fst := by
  rw [← forall₂_eq_eq_eq, forall₂_map_left_iff, forall₂_map_right_iff]
  exact h.held.imp fun _ _ hdp => hdp.1

lemma Recorded.sequenced (h : Recorded s log) : s.Sequenced where
  sorted := by
    rw [← pairwise_map (f := fun d : Delta => d.header.sequence) (R := (· < ·)), h.sequences]
    exact pairwise_map.2 h.sorted
  bounds := by
    intro d hd
    have hmem := mem_map_of_mem (f := fun d : Delta => d.header.sequence) hd
    rw [h.sequences] at hmem
    obtain ⟨p, hp, hpd⟩ := mem_map.1 hmem
    rw [← hpd]
    exact h.bounds p hp

lemma ShardSmInner.Sequenced.apply (h : s.Sequenced) (e : Applied) : (s.apply e).Sequenced := by
  by_cases hc : e.cmd.isControl = true
  · obtain ⟨_, _, _, _, _, _, _, heq⟩ := s.applyCommandAt_control hc e.logIndex e.nowMs
    rw [ShardSmInner.apply, heq]
    exact ⟨h.sorted, h.bounds⟩
  by_cases ha : e.cmd.appends = true
  · exact (h.recorded.apply ha).sequenced
  obtain ⟨cmd, logIndex, nowMs⟩ := e
  cases cmd with
  | advanceWatermark consumer position =>
    simp only [ShardSmInner.apply, ShardSmInner.applyCommandAt, pruneDeltasBelowGcBoundary]
    split
    · exact ⟨h.sorted, h.bounds⟩
    · refine ⟨h.sorted.sublist (drop_sublist _ _), fun d hd => ?_⟩
      exact h.bounds d (mem_of_mem_drop hd)
  | _ => first | exact absurd rfl hc | exact absurd rfl ha

lemma ShardSmInner.Sequenced.installSnapshot (h : s.Sequenced) (r : ShardSmInner)
    (windowEntries windowMs : Nat) :
    (r.installSnapshot s.buildSnapshot windowEntries windowMs).Sequenced := by
  have hseq : ∀ d, (restoreDelta r.inlineStore.isSome (s.readBack d)).header.sequence =
      d.header.sequence := by
    intro d
    have hread : (s.readBack d).sequence = d.header.sequence := by
      rw [readBack]
      split
      · split <;> rfl
      · rfl
    rw [restoreDelta]
    split <;> exact hread
  have hdeltas : (r.installSnapshot s.buildSnapshot windowEntries windowMs).deltas =
      s.deltas.map fun d => restoreDelta r.inlineStore.isSome (s.readBack d) := map_map
  refine ⟨?_, fun d hd => ?_⟩
  · rw [hdeltas, pairwise_map]
    exact h.sorted.imp fun {a b} hab => by rwa [hseq, hseq]
  · rw [hdeltas] at hd
    obtain ⟨d', hd', rfl⟩ := mem_map.1 hd
    rw [hseq]
    exact h.bounds d' hd'

lemma ShardSmInner.Reachable.sequenced (h : s.Reachable) : s.Sequenced := by
  induction h with
  | new shardId tenantId windowEntries windowMs inlineStore =>
    exact ⟨List.Pairwise.nil, fun d hd => nomatch hd⟩
  | @apply s _ e nowMs ih =>
    obtain ⟨logId, payload⟩ := e
    cases payload with
    | blank => exact ⟨ih.sorted, ih.bounds⟩
    | normal cmd =>
      have hmarked : ({ s with lastAppliedLog := some logId } : ShardSmInner).Sequenced :=
        ⟨ih.sorted, ih.bounds⟩
      exact hmarked.apply ⟨cmd, logId.index, nowMs⟩
    | membership voters => exact ⟨ih.sorted, ih.bounds⟩
  | @install r s _ _ windowEntries windowMs _ ih =>
    exact ih.installSnapshot r windowEntries windowMs

lemma while_eq_filter {p : α → Bool} {l : List α} (h : l.Pairwise fun a b => p b → p a) :
    l.takeWhile p = l.filter p ∧ l.dropWhile p = l.filter fun a => !p a := by
  induction l with
  | nil => exact ⟨rfl, rfl⟩
  | cons a l ih =>
    obtain ⟨ha, hl⟩ := pairwise_cons.1 h
    obtain ⟨htake, hdrop⟩ := ih hl
    by_cases hp : p a
    · simp [hp, htake, hdrop]
    · have hnone : ∀ b ∈ l, ¬p b := fun b hb hpb => hp (ha b hb hpb)
      have hall : l.filter (fun a => !p a) = l := filter_eq_self.2 (by simpa using hnone)
      simpa [hp, hall] using hnone

lemma dropWhile_lt_of_sorted {f : α → Nat} {l : List α} (n : Nat)
    (h : l.Pairwise fun a b => f a < f b) :
    l.dropWhile (fun a => decide (f a < n)) = l.filter fun a => decide (n ≤ f a) := by
  rw [(while_eq_filter (h.imp fun hab => by simpa using hab.trans)).2]
  simp only [← decide_not, not_lt]

lemma takeWhile_le_of_sorted {f : α → Nat} {l : List α} (n : Nat)
    (h : l.Pairwise fun a b => f a < f b) :
    l.takeWhile (fun a => decide (f a ≤ n)) = l.filter fun a => decide (f a ≤ n) :=
  (while_eq_filter (h.imp fun hab => by simpa using hab.le.trans)).1

lemma ShardSmInner.Sequenced.readDeltas (h : s.Sequenced) {first last : Nat}
    (hle : first ≤ last) :
    s.readDeltas first last = .ok ((s.deltas.filter fun d =>
      decide (first ≤ d.header.sequence ∧ d.header.sequence ≤ last)).map s.reconstruct) := by
  rw [ShardSmInner.readDeltas, if_neg (not_lt.2 hle), dropWhile_lt_of_sorted first h.sorted]
  dsimp only
  rw [takeWhile_le_of_sorted last (h.sorted.filter _), filter_filter]
  simp only [Bool.decide_and, Bool.and_comm]

end

end Kiseki.Log
