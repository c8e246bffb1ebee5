import Kiseki.Lib.Fifo
import Kiseki.Log.StateMachine

namespace Kiseki.Log

open List Nat Fifo

/-- The deque, its mirror, the cutoff and the bounds. -/
structure DedupWindow where
  recent : List RecentIncorporatedEntry
  seqs : Finset HybridLogicalClock
  cutoff : Nat
  entries : Nat
  ms : Nat

def ShardSmInner.window (s : ShardSmInner) : DedupWindow where
  recent := s.recentIncorporated
  seqs := s.recentIncorporatedSeqs
  cutoff := s.ancientCutoffLogIndex
  entries := s.dedupWindowEntries
  ms := s.dedupWindowMs

def DedupWindow.refuses (w : DedupWindow) (seq : HybridLogicalClock) (logIndex : Nat) : Bool :=
  decide (seq ∈ w.seqs) || decide (logIndex < w.cutoff)

variable {s : ShardSmInner} {seq : HybridLogicalClock} {logIndex : Nat}

lemma ShardSmInner.refuses_window : s.refuses seq logIndex = s.window.refuses seq logIndex := rfl

def DedupWindow.evicts (w : DedupWindow) (nowMs len : Nat) (e : RecentIncorporatedEntry) : Bool :=
  decide (len > w.entries ∨ nowMs - e.applyMs > w.ms)

def seqsOf (l : List RecentIncorporatedEntry) : List HybridLogicalClock :=
  l.map RecentIncorporatedEntry.perspectiveSeq

def cutoffAfter (cutoff : Nat) (l : List RecentIncorporatedEntry) : Nat :=
  l.foldl (fun c e => max c (e.logIndex + 1)) cutoff

lemma cutoffAfter_le_iff {c b : Nat} {l : List RecentIncorporatedEntry} :
    cutoffAfter c l ≤ b ↔ c ≤ b ∧ ∀ e ∈ l, e.logIndex < b := by
  induction l generalizing c with
  | nil => simp [cutoffAfter]
  | cons e l ih =>
    apply ih.trans
    rw [Nat.max_le, and_assoc, forall_mem_cons, succ_le_iff]

lemma evictLoop_eq (w : DedupWindow) (nowMs : Nat) (l : List RecentIncorporatedEntry)
    (seqs : Finset HybridLogicalClock) (cutoff : Nat) :
    evictLoop w.entries w.ms nowMs l seqs cutoff =
      (dropFront (w.evicts nowMs) l,
        seqs \ (seqsOf (dropped (w.evicts nowMs) l)).toFinset,
        cutoffAfter cutoff (dropped (w.evicts nowMs) l)) := by
  induction l generalizing seqs cutoff with
  | nil => simp [evictLoop, dropFront, dropped, cutoffAfter, seqsOf]
  | cons e l ih =>
    by_cases h : l.length + 1 > w.entries ∨ nowMs - e.applyMs > w.ms
    · have hb : w.evicts nowMs (l.length + 1) e = true := decide_eq_true h
      rw [evictLoop, if_pos h, ih]
      simp only [dropFront, dropped, hb, if_true, cutoffAfter, foldl_cons, seqsOf,
        map_cons, toFinset_cons, Prod.mk.injEq, true_and, and_true]
      ext q
      simp only [Finset.mem_sdiff, Finset.mem_erase, Finset.mem_insert]
      tauto
    · have hb : w.evicts nowMs (l.length + 1) e = false := decide_eq_false h
      rw [evictLoop, if_neg h]
      simp [dropFront, dropped, hb, cutoffAfter, seqsOf]

def DedupWindow.push (w : DedupWindow) (logIndex : Nat) (seq : HybridLogicalClock)
    (nowMs : Nat) : DedupWindow :=
  let pushed := w.recent ++ [⟨logIndex, seq, nowMs⟩]
  let gone := dropped (w.evicts nowMs) pushed
  { w with
    recent := dropFront (w.evicts nowMs) pushed
    seqs := insert seq w.seqs \ (seqsOf gone).toFinset
    cutoff := cutoffAfter w.cutoff gone }

variable {nowMs : Nat}

lemma ShardSmInner.window_pushRecentAndEvict :
    (s.pushRecentAndEvict logIndex seq nowMs).window = s.window.push logIndex seq nowMs := by
  have h := evictLoop_eq s.window nowMs (s.recentIncorporated ++ [⟨logIndex, seq, nowMs⟩])
    (insert seq s.recentIncorporatedSeqs) s.ancientCutoffLogIndex
  simp only [pushRecentAndEvict, window, DedupWindow.push] at h ⊢
  rw [h]

section
variable (s : ShardSmInner) (tenantIdBytes : Uuid) (newChunks : List NewChunkMeta) (logIndex : Nat)

lemma ShardSmInner.applyNewChunks_eq :
    ∃ rows parked, s.applyNewChunks tenantIdBytes newChunks logIndex =
      { s with clusterChunkState := rows, pendingChunkDecrements := parked } := by
  induction newChunks generalizing s with
  | nil => exact ⟨_, _, rfl⟩
  | cons nc ncs ih =>
    obtain ⟨rows, parked, h⟩ := ih (s.applyNewChunk ⟨tenantIdBytes⟩ logIndex nc)
    refine ⟨rows, parked, h.trans ?_⟩
    simp only [applyNewChunk]
    split <;> rfl

lemma ShardSmInner.window_applyNewChunks :
    (s.applyNewChunks tenantIdBytes newChunks logIndex).window = s.window := by
  obtain ⟨_, _, h⟩ := s.applyNewChunks_eq tenantIdBytes newChunks logIndex
  rw [h]
  rfl

end

lemma ShardSmInner.window_incorporate (s : ShardSmInner) (item : IncorporateItem)
    (logIndex nowMs : Nat) (batch : InlineBatch) :
    (s.incorporate item logIndex nowMs batch).1.window =
      s.window.push logIndex item.perspectiveSeq nowMs := by
  simp only [incorporate, appendDeltaInner]
  rw [window_pushRecentAndEvict]
  exact congrArg (fun w => DedupWindow.push w logIndex item.perspectiveSeq nowMs)
    (s.window_applyNewChunks item.tenantIdBytes item.newChunks logIndex)

/-- The commands that set control state. -/
def LogCommand.isControl : LogCommand → Bool
  | .incrementChunkRefcount _ _ | .decrementChunkRefcount _ _ | .setMaintenance _
  | .setShardState _ | .updateShardRange _ _ | .setShardConfig _ => true
  | _ => false

lemma ShardSmInner.applyCommandAt_control (s : ShardSmInner) {cmd : LogCommand}
    (h : cmd.isControl = true) (logIndex nowMs : Nat) :
    ∃ maintenance rows parked rangeStart rangeEnd state config,
      (s.applyCommandAt cmd logIndex nowMs).1 =
        { s with
          maintenance := maintenance, clusterChunkState := rows, pendingChunkDecrements := parked,
          rangeStart := rangeStart, rangeEnd := rangeEnd, state := state, config := config } := by
  cases cmd with
  | incrementChunkRefcount tenant chunk =>
    simp only [applyCommandAt, incrementChunkRefcount]
    split <;> exact ⟨_, _, _, _, _, _, _, rfl⟩
  | decrementChunkRefcount tenant chunk =>
    simp only [applyCommandAt, decrementChunkRefcount]
    split
    · exact ⟨_, _, _, _, _, _, _, rfl⟩
    · split <;> exact ⟨_, _, _, _, _, _, _, rfl⟩
  | setShardState state =>
    simp only [applyCommandAt]
    split <;> exact ⟨_, _, _, _, _, _, _, rfl⟩
  | setMaintenance enabled => exact ⟨_, _, _, _, _, _, _, rfl⟩
  | updateShardRange rangeStart rangeEnd => exact ⟨_, _, _, _, _, _, _, rfl⟩
  | setShardConfig config => exact ⟨_, _, _, _, _, _, _, rfl⟩
  | _ => cases h

lemma ShardSmInner.window_applyCommandAt (s : ShardSmInner) (cmd : LogCommand)
    (h₁ : ∀ item, cmd ≠ .incorporateIntent item)
    (h₂ : ∀ items, cmd ≠ .incorporateIntents items) :
    (s.applyCommandAt cmd logIndex nowMs).1.window = s.window := by
  by_cases hc : cmd.isControl = true
  · obtain ⟨_, _, _, _, _, _, _, h⟩ := s.applyCommandAt_control hc logIndex nowMs
    rw [h]
    rfl
  cases cmd with
  | appendDelta args => rfl
  | chunkAndDelta args newChunks inlinePayloads =>
    exact s.window_applyNewChunks args.tenantIdBytes newChunks logIndex
  | advanceWatermark consumer position =>
    simp only [applyCommandAt, pruneDeltasBelowGcBoundary]
    split <;> rfl
  | incorporateIntent item => exact absurd rfl (h₁ item)
  | incorporateIntents items => exact absurd rfl (h₂ items)
  | _ => exact absurd rfl hc

structure DedupWindow.Tracks (w : DedupWindow) (history : List HybridLogicalClock) : Prop where
  mirror : w.seqs = (seqsOf w.recent).toFinset
  nodup : (seqsOf w.recent).Nodup
  suffix : seqsOf w.recent <:+ history
  bounded : w.recent.length ≤ w.entries

lemma DedupWindow.Tracks.mem_iff (h : Tracks w history) :
    seq ∈ w.seqs ↔ seq ∈ seqsOf w.recent := by
  rw [h.mirror, mem_toFinset]

lemma DedupWindow.Tracks.mem_lastN (h : Tracks w history) (hs : seq ∈ w.seqs) :
    seq ∈ lastN w.entries history := by
  have hlen : (seqsOf w.recent).length ≤ w.entries := by
    simpa only [seqsOf, length_map] using h.bounded
  exact (suffix_lastN h.suffix hlen).subset (h.mem_iff.1 hs)

lemma DedupWindow.Tracks.mem_history (h : Tracks w history) (hs : seq ∈ w.seqs) : seq ∈ history :=
  h.suffix.subset (h.mem_iff.1 hs)

lemma seqsOf_dropFront_suffix (w : DedupWindow) (l : List RecentIncorporatedEntry) :
    seqsOf (dropFront (w.evicts nowMs) l) <:+ seqsOf l :=
  (dropFront_suffix _ l).map _

lemma seqsOf_push (l : List RecentIncorporatedEntry) :
    seqsOf (l ++ [⟨logIndex, seq, nowMs⟩]) = seqsOf l ++ [seq] := by
  simp only [seqsOf, map_append, map_cons, map_nil]

lemma DedupWindow.push_mirror {w : DedupWindow} (hmirror : w.seqs = (seqsOf w.recent).toFinset)
    (hnodup : (seqsOf w.recent).Nodup) (hs : seq ∉ w.seqs) (logIndex nowMs : Nat) :
    (w.push logIndex seq nowMs).seqs = (seqsOf (w.push logIndex seq nowMs).recent).toFinset ∧
      (seqsOf (w.push logIndex seq nowMs).recent).Nodup := by
  have hpushed : (seqsOf (w.recent ++ [⟨logIndex, seq, nowMs⟩])).Nodup := by
    rw [seqsOf_push]
    apply List.Nodup.append hnodup (nodup_singleton seq)
    rw [disjoint_singleton]
    rwa [hmirror, mem_toFinset] at hs
  have hsplit := congrArg seqsOf (dropped_append_dropFront (w.evicts nowMs)
    (w.recent ++ [⟨logIndex, seq, nowMs⟩]))
  rw [seqsOf, map_append] at hsplit
  constructor
  · ext q
    have hd := hsplit ▸ hpushed
    have hmem : q ∈ seqsOf w.recent ++ [seq] ↔
        q ∈ seqsOf (dropped (w.evicts nowMs) (w.recent ++ [⟨logIndex, seq, nowMs⟩])) ∨
          q ∈ seqsOf (dropFront (w.evicts nowMs) (w.recent ++ [⟨logIndex, seq, nowMs⟩])) := by
      rw [← seqsOf_push, ← hsplit, mem_append]
      rfl
    have hdisj := (nodup_append'.1 hd).2.2
    simp only [DedupWindow.push, Finset.mem_sdiff, Finset.mem_insert, mem_toFinset, hmirror]
    rw [mem_append, mem_singleton] at hmem
    constructor
    · rintro ⟨hq, hn⟩
      exact (hmem.1 hq.symm).resolve_left hn
    · intro hq
      exact ⟨(hmem.2 (.inr hq)).symm, fun hn => hdisj hn hq⟩
  · exact (seqsOf_dropFront_suffix w _).nodup hpushed

lemma DedupWindow.length_push_le (w : DedupWindow) :
    (w.push logIndex seq nowMs).recent.length ≤ w.entries :=
  length_dropFront_le (fun _ _ hn => decide_eq_true (.inl hn)) _

lemma DedupWindow.Tracks.push (h : Tracks w history) (hs : seq ∉ w.seqs)
    (logIndex nowMs : Nat) : Tracks (w.push logIndex seq nowMs) (history ++ [seq]) := by
  obtain ⟨hmirror, hnodup⟩ := push_mirror h.mirror h.nodup hs logIndex nowMs
  refine ⟨hmirror, hnodup, ?_, w.length_push_le⟩
  apply (seqsOf_dropFront_suffix w _).trans
  rw [seqsOf_push]
  exact (suffix_append_inj_of_length_eq rfl).2 ⟨h.suffix, rfl⟩

structure DedupWindow.Below (w : DedupWindow) (bound : Nat) : Prop where
  index : ∀ e ∈ w.recent, e.logIndex < bound
  cutoff : w.cutoff ≤ bound

lemma DedupWindow.Below.mono (h : Below w b) (hb : b ≤ b') : Below w b' :=
  ⟨fun e he => lt_of_lt_of_le (h.index e he) hb, h.cutoff.trans hb⟩

structure DedupWindow.AtIndex (w : DedupWindow) (logIndex nowMs pushes : Nat) : Prop where
  split : ∃ old new, w.recent = old ++ new ∧ new.length = min pushes w.entries ∧
    (∀ e ∈ new, e.logIndex = logIndex ∧ e.applyMs = nowMs) ∧ ∀ e ∈ old, e.logIndex < logIndex
  fresh : pushes ≤ w.entries → w.cutoff ≤ logIndex
  stale : w.entries < pushes → logIndex < w.cutoff
  bound : w.cutoff ≤ logIndex + 1

lemma DedupWindow.Below.atIndex (h : Below w logIndex) : AtIndex w logIndex nowMs 0 where
  split := ⟨w.recent, [], by simp, by simp, by simp, h.index⟩
  fresh := fun _ => h.cutoff
  stale := fun hlt => absurd hlt (not_lt_zero _)
  bound := h.cutoff.trans (le_succ _)

lemma DedupWindow.AtIndex.below (h : AtIndex w logIndex nowMs pushes) :
    Below w (logIndex + 1) := by
  obtain ⟨old, new, hrec, _, hnew, hold⟩ := h.split
  constructor
  · intro e he
    rw [hrec, mem_append] at he
    rcases he with he | he
    · exact lt_succ_of_lt (hold e he)
    · exact lt_succ_of_le (hnew e he).1.le
  · exact h.bound

lemma DedupWindow.evicts_eq_false (w : DedupWindow) {e : RecentIncorporatedEntry}
    (hn : n ≤ w.entries) (he : e.applyMs = nowMs) : w.evicts nowMs n e = false := by
  apply decide_eq_false
  rintro (h | h) <;> omega

lemma forall_pushed {new : List RecentIncorporatedEntry}
    (hnew : ∀ e ∈ new, e.logIndex = logIndex ∧ e.applyMs = nowMs) (seq : HybridLogicalClock) :
    ∀ e ∈ new ++ [⟨logIndex, seq, nowMs⟩], e.logIndex = logIndex ∧ e.applyMs = nowMs := by
  exact forall_mem_append.2 ⟨hnew, forall_mem_singleton.2 ⟨rfl, rfl⟩⟩

lemma DedupWindow.AtIndex.push_within (h : AtIndex w logIndex nowMs pushes)
    (hle : pushes + 1 ≤ w.entries) :
    AtIndex (w.push logIndex seq nowMs) logIndex nowMs (pushes + 1) := by
  obtain ⟨old, new, hrec, hlen, hnew, hold⟩ := h.split
  have hlen' : (new ++ [RecentIncorporatedEntry.mk logIndex seq nowMs]).length =
      pushes + 1 := by
    rw [length_append, hlen, length_singleton]
    omega
  have hnew' := forall_pushed hnew seq
  have hsuf : new ++ [⟨logIndex, seq, nowMs⟩] <:+
      dropFront (w.evicts nowMs) (old ++ (new ++ [⟨logIndex, seq, nowMs⟩])) :=
    suffix_dropFront old fun n e hn he =>
      w.evicts_eq_false (hn.trans (hlen'.le.trans hle)) (hnew' e he).2
  obtain ⟨kept, hkept⟩ := hsuf
  have hsplit := dropped_append_dropFront (w.evicts nowMs)
    (old ++ (new ++ [⟨logIndex, seq, nowMs⟩]))
  rw [← hkept, ← append_assoc, append_left_inj] at hsplit
  have hrec' : w.recent ++ [⟨logIndex, seq, nowMs⟩] =
      old ++ (new ++ [⟨logIndex, seq, nowMs⟩]) := by
    rw [hrec, append_assoc]
  have hcut : (w.push logIndex seq nowMs).cutoff ≤ logIndex := by
    refine cutoffAfter_le_iff.2 ⟨h.fresh (by omega), fun e he => hold e ?_⟩
    rw [hrec'] at he
    rw [← hsplit]
    exact mem_append_left _ he
  constructor
  · refine ⟨kept, _, ?_, ?_, hnew', ?_⟩
    · rw [hkept, ← hrec']
      rfl
    · rw [hlen']
      exact (min_eq_left hle).symm
    · intro e he
      apply hold
      rw [← hsplit]
      exact mem_append_right _ he
  · exact fun _ => hcut
  · intro hlt
    exact absurd hle (not_le.2 hlt)
  · exact hcut.trans (le_succ _)

lemma DedupWindow.AtIndex.push_overflow (h : AtIndex w logIndex nowMs w.entries) :
    AtIndex (w.push logIndex seq nowMs) logIndex nowMs (w.entries + 1) := by
  obtain ⟨old, new, hrec, hlen, hnew, hold⟩ := h.split
  obtain ⟨first, last, hfl⟩ : ∃ first last, new ++ [⟨logIndex, seq, nowMs⟩] = first :: last := by
    cases new with
    | nil => exact ⟨_, [], rfl⟩
    | cons e new => exact ⟨e, _, rfl⟩
  have hall := forall_pushed hnew seq
  rw [hfl] at hall
  have hlast : last.length = w.entries := by
    have hcount := congrArg length hfl
    rw [length_append, hlen, min_self, length_singleton, length_cons] at hcount
    exact (succ.inj hcount).symm
  have hrec' : w.recent ++ [⟨logIndex, seq, nowMs⟩] = (old ++ [first]) ++ last := by
    rw [hrec, append_assoc, hfl, append_assoc, singleton_append]
  have hsuf : last <:+ dropFront (w.evicts nowMs) ((old ++ [first]) ++ last) :=
    suffix_dropFront _ fun n e hn he =>
      w.evicts_eq_false (hn.trans hlast.le) (hall e (mem_cons_of_mem _ he)).2
  have hfront : last = dropFront (w.evicts nowMs) ((old ++ [first]) ++ last) := by
    apply hsuf.eq_of_length_le
    rw [hlast]
    exact length_dropFront_le (fun n e hn => decide_eq_true (.inl hn)) _
  have hgone : dropped (w.evicts nowMs) ((old ++ [first]) ++ last) = old ++ [first] := by
    have hsplit := dropped_append_dropFront (w.evicts nowMs) ((old ++ [first]) ++ last)
    rw [← hfront] at hsplit
    exact append_cancel_right hsplit
  have hcut : (w.push logIndex seq nowMs).cutoff = cutoffAfter w.cutoff (old ++ [first]) := by
    simp only [DedupWindow.push]
    rw [hrec', hgone]
  have hfirst := (hall first mem_cons_self).1
  constructor
  · refine ⟨[], last, ?_, ?_, fun e he => hall e (mem_cons_of_mem _ he), by simp⟩
    · rw [nil_append]
      simp only [DedupWindow.push]
      rw [hrec', ← hfront]
    · rw [hlast]
      exact (min_eq_right (le_succ _)).symm
  · intro hle
    exact absurd hle (not_succ_le_self _)
  · intro _
    rw [hcut]
    calc logIndex = first.logIndex := hfirst.symm
      _ < cutoffAfter w.cutoff (old ++ [first]) := (cutoffAfter_le_iff.1 le_rfl).2 _ (by simp)
  · rw [hcut]
    refine cutoffAfter_le_iff.2 ⟨(h.fresh (le_refl _)).trans (le_succ _), ?_⟩
    refine forall_mem_append.2 ⟨fun e he => lt_succ_of_lt (hold e he), forall_mem_singleton.2 ?_⟩
    rw [hfirst]
    exact lt_succ_self _

lemma DedupWindow.AtIndex.push (h : AtIndex w logIndex nowMs pushes)
    (hle : pushes ≤ w.entries) (seq : HybridLogicalClock) :
    AtIndex (w.push logIndex seq nowMs) logIndex nowMs (pushes + 1) := by
  rcases lt_or_eq_of_le hle with hlt | rfl
  · exact h.push_within hlt
  · exact h.push_overflow

lemma DedupWindow.AtIndex.refuses_iff (h : AtIndex w logIndex nowMs pushes)
    (seq : HybridLogicalClock) :
    w.refuses seq logIndex = true ↔ seq ∈ w.seqs ∨ w.entries < pushes := by
  rw [DedupWindow.refuses, Bool.or_eq_true, decide_eq_true_iff, decide_eq_true_iff]
  apply or_congr_right
  constructor
  · intro hlt
    by_contra hle
    exact absurd (h.fresh (not_lt.1 hle)) (not_le.2 hlt)
  · exact h.stale

end Kiseki.Log
