import Kiseki.Intent.GroupCommit
import Kiseki.Intent.Reopen

namespace Kiseki.Intent
open Crash Relation Std.ExtTreeMap Triple List PendingIndex Prod Disk SeqMap

def PendingIndex.entriesIn (idx : PendingIndex) (no : Nat) :
    List (PerspectiveSeq × WriteIntent × Nat) :=
  idx.bySeq.toList.filter fun entry => decide (entry.2.2 = no)

def PendingIndex.seqsIn (idx : PendingIndex) (no : Nat) : Finset PerspectiveSeq :=
  ((idx.entriesIn no).map Prod.fst).toFinset

def PendingIndex.Exact (idx : PendingIndex) (live : Nat → Nat) (due : List Nat) : Prop :=
  ∀ no, live no = (idx.entriesIn no).length + due.count no

def Disk.Sole (d : Disk) : Prop :=
  ∀ no no' seq, seq ∈ d.keyspace no → seq ∈ d.keyspace no' → no = no'

structure StoreCore.Exact (core : StoreCore) (d : Disk) : Prop where
  counters : core.pendingIndex.Exact (liveOf core.epochs.live) []
  sole : d.Sole

def StoreCore.Admits (core : StoreCore) (d : Disk) (groups : List (List WriteIntent)) : Prop :=
  ((core.pendingIndex.newIntents [] groups.flatten).map WriteIntent.perspectiveSeq).Nodup ∧
    ∀ r ∈ core.pendingIndex.newIntents [] groups.flatten, ∀ no, no ≠ core.epochs.activeNo →
      r.perspectiveSeq ∉ d.keyspace no

section
variable {idx : PendingIndex} {core : StoreCore} {d : Disk} {live : Nat → Nat} {due : List Nat}
  {r i : WriteIntent} {seq : PerspectiveSeq} {no : Nat}

lemma SeqMap.nodup_filter (m : SeqMap α) (p : PerspectiveSeq × α → Bool) :
    ((m.toList.filter p).map Prod.fst).Nodup := by
  have hkeys : (m.toList.map fst).Nodup := by
    rw [map_fst_toList_eq_keys]
    exact nodup_keys
  exact (filter_sublist.map fst).nodup hkeys

lemma PendingIndex.mem_seqsIn : seq ∈ idx.seqsIn no ↔ ∃ i, idx.bySeq[seq]? = some (i, no) := by
  rw [seqsIn, mem_toFinset, mem_map]
  constructor
  · rintro ⟨⟨seq, i, e⟩, hentry, rfl⟩
    obtain ⟨hin, htag⟩ := mem_filter.1 hentry
    obtain rfl : e = no := of_decide_eq_true htag
    exact ⟨i, mem_toList_iff_getElem?_eq_some.1 hin⟩
  · rintro ⟨i, hentry⟩
    exact ⟨(seq, i, no), mem_filter.2
      ⟨mem_toList_iff_getElem?_eq_some.2 hentry, decide_eq_true rfl⟩, rfl⟩

lemma PendingIndex.card_seqsIn : (idx.seqsIn no).card = (idx.entriesIn no).length := by
  have hnodup : ((idx.entriesIn no).map fst).Nodup := nodup_filter _ _
  rw [seqsIn, toFinset_card_of_nodup hnodup, length_map]

lemma PendingIndex.exact_iff :
    idx.Exact live due ↔ ∀ no, live no = (idx.seqsIn no).card + due.count no := by
  simp only [Exact, card_seqsIn]

lemma PendingIndex.notMem_seqsIn (hnew : seq ∉ idx.bySeq) : seq ∉ idx.seqsIn no := by
  rw [mem_seqsIn]
  exact fun ⟨i, hi⟩ => hnew (mem_iff.2 ⟨_, hi⟩)

variable {e : Nat}

lemma PendingIndex.seqsIn_insertRecord (hnew : r.perspectiveSeq ∉ idx.bySeq) :
    (idx.insertRecord no r).seqsIn e =
      if e = no then insert r.perspectiveSeq (idx.seqsIn e) else idx.seqsIn e := by
  ext seq
  rw [mem_seqsIn]
  simp only [getElem?_insertRecord]
  by_cases hseq : r.perspectiveSeq = seq
  · subst hseq
    simp only [if_true, Option.some.injEq, Prod.mk.injEq, exists_eq_left']
    split
    · exact iff_of_true (Eq.symm ‹_›) (Finset.mem_insert_self _ _)
    · exact iff_of_false (Ne.symm ‹_›) (notMem_seqsIn hnew)
  · simp only [if_neg hseq]
    split
    · rw [Finset.mem_insert, or_iff_right (Ne.symm hseq), mem_seqsIn]
    · exact mem_seqsIn.symm

lemma PendingIndex.Exact.insertRecord (h : idx.Exact live due) (no : Nat)
    (hnew : r.perspectiveSeq ∉ idx.bySeq) :
    (idx.insertRecord no r).Exact (fun e => live e + if e = no then 1 else 0) due := by
  rw [exact_iff] at h ⊢
  intro e
  have hold := h e
  rw [seqsIn_insertRecord hnew]
  split
  · rw [Finset.card_insert_of_notMem (notMem_seqsIn hnew)]
    omega
  · exact hold

lemma PendingIndex.Exact.insertAll {rs : List WriteIntent} (h : idx.Exact live due) (no : Nat)
    (hnew : ∀ r ∈ rs, r.perspectiveSeq ∉ idx.bySeq)
    (hdistinct : (rs.map WriteIntent.perspectiveSeq).Nodup) :
    (rs.foldl (PendingIndex.insertRecord no) idx).Exact
      (fun e => live e + if e = no then rs.length else 0) due := by
  induction rs generalizing idx live with
  | nil => simpa using h
  | cons r rs ih =>
    obtain ⟨hr, hrs⟩ := forall_mem_cons.1 hnew
    obtain ⟨hhead, htail⟩ := nodup_cons.1 hdistinct
    have hrest : ∀ r' ∈ rs, r'.perspectiveSeq ∉ (idx.insertRecord no r).bySeq := by
      intro r' hr' hin
      rcases mem_insertRecord.1 hin with hin | heq
      · exact hrs r' hr' hin
      · exact hhead (mem_map.2 ⟨r', hr', heq.symm⟩)
    intro e
    have hall := ih (h.insertRecord no hr) hrest htail e
    rw [foldl_cons, ← hall, length_cons]
    change live e + (if e = no then rs.length + 1 else 0) =
      live e + (if e = no then 1 else 0) + (if e = no then rs.length else 0)
    split <;> omega

lemma PendingIndex.Exact.erase {idx' : PendingIndex} (h : idx.Exact live due)
    (he : idx.bySeq[seq]? = some (i, no)) (hidx : idx'.bySeq = idx.bySeq.erase seq) :
    idx'.Exact live (due ++ [no]) := by
  have hseqs : ∀ e, idx'.seqsIn e = (idx.seqsIn e).erase seq := by
    intro e
    ext seq'
    rw [mem_seqsIn, hidx, Finset.mem_erase, mem_seqsIn]
    simp only [getElem?_erase]
    by_cases heq : seq = seq'
    · subst heq
      simp only [if_true, reduceCtorEq, exists_false, ne_eq, not_true, false_and]
    · simp only [if_neg heq, ne_eq, Ne.symm heq, not_false_eq_true, true_and]
  rw [exact_iff] at h ⊢
  intro e
  have hold := h e
  rw [hseqs, count_append, count_singleton]
  by_cases heq : no = e
  · subst heq
    have hseq := mem_seqsIn.2 ⟨i, he⟩
    have hpos := Finset.card_pos.2 ⟨seq, hseq⟩
    rw [Finset.card_erase_of_mem hseq, beq_self_eq_true, if_pos rfl]
    omega
  · have hnot : seq ∉ idx.seqsIn e := by
      rw [mem_seqsIn, he]
      rintro ⟨i', hi'⟩
      exact heq (Prod.mk.inj (Option.some.inj hi')).2
    rw [Finset.erase_eq_of_notMem hnot, if_neg (by simpa using heq)]
    exact hold

lemma PendingIndex.Exact.decrement {live : Finmap fun _ : Nat => Nat}
    (h : idx.Exact (liveOf live) due) :
    idx.Exact (liveOf (due.foldl EpochSet.decrementLive live)) [] := by
  intro e
  rw [liveOf_foldl_decrementLive, h e, count_nil, Nat.add_sub_cancel, Nat.add_zero]

lemma Disk.mem_keyspace_insertRow : seq ∈ (d.insertRow no r).keyspace e ↔
    seq ∈ d.keyspace e ∨ e = no ∧ r.perspectiveSeq = seq := by
  rw [keyspace_insertRow]
  by_cases heq : e = no
  · subst heq
    rw [if_pos rfl, mem_iff, mem_iff, getElem?_insert]
    split
    · exact iff_of_true ⟨_, rfl⟩ (.inr ⟨rfl, ‹_›⟩)
    · exact (or_iff_left fun hr => ‹¬_› hr.2).symm
  · rw [if_neg heq]
    exact (or_iff_left fun hr => heq hr.1).symm

variable {rs : List WriteIntent}

lemma Disk.mem_keyspace_insertRows :
    seq ∈ (rs.foldl (Disk.insertRow no) d).keyspace e ↔
      seq ∈ d.keyspace e ∨ e = no ∧ ∃ r ∈ rs, r.perspectiveSeq = seq := by
  induction rs generalizing d with
  | nil => simp
  | cons r rs ih =>
    rw [foldl_cons, ih, mem_keyspace_insertRow, exists_mem_cons_iff, or_assoc, and_or_left]

lemma Disk.mem_keyspace_recordBatch (wmLowered : Option Bytes) :
    seq ∈ (d.recordBatch no rs wmLowered).keyspace e ↔
      seq ∈ d.keyspace e ∨ e = no ∧ ∃ r ∈ rs, r.perspectiveSeq = seq := by
  rw [← mem_keyspace_insertRows]
  cases wmLowered <;> rfl

lemma Disk.Sole.recordBatch {rs : List WriteIntent} (h : d.Sole) (wmLowered : Option Bytes)
    (hrs : ∀ r ∈ rs, ∀ e, e ≠ no → r.perspectiveSeq ∉ d.keyspace e) :
    (d.recordBatch no rs wmLowered).Sole := by
  have helse : ∀ e seq, seq ∈ d.keyspace e → (∃ r ∈ rs, r.perspectiveSeq = seq) → e = no := by
    rintro e seq hseq ⟨r, hr, rfl⟩
    by_contra hne
    exact hrs r hr e hne hseq
  intro e e' seq he he'
  rw [mem_keyspace_recordBatch] at he he'
  rcases he with he | ⟨rfl, he⟩
  · rcases he' with he' | ⟨rfl, he'⟩
    · exact h e e' seq he he'
    · exact helse e seq he he'
  · rcases he' with he' | ⟨rfl, _⟩
    · exact (helse e' seq he' he).symm
    · rfl

lemma Disk.Sole.deleteKeyspace (h : d.Sole) (no : Nat) : (d.deleteKeyspace no).Sole := by
  have hsub : ∀ e seq, seq ∈ (d.deleteKeyspace no).keyspace e → seq ∈ d.keyspace e := by
    intro e seq hseq
    rw [keyspace_deleteKeyspace] at hseq
    split at hseq
    · exact absurd hseq not_mem_empty
    · exact hseq
  exact fun e e' seq he he' => h e e' seq (hsub e seq he) (hsub e' seq he')

lemma maybeRotateEpoch_exact :
    Triple (fun d core => core.Exact d) maybeRotateEpoch (fun _ d core => core.Exact d)
      Disk.Sole := by
  apply bind_mem
  intro core
  apply Triple.ite
  · intro _
    apply bind (Q := fun _ d v => v.Exact d)
    · apply commit
      rintro d v ⟨h, _⟩
      exact ⟨⟨h.counters, h.sole⟩, h.sole⟩
    · intro _
      exact modify fun d v h => ⟨h.counters, h.sole⟩
  · intro _
    exact ret fun d v h => h.1

lemma gcEpochsLocked_exact :
    Triple (fun d core => core.Exact d) gcEpochsLocked (fun _ d core => core.Exact d)
      Disk.Sole := by
  apply bind_mem
  intro core
  apply bind (Q := fun _ d v => v.Exact d)
  · apply Triple.modify
    rintro d v ⟨h, rfl⟩
    refine ⟨fun no => ?_, h.sole⟩
    exact (v.epochs.liveOf_dropDead).trans (h.counters no)
  · intro _
    apply Triple.ite
    · intro _
      exact ret fun d v h => h
    · intro _
      apply bind (Q := fun _ d v => v.Exact d)
      · apply commitAll
        intro f hf d v h
        obtain ⟨no, _, rfl⟩ := mem_map.1 hf
        exact ⟨⟨h.counters, h.sole.deleteKeyspace no⟩, h.sole.deleteKeyspace no⟩
      · intro _
        apply commit
        intro d v h
        exact ⟨⟨h.counters, h.sole⟩, h.sole⟩

lemma retireLocked_exact (work : List RetireWork) :
    Triple (fun d core => core.Exact d) (retireLocked work) (fun _ d core => core.Exact d)
      Disk.Sole := by
  apply retireLocked_rule (R := fun d core => core.Exact d)
  · intro _ d core h
    exact h
  · intro d core first rest _ h st below wm
    have hwalked := removeAll_rule (P := (·.Exact (liveOf core.epochs.live)))
      PendingIndex.Exact.erase work ⟨core.pendingIndex, [], []⟩ h.counters
    exact ⟨⟨hwalked.decrement, h.sole⟩, h.sole⟩
  · exact gcEpochsLocked_exact

lemma commitGroupsLocked_exact (groups : List (List WriteIntent)) :
    Triple (fun d core => core.Exact d ∧ core.Admits d groups) (commitGroupsLocked groups)
      (fun _ d core => core.Exact d) Disk.Sole := by
  apply commitGroupsLocked_rule (R := fun _ d core => core.Exact d)
  · intro d core h _
    exact h.1
  · intro d core r rs h hrecord low
    obtain ⟨hexact, hdistinct, helse⟩ := h
    have hnew := toRecord_eq_newIntents core.pendingIndex groups
    rw [hrecord] at hnew
    rw [← hnew] at hdistinct helse
    have hsole := hexact.sole.recordBatch low helse
    refine ⟨⟨fun no => ?_, hsole⟩, hsole⟩
    have hall := hexact.counters.insertAll core.epochs.activeNo
      (fun r' hr' => notMem_of_newIntents (hnew ▸ hr')) hdistinct no
    refine Eq.trans ?_ hall
    simp only [StoreCore.afterRecord]
    rw [liveOf_insert]
    split
    · rw [‹no = _›]
      rfl
    · rfl
  · intro _
    exact maybeRotateEpoch_exact

variable {rotateThreshold : Nat}

lemma Disk.liveOf_scan (d : Disk) (nos : List Nat) (hno : no ∉ nos) :
    liveOf (d.scan rotateThreshold nos).epochs.live no = 0 := by
  have hfold : ∀ (rest : List Nat) (core : StoreCore), no ∉ rest →
      liveOf (rest.foldl d.scanOne core).epochs.live no = liveOf core.epochs.live no := by
    intro rest
    induction rest with
    | nil => exact fun _ _ => rfl
    | cons e rest ih =>
      intro core hno
      rw [mem_cons, not_or] at hno
      rw [foldl_cons, ih _ hno.2, d.liveOf_scanOne, if_neg hno.1]
  rw [scan, hfold nos _ hno]
  rfl

lemma Disk.Sole.scan (h : d.Sole) (rotateThreshold : Nat) (nos : List Nat) :
    (d.scan rotateThreshold nos).Exact d := by
  have hs := d.scan_scanned rotateThreshold nos
  refine ⟨exact_iff.2 fun no => ?_, h⟩
  rw [count_nil, Nat.add_zero]
  by_cases hno : no ∈ nos
  · have hseqs : (d.scan rotateThreshold nos).pendingIndex.seqsIn no =
        ((d.keptRows no).map fst).toFinset := by
      ext seq
      rw [mem_seqsIn, mem_toFinset, mem_map]
      constructor
      · rintro ⟨i, hi⟩
        obtain ⟨_, _, hrow, hbelow⟩ := hs.mirrors seq i no hi
        exact ⟨(seq, i.value), mem_keptRows.2 ⟨hrow, hbelow⟩, rfl⟩
      · rintro ⟨row, hrow, rfl⟩
        obtain ⟨⟨i, e⟩, hi⟩ := mem_iff.1 (hs.pending no hno row hrow)
        obtain ⟨_, _, hrow', _⟩ := hs.mirrors row.1 i e hi
        obtain rfl := h e no row.1 (mem_iff.2 ⟨_, hrow'⟩) (mem_iff.2 ⟨_, (mem_keptRows.1 hrow).1⟩)
        exact ⟨i, hi⟩
    have hnodup : ((d.keptRows no).map fst).Nodup := nodup_filter _ _
    rw [hs.counts no hno, hseqs, toFinset_card_of_nodup hnodup, length_map]
  · rw [d.liveOf_scan nos hno, eq_comm, Finset.card_eq_zero, Finset.eq_empty_iff_forall_notMem]
    intro seq hseq
    obtain ⟨i, hi⟩ := mem_seqsIn.1 hseq
    exact hno (hs.mirrors seq i no hi).2.1

lemma readEpochList_sole :
    Triple (fun d (_ : StoreCore) => d.Sole) readEpochList (fun _ d _ => d.Sole) Disk.Sole := by
  apply bind_disk
  intro d₀
  split
  · exact ret fun d v h => h.1
  · apply bind (Q := fun _ d _ => d.Sole)
    · exact commit fun d v h => ⟨h.1, h.1⟩
    · intro _
      exact ret fun d v h => h

lemma openEpochs_exact :
    Triple (fun d _ => d.Sole) (openEpochs rotateThreshold)
      (fun r d core => r = .ok () → core.Exact d) Disk.Sole := by
  apply bind readEpochList_sole
  intro nos
  apply bind_disk
  intro d₀
  apply Triple.ite
  · intro _
    exact ret fun d v _ => nofun
  · intro _
    apply bind (Q := fun _ d v => v.Exact d)
    · apply Triple.modify
      rintro d v ⟨h, rfl⟩
      exact h.scan rotateThreshold nos
    · intro _
      apply bind gcEpochsLocked_exact
      intro _
      exact ret fun d v h _ => h

lemma openWithRotate_exact :
    Triple (fun d _ => d.Sole) (openWithRotate rotateThreshold)
      (fun r d core => r = .ok () → core.Exact d) Disk.Sole := by
  apply bind_disk
  intro d₀
  split
  · apply Triple.ite
    · intro _
      exact (openEpochs_exact).weaken (fun _ _ h => h.1) (fun _ _ _ h => h)
        fun _ h => h
    · intro _
      exact ret fun d v _ => nofun
  · apply bind (Q := fun _ d _ => d.Sole)
    · exact commit fun d v h => ⟨h.1, h.1⟩
    · intro _
      exact openEpochs_exact

end

inductive StoreOp where
  | commit (groups : List (List WriteIntent))
  | retire (work : List RetireWork)
  | rotate
  | gc

def StoreOp.run : StoreOp → Prog Disk StoreCore Unit
  | .commit groups => do
    let _ ← commitGroupsLocked groups
    pure ()
  | .retire work => retireLocked work
  | .rotate => maybeRotateEpoch
  | .gc => gcEpochsLocked

def StoreOp.Meets (admits : StoreCore → Disk → List (List WriteIntent) → Prop) (core : StoreCore)
    (d : Disk) : StoreOp → Prop
  | .commit groups => admits core d groups
  | _ => True

inductive EpochStep (admits : StoreCore → Disk → List (List WriteIntent) → Prop) :
    Disk × Option StoreCore → Disk × Option StoreCore → Prop
  | run (op : StoreOp) (h : op.Meets admits core d) :
      EpochStep admits (d, some core) ((op.run d core).disk, some (op.run d core).mem)
  | close : EpochStep admits (d, some core) (d, none)
  | crashInside (op : StoreOp) (h : op.Meets admits core d) (hcut : d' ∈ (op.run d core).cuts) :
      EpochStep admits (d, some core) (d', none)
  | reopen (rotateThreshold : Nat) (h : (openWithRotate rotateThreshold d {}).value = .ok ()) :
      EpochStep admits (d, none) ((openWithRotate rotateThreshold d {}).disk,
        some (openWithRotate rotateThreshold d {}).mem)
  | crashInReopen (rotateThreshold : Nat)
      (hcut : d' ∈ (openWithRotate rotateThreshold d {}).cuts) :
      EpochStep admits (d, none) (d', none)

lemma StoreOp.run_exact (op : StoreOp) :
    Triple (fun d core => core.Exact d ∧ op.Meets StoreCore.Admits core d) op.run
      (fun _ d core => core.Exact d) Disk.Sole := by
  cases op with
  | commit groups =>
    apply bind (commitGroupsLocked_exact groups)
    intro _
    exact ret fun d v h => h
  | retire work =>
    exact (retireLocked_exact work).weaken (fun _ _ h => h.1) (fun _ _ _ h => h) fun _ h => h
  | rotate =>
    exact maybeRotateEpoch_exact.weaken (fun _ _ h => h.1) (fun _ _ _ h => h) fun _ h => h
  | gc => exact gcEpochsLocked_exact.weaken (fun _ _ h => h.1) (fun _ _ _ h => h) fun _ h => h

def EpochsOk (s : Disk × Option StoreCore) : Prop :=
  s.1.Sole ∧ ∀ core ∈ s.2, core.Exact s.1

lemma EpochStep.ok (hstep : EpochStep StoreCore.Admits s s') (h : EpochsOk s) : EpochsOk s' := by
  cases hstep with
  | @run core d op hmeets =>
    obtain ⟨_, hexact⟩ := op.run_exact d core ⟨h.2 core rfl, hmeets⟩
    exact ⟨hexact.sole, fun _ hcore => Option.some.inj hcore ▸ hexact⟩
  | close => exact ⟨h.1, nofun⟩
  | @crashInside core d d' op hmeets hcut =>
    exact ⟨(op.run_exact d core ⟨h.2 core rfl, hmeets⟩).1 d' hcut, nofun⟩
  | @reopen d rotateThreshold hvalue =>
    have hexact := (openWithRotate_exact d {} h.1).2 hvalue
    exact ⟨hexact.sole, fun _ hcore => Option.some.inj hcore ▸ hexact⟩
  | @crashInReopen d d' rotateThreshold hcut =>
    exact ⟨(openWithRotate_exact d {} h.1).1 d' hcut, nofun⟩

lemma epochsOk_empty : EpochsOk ({}, none) := by
  refine ⟨fun no no' seq hseq _ => ?_, nofun⟩
  exact absurd hseq not_mem_empty

lemma epochsOk_of_run (h : ReflTransGen (EpochStep StoreCore.Admits) ({}, none) s) :
    EpochsOk s := by
  induction h with
  | refl => exact epochsOk_empty
  | tail _ hstep ih => exact hstep.ok ih

variable {d : Disk}

lemma Disk.mem_deleteKeyspaces (dead : List Nat) :
    no ∈ ((dead.map Disk.deleteKeyspace).foldl (fun d f => f d) d).keyspaces ↔
      no ∈ d.keyspaces ∧ no ∉ dead := by
  induction dead generalizing d with
  | nil => exact (and_iff_left not_mem_nil).symm
  | cons e dead ih =>
    rw [map_cons, foldl_cons, ih, deleteKeyspace, Finmap.mem_erase, mem_cons, not_or,
      and_comm (a := no ≠ e), and_assoc]

lemma gcEpochsLocked_result (core : StoreCore) :
    (gcEpochsLocked d core).mem.epochs = core.epochs.dropDead ∧
      ∀ no ∈ core.epochs.sealed, core.epochs.isDead no = true →
        no ∉ (gcEpochsLocked d core).disk.keyspaces := by
  let dead := core.epochs.sealed.filter core.epochs.isDead
  let core' : StoreCore := { core with epochs := core.epochs.dropDead }
  have hgc : gcEpochsLocked d core = (if dead = [] then pure ()
      else do
        Prog.commitAll (dead.map deleteKeyspace)
        Prog.commit fun d => { d with epochs := some core.epochs.dropDead.nos } :
          Prog Disk StoreCore Unit) d core' := rfl
  rw [hgc]
  by_cases hdead : dead = []
  · rw [if_pos hdead]
    refine ⟨rfl, fun no hno hzero => ?_⟩
    have hin : no ∈ dead := mem_filter.2 ⟨hno, hzero⟩
    rw [hdead] at hin
    exact absurd hin not_mem_nil
  · rw [if_neg hdead]
    obtain ⟨hdisk, hmem⟩ := Prog.commitAll_result d
    refine ⟨congrArg StoreCore.epochs hmem, fun no hno hzero => ?_⟩
    change no ∉ (Prog.commitAll (dead.map deleteKeyspace) d core').disk.keyspaces
    rw [hdisk, mem_deleteKeyspaces]
    exact fun hin => hin.2 (mem_filter.2 ⟨hno, hzero⟩)

/-- When new intents have seqs and rows of their own, the counters are exact. -/
theorem live_counters_exact {d : Disk} {core : StoreCore}
    (h : ReflTransGen (EpochStep StoreCore.Admits) ({}, none) (d, some core)) :
    (∀ no, liveOf core.epochs.live no = (core.pendingIndex.entriesIn no).length) ∧
      ∀ no ∈ core.epochs.sealed,
        ((no ∉ (gcEpochsLocked d core).mem.epochs.sealed ∧
          no ∉ (gcEpochsLocked d core).disk.keyspaces) ↔
        core.pendingIndex.entriesIn no = []) := by
  have hexact : ∀ no, liveOf core.epochs.live no = (core.pendingIndex.entriesIn no).length :=
    ((epochsOk_of_run h).2 core rfl).counters
  refine ⟨hexact, fun no hno => ?_⟩
  obtain ⟨hepochs, hkeyspaces⟩ := gcEpochsLocked_result core
  have hdead : core.epochs.isDead no = true ↔ core.pendingIndex.entriesIn no = [] := by
    rw [← length_eq_zero_iff, ← hexact no]
    exact decide_eq_true_iff
  rw [← hdead, hepochs]
  constructor
  · rintro ⟨hdropped, _⟩
    by_contra hkept
    exact hdropped (mem_filter.2 ⟨hno, Bool.not_eq_true' _ ▸ eq_false_of_ne_true hkept⟩)
  · intro hzero
    refine ⟨fun hkept => ?_, hkeyspaces no hno hzero⟩
    have hlive := (mem_filter.1 hkept).2
    rw [hzero] at hlive
    exact nomatch hlive

def twoPuts : Outcome Disk StoreCore Unit :=
  (StoreOp.commit [[plainIntent 5], [plainIntent 6]]).run (openWithRotate 1 {} {}).disk
    (openWithRotate 1 {} {}).mem

/-- A sealed epoch with two intents, after a restart. -/
theorem live_counters_exact_sealed : let opened := openWithRotate 1 twoPuts.disk {}
    opened.mem.epochs.activeNo = 1 ∧
      liveOf opened.mem.epochs.live 0 = (opened.mem.pendingIndex.entriesIn 0).length := by
  intro opened
  have hadmits : (openWithRotate 1 {} {}).mem.Admits (openWithRotate 1 {} {}).disk
      [[plainIntent 5], [plainIntent 6]] := by
    refine ⟨by decide, fun r _ no _ hrow => ?_⟩
    exact absurd hrow not_mem_empty
  have hrun : ReflTransGen (EpochStep StoreCore.Admits) ({}, none)
      (opened.disk, some opened.mem) :=
    .tail (.tail (.tail (.single (.reopen 1 rfl)) (.run (.commit _) hadmits)) .close)
      (.reopen 1 rfl)
  exact ⟨by decide, (live_counters_exact hrun).1 0⟩

def resent : Outcome Disk StoreCore Unit :=
  (StoreOp.commit [[plainIntent 5], [plainIntent 5]]).run (openWithRotate 2 {} {}).disk
    (openWithRotate 2 {} {}).mem

def resentRetired : Outcome Disk StoreCore Unit :=
  (StoreOp.retire [((plainIntent 5).perspectiveSeq, none, 0)]).run resent.disk resent.mem

/-- Counted twice for one entry, the epoch is kept for ever. -/
theorem resent_intent_pins_epoch :
    ReflTransGen (EpochStep fun _ _ _ => True) ({}, none)
        (resentRetired.disk, some resentRetired.mem) ∧
      liveOf resent.mem.epochs.live 0 = 2 ∧ (resent.mem.pendingIndex.entriesIn 0).length = 1 ∧
      liveOf resentRetired.mem.epochs.live 0 = 1 ∧
      resentRetired.mem.pendingIndex.entriesIn 0 = [] ∧ resentRetired.mem.epochs.sealed = [0] ∧
      (gcEpochsLocked resentRetired.disk resentRetired.mem).mem.epochs.sealed = [0] := by
  refine ⟨?_, by decide, by decide, by decide, by decide, by decide, by decide⟩
  exact .tail (.tail (.single (.reopen 2 rfl))
    (.run (.commit [[plainIntent 5], [plainIntent 5]]) trivial))
    (.run (.retire [((plainIntent 5).perspectiveSeq, none, 0)]) trivial)

end Kiseki.Intent
