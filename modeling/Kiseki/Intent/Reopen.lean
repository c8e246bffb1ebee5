import Kiseki.Intent.CrashSafety

namespace Kiseki.Intent
open Crash Function List Nat Triple PendingIndex Prod Disk SeqMap

def Ghost.retire (g : Ghost) (seqs : List PerspectiveSeq) : Ghost :=
  { g with
    live := g.live \ seqs.toFinset
    retired := g.retired ∪ seqs.toFinset }

section
variable {core : StoreCore} {d : Disk} {g : Ghost} {idx : PendingIndex} {live : Nat → Nat}
  {no activeNo : Nat} {done nos : List Nat}

lemma Disk.RowsRecorded.retire (h : d.RowsRecorded g) (seqs : List PerspectiveSeq) :
    d.RowsRecorded (g.retire seqs) := by
  intro no seq v hv
  obtain ⟨hrec, hseq⟩ := h no seq v hv
  refine ⟨hrec, ?_⟩
  simp only [Ghost.retire, Finset.mem_sdiff, Finset.mem_union]
  tauto

lemma Retiring.removeOne_spec (st : Retiring) (w : RetireWork) :
    (st.index.bySeq[w.1]? = none ∧ st.removeOne w = st) ∨
      ∃ i no, st.index.bySeq[w.1]? = some (i, no) ∧
        (st.removeOne w).index.bySeq = st.index.bySeq.erase w.1 ∧
        (st.removeOne w).removedEpochs = st.removedEpochs ++ [no] := by
  rw [removeOne]
  split
  · exact .inl ⟨‹_›, rfl⟩
  · refine .inr ⟨_, _, ‹_›, ?_⟩
    split
    · exact ⟨rfl, rfl⟩
    · simp only
      split <;> exact ⟨rfl, rfl⟩

variable {work : List RetireWork}

lemma Retiring.getElem?_removeOne (st : Retiring) (w : RetireWork) (seq : PerspectiveSeq) :
    (st.removeOne w).index.bySeq[seq]? = if seq = w.1 then none else st.index.bySeq[seq]? := by
  rcases st.removeOne_spec w with ⟨hnone, heq⟩ | ⟨i, no, _, herase, _⟩
  · rw [heq]
    split
    · rw [‹seq = w.1›, hnone]
    · rfl
  · rw [herase, getElem?_erase]
    exact if_congr eq_comm rfl rfl

lemma getElem?_removeAll (st : Retiring) (seq : PerspectiveSeq) :
    (work.foldl Retiring.removeOne st).index.bySeq[seq]? =
      if seq ∈ work.map fst then none else st.index.bySeq[seq]? := by
  induction work generalizing st with
  | nil =>
    rw [map_nil, if_neg not_mem_nil]
    rfl
  | cons w work ih =>
    rw [foldl_cons, ih, st.getElem?_removeOne, ← ite_or]
    exact if_congr (or_comm.trans mem_cons.symm) rfl rfl

/-- What holds of the index and the epochs along a walk. -/
lemma removeAll_rule {P : PendingIndex → List Nat → Prop}
    (herase : ∀ {idx idx' : PendingIndex} {seq i no due}, P idx due →
      idx.bySeq[seq]? = some (i, no) → idx'.bySeq = idx.bySeq.erase seq → P idx' (due ++ [no]))
    (work : List RetireWork) (st : Retiring) (h : P st.index st.removedEpochs) :
    P (work.foldl Retiring.removeOne st).index
      (work.foldl Retiring.removeOne st).removedEpochs := by
  induction work generalizing st with
  | nil => exact h
  | cons w work ih =>
    apply ih
    rcases st.removeOne_spec w with ⟨_, heq⟩ | ⟨i, no, hentry, herased, hdue⟩
    · rwa [heq]
    · rw [hdue]
      exact herase h hentry herased

def PendingIndex.Retires (idx : PendingIndex) (work : List RetireWork) : Prop :=
  ∀ w ∈ work, ∀ i, idx.view.intentAt w.1 = some i → i.idempotencyKey = w.2.1

lemma Retiring.view_removeOne (st : Retiring) (w : RetireWork) :
    (st.removeOne w).index.view = st.index.view ∨
      (st.removeOne w).index.view = st.index.view.remove w.1 w.2.1 := by
  have hbySeq : (fun seq => (st.index.bySeq.erase w.1)[seq]?.map fst) =
      update st.index.view.intentAt w.1 none := by
    funext seq
    simp only [view, update_apply, getElem?_erase]
    by_cases h : w.1 = seq
    · rw [if_pos h, if_pos h.symm]
      rfl
    · rw [if_neg h, if_neg (Ne.symm h)]
  rw [removeOne]
  split
  · exact .inl rfl
  · right
    split
    · apply View.ext hbySeq
      funext key
      simp only [View.remove, ‹w.2.1 = none›, reduceCtorEq, false_and, if_false]
      rfl
    · rename_i key hkey
      simp only
      split
      · apply View.ext hbySeq
        funext k
        rw [View.remove, hkey]
        exact Maps.lookup_erase_held ‹_›
      · apply View.ext hbySeq
        funext k
        simp only [View.remove, hkey, Option.some.injEq]
        rw [if_neg]
        · rfl
        · rintro ⟨rfl, hk⟩
          exact absurd hk ‹_›

lemma view_removeAll {P : View → Prop}
    (hremove : ∀ {v : View} {seq key}, P v →
      (∀ i, v.intentAt seq = some i → i.idempotencyKey = key) → P (v.remove seq key))
    (st : Retiring) (h : P st.index.view) (hwork : st.index.Retires work) :
    P (work.foldl Retiring.removeOne st).index.view := by
  induction work generalizing st with
  | nil => exact h
  | cons w work ih =>
    obtain ⟨hw, hrest⟩ := forall_mem_cons.1 hwork
    rw [foldl_cons]
    rcases st.view_removeOne w with heq | heq
    · apply ih
      · rwa [heq]
      · rwa [PendingIndex.Retires, heq]
    · apply ih
      · rw [heq]
        exact hremove h hw
      · rw [PendingIndex.Retires, heq]
        intro w' hw' i hi
        simp only [View.remove, update_apply] at hi
        exact hrest w' hw' i (Option.ite_none_left_eq_some.1 hi).2

lemma PendingIndex.not_lt_incorporatedBelow (idx : PendingIndex) (first : RetireWork)
    (rest : List RetireWork) (hseq : seq ∈ idx.bySeq) :
    ¬encodeSeqKey seq < idx.incorporatedBelow first rest := by
  rw [incorporatedBelow]
  split
  · rw [encodeSeqKey_lt_iff, not_lt]
    exact minKey?_le ‹_› hseq
  · exact absurd hseq (not_mem_of_minKey?_eq_none ‹_›)

def PendingIndex.walked (idx : PendingIndex) (work : List RetireWork) : Retiring :=
  work.foldl Retiring.removeOne ⟨idx, [], []⟩

def StoreCore.settleEpochs (core : StoreCore) (st : Retiring) (wm : Bytes) : StoreCore :=
  { core with
    epochs := { core.epochs with
      live := st.removedEpochs.foldl EpochSet.decrementLive core.epochs.live
      wm := wm } }

lemma StoreCore.Ok.retire {work : List RetireWork} {wm : Bytes} (h : core.Ok d g)
    (hwork : core.pendingIndex.Retires work)
    (hwm : ∀ seq ∈ (core.pendingIndex.walked work).index.bySeq,
      ¬encodeSeqKey seq < core.epochs.wm → ¬encodeSeqKey seq < wm) :
    ({ core with pendingIndex := (core.pendingIndex.walked work).index }.settleEpochs
        (core.pendingIndex.walked work) wm).Ok
      (d.retireBatch (core.pendingIndex.walked work).releasedIdems wm)
      (g.retire (work.map fst)) := by
  have hcounted := removeAll_rule (P := (·.Counted (liveOf core.epochs.live)))
    (fun h he hidx => h.erase he hidx) work ⟨core.pendingIndex, [], []⟩ h.counted
  refine { h with
    wm := rfl, rows := h.rows.retire _, mirrors := ?_, counted := hcounted.decrement,
    live := ?_, backed := fun hu => view_removeAll View.Backed.remove _ (h.backed hu) hwork }
  · intro seq i no he
    have hold := (getElem?_removeAll _ seq).symm.trans he
    obtain ⟨hseq, hmem, hrow, hbelow⟩ :=
      h.mirrors seq i no (Option.ite_none_left_eq_some.1 hold).2
    exact ⟨hseq, hmem, hrow, hwm seq (mem_iff.2 ⟨_, he⟩) hbelow⟩
  · intro seq hseq
    obtain ⟨hseq, hnot⟩ := Finset.mem_sdiff.1 hseq
    rw [mem_toFinset] at hnot
    obtain ⟨e, he⟩ := mem_iff.1 (h.live seq hseq)
    exact mem_iff.2 ⟨e, ((getElem?_removeAll _ seq).trans (if_neg hnot)).trans he⟩

lemma retireLocked_rule {P Q R : Disk → StoreCore → Prop} {C : Disk → Prop}
    (work : List RetireWork) (hnone : work = [] → ∀ d core, P d core → Q d core)
    (hbatch : ∀ d core first rest, work = first :: rest → P d core →
      let st := core.pendingIndex.walked work
      let below := st.index.incorporatedBelow first rest
      let wm := if core.epochs.wm ≠ [] ∧ ¬core.epochs.wm < below then core.epochs.wm else below
      R (d.retireBatch st.releasedIdems wm)
          ({ core with pendingIndex := st.index }.settleEpochs st wm) ∧
        C (d.retireBatch st.releasedIdems wm))
    (hgc : Triple R gcEpochsLocked (fun _ => Q) C) :
    Triple P (retireLocked work) (fun _ => Q) C := by
  cases work with
  | nil => exact ret (hnone rfl)
  | cons first rest =>
    apply bind_mem
    intro core
    let st := core.pendingIndex.walked (first :: rest)
    let below := st.index.incorporatedBelow first rest
    let wm := if core.epochs.wm ≠ [] ∧ ¬core.epochs.wm < below then core.epochs.wm else below
    apply bind (Q := fun _ d v => P d core ∧ v = { core with pendingIndex := st.index })
    · apply Triple.modify
      intro d v h
      obtain ⟨h, rfl⟩ := h
      exact ⟨h, rfl⟩
    · intro _
      apply bind (Q := fun _ d v => R d (v.settleEpochs st wm))
      · apply commit
        intro d v h
        obtain ⟨h, rfl⟩ := h
        exact hbatch d core first rest rfl h
      · intro _
        apply bind (Q := fun _ => R)
        · exact modify fun d v h => h
        · intro _
          exact hgc

lemma retireLocked_triple :
    Triple (fun d core => core.Ok d g ∧ core.pendingIndex.Retires work) (retireLocked work)
      (fun _ d core => core.Ok d (g.retire (work.map Prod.fst)))
      (Disk.Ok · (g.retire (work.map Prod.fst))) := by
  apply retireLocked_rule (R := fun d core => core.Ok d (g.retire (work.map fst)))
  · intro _ d core h
    refine { h.1 with rows := h.1.rows.retire _, live := fun seq hseq => h.1.live seq ?_ }
    exact (Finset.mem_sdiff.1 hseq).1
  · intro d core first rest _ h st below wm
    have hwm : ∀ seq ∈ st.index.bySeq, ¬encodeSeqKey seq < core.epochs.wm →
        ¬encodeSeqKey seq < wm := by
      intro seq hseq hbelow
      by_cases hold : core.epochs.wm ≠ [] ∧ ¬core.epochs.wm < below
      · rw [show wm = core.epochs.wm from if_pos hold]
        exact hbelow
      · rw [show wm = below from if_neg hold]
        exact st.index.not_lt_incorporatedBelow first rest hseq
    have hok := h.1.retire h.2 hwm
    exact ⟨hok, hok.disk⟩
  · exact gcEpochsLocked_triple

def Disk.keptRows (d : Disk) (no : Nat) : List (PerspectiveSeq × DecodedValue) :=
  (d.keyspace no).toList.filter fun row => !isBelow d.incorporatedBelow row.1

lemma Disk.mem_keptRows : row ∈ d.keptRows no ↔
    (d.keyspace no)[row.1]? = some row.2 ∧ ¬encodeSeqKey row.1 < d.incorporatedBelow.getD [] := by
  rw [keptRows, mem_filter, Bool.not_eq_true', isBelow_eq_false_iff]
  apply and_congr_left
  intro _
  exact Std.ExtTreeMap.mem_toList_iff_getElem?_eq_some

lemma Disk.scanEpoch_eq (d : Disk) :
    (d.scanEpoch idx no).index =
        ((d.keptRows no).map fun row => row.2.intent row.1).foldl
          (PendingIndex.insertRecord no) idx ∧
      (d.scanEpoch idx no).kept = (d.keptRows no).length := by
  have hfold : ∀ (rows : List (PerspectiveSeq × DecodedValue)) (acc : ScanAcc),
      let kept := rows.filter fun row => !isBelow d.incorporatedBelow row.1
      (rows.foldl (scanRow d.incorporatedBelow no) acc).index =
          (kept.map fun row => row.2.intent row.1).foldl (insertRecord no) acc.index ∧
        (rows.foldl (scanRow d.incorporatedBelow no) acc).kept = acc.kept + kept.length := by
    intro rows
    induction rows with
    | nil => exact fun acc => ⟨rfl, rfl⟩
    | cons row rows ih =>
      intro acc
      obtain ⟨hindex, hkept⟩ := ih (scanRow d.incorporatedBelow no acc row)
      rw [foldl_cons]
      refine ⟨hindex.trans ?_, hkept.trans ?_⟩
      all_goals
        by_cases hb : isBelow d.incorporatedBelow row.1 = true
      · simp only [scanRow, hb, if_true, filter_cons, Bool.not_true, Bool.false_eq_true, if_false]
      · simp only [scanRow, hb, filter_cons, Bool.not_false, if_true, if_false,
          map_cons, foldl_cons, Bool.false_eq_true]
        rfl
      · simp only [scanRow, hb, if_true, filter_cons, Bool.not_true, Bool.false_eq_true, if_false]
      · simp only [scanRow, hb, filter_cons, Bool.not_false, if_true, if_false,
          length_cons, Bool.false_eq_true]
        omega
  obtain ⟨hindex, hkept⟩ := hfold (d.keyspace no).toList { index := idx }
  exact ⟨hindex, hkept.trans (zero_add _)⟩

lemma PendingIndex.Mirrors.insertRows {nos : List Nat} {wm : Bytes} {is : List WriteIntent}
    (h : idx.Mirrors d nos wm) (hno : no ∈ nos)
    (his : ∀ i ∈ is, (d.keyspace no)[i.perspectiveSeq]? = some i.value ∧
      ¬encodeSeqKey i.perspectiveSeq < wm) :
    (is.foldl (PendingIndex.insertRecord no) idx).Mirrors d nos wm := by
  induction is generalizing idx with
  | nil => exact h
  | cons i is ih =>
    obtain ⟨hi, his⟩ := forall_mem_cons.1 his
    exact ih (h.insertRecord hno hi.1 hi.2) his

structure Scanned (d : Disk) (done : List Nat) (activeNo : Nat) (core : StoreCore) : Prop where
  wm : core.epochs.wm = d.incorporatedBelow.getD []
  active : core.epochs.activeNo = activeNo
  listed : ∀ no ∈ core.epochs.sealed, no ∈ done
  covered : ∀ no ∈ done, no ∈ core.epochs.nos
  mirrors : core.pendingIndex.Mirrors d done (d.incorporatedBelow.getD [])
  counts : ∀ no ∈ done, liveOf core.epochs.live no = (d.keptRows no).length
  pending : ∀ no ∈ done, ∀ row ∈ d.keptRows no, row.1 ∈ core.pendingIndex.bySeq
  backed : ∀ known, UniqueSeqs known →
    (∀ no, ∀ row ∈ d.keptRows no, row.2.intent row.1 ∈ known) →
      core.pendingIndex.view.Backed known

section
variable (d : Disk) (core : StoreCore) (no : Nat)

lemma Disk.wm_scanOne : (d.scanOne core no).epochs.wm = core.epochs.wm := by
  simp only [scanOne]
  split <;> rfl

lemma Disk.activeNo_scanOne : (d.scanOne core no).epochs.activeNo = core.epochs.activeNo := by
  simp only [scanOne]
  split <;> rfl

lemma Disk.sealed_scanOne : (d.scanOne core no).epochs.sealed =
    if no = core.epochs.activeNo then core.epochs.sealed else core.epochs.sealed ++ [no] := by
  simp only [scanOne]
  split <;> rfl

lemma Disk.liveOf_scanOne (e : Nat) : liveOf (d.scanOne core no).epochs.live e =
    if e = no then (d.keptRows no).length else liveOf core.epochs.live e := by
  have hlive : (d.scanOne core no).epochs.live =
      core.epochs.live.insert no (d.keptRows no).length := by
    rw [← (d.scanEpoch_eq).2]
    simp only [scanOne]
    split <;> rfl
  rw [hlive, liveOf_insert]

lemma Disk.pendingIndex_scanOne : (d.scanOne core no).pendingIndex =
    ((d.keptRows no).map fun row => row.2.intent row.1).foldl (PendingIndex.insertRecord no)
      core.pendingIndex :=
  (d.scanEpoch_eq).1

lemma Disk.mem_nos_scanOne (h : e ∈ core.epochs.nos ∨ e = no) :
    e ∈ (d.scanOne core no).epochs.nos := by
  rw [EpochSet.nos, sealed_scanOne, activeNo_scanOne]
  rcases h with he | rfl
  · rcases mem_append.1 he with he | he
    · apply mem_append_left
      split
      · exact he
      · exact mem_append_left _ he
    · exact mem_append_right _ he
  · split
    · exact mem_append_right _ (mem_singleton.2 ‹_›)
    · exact mem_append_left _ (mem_append_right _ (mem_singleton.2 rfl))

end

lemma Scanned.scanOne (h : Scanned d done activeNo core) (no : Nat) :
    Scanned d (done ++ [no]) activeNo (d.scanOne core no) := by
  have hlast (e : Nat) (he : e ∈ done ++ [no]) : e ∈ done ∨ e = no :=
    (mem_append.1 he).imp_right mem_singleton.1
  refine ⟨(d.wm_scanOne core no).trans h.wm, (d.activeNo_scanOne core no).trans h.active,
    ?_, ?_, ?_, ?_, ?_, ?_⟩
  · intro e he
    rw [d.sealed_scanOne] at he
    split at he
    · exact mem_append_left _ (h.listed e he)
    · rcases mem_append.1 he with he | he
      · exact mem_append_left _ (h.listed e he)
      · exact mem_append_right _ he
  · intro e he
    exact d.mem_nos_scanOne core no ((hlast e he).imp_left (h.covered e))
  · rw [d.pendingIndex_scanOne]
    apply PendingIndex.Mirrors.insertRows _ (mem_append_right _ (mem_singleton.2 rfl))
    · intro i hi
      obtain ⟨row, hrow, rfl⟩ := mem_map.1 hi
      exact mem_keptRows.1 hrow
    · intro seq i e he
      obtain ⟨hseq, hmem, hrow, hbelow⟩ := h.mirrors seq i e he
      exact ⟨hseq, mem_append_left _ hmem, hrow, hbelow⟩
  · intro e he
    rw [d.liveOf_scanOne]
    split
    · rw [‹e = no›]
    · exact h.counts e ((hlast e he).resolve_right ‹_›)
  · intro e he row hrow
    rw [d.pendingIndex_scanOne, mem_foldl_insertRecord]
    rcases hlast e he with he | rfl
    · exact .inl (h.pending e he row hrow)
    · exact .inr ⟨_, mem_map_of_mem hrow, rfl⟩
  · intro known hu hrows
    rw [d.pendingIndex_scanOne]
    apply backed_insertRecords (h.backed known hu hrows) hu
    intro i hi
    obtain ⟨row, hrow, rfl⟩ := mem_map.1 hi
    exact hrows no row hrow

lemma foldl_max_mem (n : Nat) : nos.foldl max n ∈ n :: nos := by
  induction nos generalizing n with
  | nil => exact mem_cons_self
  | cons m nos ih =>
    rw [foldl_cons]
    rcases mem_cons.1 (ih (max n m)) with heq | hm
    · rw [heq]
      rcases le_total n m with hle | hle
      · rw [max_eq_right hle]
        exact mem_cons_of_mem _ mem_cons_self
      · rw [max_eq_left hle]
        exact mem_cons_self
    · exact mem_cons_of_mem _ (mem_cons_of_mem _ hm)

lemma Disk.scan_scanned (d : Disk) (rotateThreshold : Nat) (nos : List Nat) :
    Scanned d nos (nos.foldl max 0) (d.scan rotateThreshold nos) := by
  have hfold : ∀ (rest done : List Nat) (core : StoreCore),
      Scanned d done (nos.foldl max 0) core →
        Scanned d (done ++ rest) (nos.foldl max 0) (rest.foldl d.scanOne core) := by
    intro rest
    induction rest with
    | nil =>
      intro done core h
      rw [append_nil]
      exact h
    | cons no rest ih =>
      intro done core h
      have hrest := ih (done ++ [no]) _ (h.scanOne no)
      rwa [append_assoc, singleton_append] at hrest
  apply hfold nos []
  refine ⟨rfl, rfl, ?_, ?_, ?_, ?_, ?_, fun known _ _ => backed_empty⟩
  · exact fun _ h => absurd h not_mem_nil
  · exact fun _ h => absurd h not_mem_nil
  · intro seq i no h
    simp only [Std.ExtTreeMap.getElem?_empty, reduceCtorEq] at h
  · exact fun _ h => absurd h not_mem_nil
  · exact fun _ h => absurd h not_mem_nil

lemma Disk.Ok.scan (h : d.Ok g) (hversion : d.formatVersion = some Intent.formatVersion)
    (hnos : d.epochs = some nos) (rotateThreshold : Nat) :
    (d.scan rotateThreshold nos).Ok d g := by
  have hs := d.scan_scanned rotateThreshold nos
  constructor
  · exact hversion
  · refine ⟨nos, hnos, forall_mem_append.2 ⟨hs.listed, forall_mem_singleton.2 ?_⟩⟩
    rw [hs.active]
    cases nos with
    | nil => exact absurd hnos h.listed
    | cons n nos =>
      rw [foldl_cons, Nat.zero_max]
      exact foldl_max_mem n
  · exact hs.wm
  · exact h.rows
  · intro seq i no he
    obtain ⟨hseq, hmem, hrow, hbelow⟩ := hs.mirrors seq i no he
    rw [hs.wm]
    exact ⟨hseq, hs.covered no hmem, hrow, hbelow⟩
  · refine ⟨fun no => if no ∈ nos then ((d.keptRows no).map fst).toFinset else ∅, ?_, ?_⟩
    · intro seq i no he
      obtain ⟨_, hmem, hrow, hbelow⟩ := hs.mirrors seq i no he
      simp only [if_pos hmem, mem_toFinset]
      exact mem_map.2 ⟨(seq, i.value), mem_keptRows.2 ⟨hrow, hbelow⟩, rfl⟩
    · intro no
      by_cases hmem : no ∈ nos
      · simp only [if_pos hmem, count_nil]
        rw [hs.counts no hmem, add_zero]
        exact (toFinset_card_le _).trans (length_map _).le
      · simp only [if_neg hmem, Finset.card_empty, count_nil]
        exact zero_le _
  · intro seq hseq
    obtain ⟨nos', hnos', no, hno, hmem, hbelow⟩ := h.live seq hseq
    obtain rfl : nos = nos' := Option.some.inj (hnos.symm.trans hnos')
    obtain ⟨v, hv⟩ := mem_iff.1 hmem
    exact hs.pending no hno (seq, v) (mem_keptRows.2 ⟨hv, (isBelow_eq_false_iff _).1 hbelow⟩)
  · intro hu
    apply hs.backed _ hu
    intro no row hrow
    exact (h.rows no row.1 row.2 (mem_keptRows.1 hrow).1).1

lemma readEpochList_triple :
    Triple (fun d _ => d.Ok g ∧ d.formatVersion = some formatVersion) readEpochList
      (fun nos d _ => d.Ok g ∧ d.formatVersion = some formatVersion ∧ d.epochs = some nos)
      (Disk.Ok · g) := by
  apply bind_disk
  intro d₀
  split
  · apply ret
    rintro d v ⟨⟨h, hversion⟩, rfl⟩
    exact ⟨h, hversion, ‹_›⟩
  · apply bind (Q := fun _ d _ => d.Ok g ∧ d.formatVersion = some formatVersion ∧
      d.epochs = some [0])
    · apply commit
      rintro d v ⟨⟨h, hversion⟩, rfl⟩
      have hok : Disk.Ok { d with epochs := some [0] } g := by
        refine { h with listed := nofun, live := ?_ }
        intro seq hseq
        obtain ⟨nos, hnos, _⟩ := h.live seq hseq
        rw [‹d.epochs = none›] at hnos
        cases hnos
      exact ⟨⟨hok, hversion, rfl⟩, hok⟩
    · intro _
      exact ret fun d v h => h

lemma openEpochs_triple (rotateThreshold : Nat) :
    Triple (fun d _ => d.Ok g ∧ d.formatVersion = some formatVersion)
      (openEpochs rotateThreshold) (fun r d core => r = .ok () ∧ core.Ok d g)
      (Disk.Ok · g) := by
  apply bind readEpochList_triple
  intro nos
  apply bind_disk
  intro d₀
  apply Triple.ite
  · rintro rfl d v ⟨⟨h, _, hnos⟩, _⟩
    exact absurd hnos h.listed
  · intro _
    apply bind (Q := fun _ d v => v.Ok d g)
    · apply Triple.modify
      rintro d v ⟨⟨h, hversion, hnos⟩, rfl⟩
      exact h.scan hversion hnos rotateThreshold
    · intro _
      apply bind gcEpochsLocked_triple
      intro _
      exact ret fun d v h => ⟨rfl, h⟩

lemma openWithRotate_triple {rotateThreshold : Nat} :
    Triple (fun d _ => d.Ok g) (openWithRotate rotateThreshold)
      (fun r d core => r = .ok () ∧ core.Ok d g) (Disk.Ok · g) := by
  apply bind_disk
  intro d₀
  split
  · apply Triple.ite
    · rintro rfl
      apply (openEpochs_triple rotateThreshold).weaken
      · rintro d v ⟨h, rfl⟩
        exact ⟨h, ‹_›⟩
      · exact fun _ _ _ h => h
      · exact fun _ h => h
    · rintro hne d v ⟨h, rfl⟩
      rcases h.version with hv | hv
      · cases hv.symm.trans ‹d.formatVersion = some _›
      · exact absurd (Option.some.inj (‹d.formatVersion = some _›.symm.trans hv)) hne
  · apply bind (Q := fun _ d _ => d.Ok g ∧ d.formatVersion = some formatVersion)
    · apply commit
      rintro d v ⟨h, rfl⟩
      have hok : Disk.Ok { d with formatVersion := some formatVersion } g :=
        { h with version := .inr rfl }
      exact ⟨⟨hok, rfl⟩, hok⟩
    · intro _
      exact openEpochs_triple rotateThreshold

end

end Kiseki.Intent
