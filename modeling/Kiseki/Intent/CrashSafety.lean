import Kiseki.Intent.Mirror

namespace Kiseki.Intent
open Crash List Triple PendingIndex Disk

variable {seq : PerspectiveSeq}

lemma isBelow_eq_false_iff (wm : Option Bytes) :
    isBelow wm seq = false ↔ ¬encodeSeqKey seq < wm.getD [] := by
  cases wm with
  | none => exact iff_of_true rfl (not_lt_nil _)
  | some w => exact decide_eq_false_iff_not

structure Disk.Ok (d : Disk) (g : Ghost) : Prop where
  version : d.formatVersion = none ∨ d.formatVersion = some Intent.formatVersion
  listed : d.epochs ≠ some []
  rows : d.RowsRecorded g
  live : ∀ seq ∈ g.live, ∃ nos, d.epochs = some nos ∧
    ∃ no ∈ nos, seq ∈ d.keyspace no ∧ isBelow d.incorporatedBelow seq = false

def EpochSet.nos (ep : EpochSet) : List Nat := ep.sealed ++ [ep.activeNo]

structure StoreCore.Ok (core : StoreCore) (d : Disk) (g : Ghost) : Prop where
  version : d.formatVersion = some formatVersion
  listed : ∃ nos, d.epochs = some nos ∧ ∀ no ∈ core.epochs.nos, no ∈ nos
  wm : core.epochs.wm = d.incorporatedBelow.getD []
  rows : d.RowsRecorded g
  mirrors : core.pendingIndex.Mirrors d core.epochs.nos core.epochs.wm
  counted : core.pendingIndex.Counted (liveOf core.epochs.live) []
  live : ∀ seq ∈ g.live, seq ∈ core.pendingIndex.bySeq
  backed : UniqueSeqs g.recorded → core.pendingIndex.view.Backed g.recorded

section
variable {core : StoreCore} {d : Disk} {g g' : Ghost} {rs : List WriteIntent} {no : Nat}

lemma StoreCore.Ok.disk (h : core.Ok d g) : d.Ok g := by
  obtain ⟨nos, hnos, hsub⟩ := h.listed
  constructor
  · exact .inr h.version
  · rw [hnos]
    rintro ⟨⟩
    exact absurd (hsub core.epochs.activeNo (by simp [EpochSet.nos])) not_mem_nil
  · exact h.rows
  · intro seq hseq
    obtain ⟨⟨i, no⟩, hentry⟩ := SeqMap.mem_iff.1 (h.live seq hseq)
    obtain ⟨_, hno, hrow, hbelow⟩ := h.mirrors seq i no hentry
    refine ⟨nos, hnos, no, hsub no hno, SeqMap.mem_iff.2 ⟨_, hrow⟩, ?_⟩
    rw [isBelow_eq_false_iff, ← h.wm]
    exact hbelow

lemma StoreCore.Ok.setEpochs (h : core.Ok d g) (nos : List Nat)
    (hsub : ∀ no ∈ core.epochs.nos, no ∈ nos) :
    core.Ok { d with epochs := some nos } g :=
  { h with listed := ⟨nos, rfl, hsub⟩ }

lemma StoreCore.Ok.deleteKeyspace (h : core.Ok d g) (hdead : liveOf core.epochs.live no = 0) :
    core.Ok (d.deleteKeyspace no) g := by
  refine { h with rows := h.rows.deleteKeyspace, mirrors := ?_ }
  intro seq i e he
  obtain ⟨hseq, hmem, hrow, hbelow⟩ := h.mirrors seq i e he
  refine ⟨hseq, hmem, ?_, hbelow⟩
  rw [keyspace_deleteKeyspace, if_neg]
  · exact hrow
  · rintro rfl
    exact absurd hdead (Nat.ne_of_gt (h.counted.pos he))

lemma maybeRotateEpoch_triple :
    Triple (fun d core => core.Ok d g) maybeRotateEpoch (fun _ d core => core.Ok d g)
      (Disk.Ok · g) := by
  apply bind_mem
  intro core
  apply Triple.ite
  · intro _
    apply bind (Q := fun _ d v => v = core ∧ v.Ok d g ∧
      ∃ nos, d.epochs = some nos ∧ ∀ no ∈ core.epochs.sealed ++ [core.epochs.activeNo,
        core.epochs.activeNo + 1], no ∈ nos)
    · apply commit
      rintro d v ⟨h, rfl⟩
      have hset := h.setEpochs (v.epochs.sealed ++ [v.epochs.activeNo, v.epochs.activeNo + 1])
        fun no hm => by
          rw [← singleton_append, ← append_assoc]
          exact mem_append_left _ hm
      exact ⟨⟨rfl, hset, _, rfl, fun _ hm => hm⟩, hset.disk⟩
    · intro _
      apply Triple.modify
      rintro d v ⟨rfl, h, hnos⟩
      obtain ⟨nos, heq, hsub⟩ := hnos
      refine { h with listed := ⟨nos, heq, ?_⟩, mirrors := ?_ }
      · intro no hm
        apply hsub
        rw [← singleton_append, ← append_assoc]
        exact hm
      · intro seq i e he
        obtain ⟨hseq, hmem, hrow, hbelow⟩ := h.mirrors seq i e he
        exact ⟨hseq, mem_append_left _ hmem, hrow, hbelow⟩
  · intro _
    apply ret
    rintro d v ⟨h, _⟩
    exact h

def EpochSet.dropDead (ep : EpochSet) : EpochSet :=
  { ep with
    sealed := ep.sealed.filter fun no => !ep.isDead no
    live := (ep.sealed.filter ep.isDead).foldl (fun l no => l.erase no) ep.live }

lemma EpochSet.liveOf_dropDead (ep : EpochSet) :
    liveOf ep.dropDead.live no = liveOf ep.live no :=
  liveOf_foldl_erase ep.live _ (fun _ hm => of_decide_eq_true (mem_filter.1 hm).2)

lemma StoreCore.Ok.dropDead (h : core.Ok d g) :
    { core with epochs := core.epochs.dropDead }.Ok d g := by
  refine { h with listed := ?_, mirrors := ?_, counted := ?_ }
  · obtain ⟨nos, hnos, hsub⟩ := h.listed
    refine ⟨nos, hnos, fun no hm => hsub no ?_⟩
    rcases mem_append.1 hm with hm | hm
    · exact mem_append_left _ (mem_filter.1 hm).1
    · exact mem_append_right _ hm
  · intro seq i e he
    obtain ⟨hseq, hmem, hrow, hbelow⟩ := h.mirrors seq i e he
    refine ⟨hseq, ?_, hrow, hbelow⟩
    have hpos := h.counted.pos he
    rcases mem_append.1 hmem with hm | hm
    · apply mem_append_left
      apply mem_filter.2 ⟨hm, ?_⟩
      have hne : ¬(core.epochs.live.lookup e).getD 0 = 0 := Nat.ne_of_gt hpos
      simp only [EpochSet.isDead, hne, decide_false, Bool.not_false]
    · exact mem_append_right _ hm
  · exact h.counted.mono fun e => (core.epochs.liveOf_dropDead).ge

lemma gcEpochsLocked_triple :
    Triple (fun d core => core.Ok d g) gcEpochsLocked (fun _ d core => core.Ok d g)
      (Disk.Ok · g) := by
  apply bind_mem
  intro core
  let Dropped (d : Disk) (v : StoreCore) := v.Ok d g ∧ v.epochs = core.epochs.dropDead
  apply bind (Q := fun _ d v => Dropped d v)
  · apply Triple.modify
    rintro d v ⟨h, rfl⟩
    exact ⟨h.dropDead, rfl⟩
  · intro _
    apply Triple.ite
    · intro _
      exact ret fun d v h => h.1
    · intro _
      apply bind (Q := fun _ d v => Dropped d v)
      · apply commitAll
        intro f hf d v h
        obtain ⟨no, hm, rfl⟩ := mem_map.1 hf
        have hzero : liveOf v.epochs.live no = 0 := by
          rw [h.2, EpochSet.liveOf_dropDead]
          exact of_decide_eq_true (mem_filter.1 hm).2
        have hdel := h.1.deleteKeyspace hzero
        exact ⟨⟨hdel, h.2⟩, hdel.disk⟩
      · intro _
        apply commit
        rintro d v ⟨h, heq⟩
        have hset := h.setEpochs core.epochs.dropDead.nos fun no hm => heq ▸ hm
        exact ⟨hset, hset.disk⟩

lemma Disk.insertRow_meta (d : Disk) :
    (rs.foldl (Disk.insertRow no) d).formatVersion = d.formatVersion ∧
      (rs.foldl (Disk.insertRow no) d).epochs = d.epochs ∧
      (rs.foldl (Disk.insertRow no) d).incorporatedBelow = d.incorporatedBelow := by
  induction rs generalizing d with
  | nil => exact ⟨rfl, rfl, rfl⟩
  | cons r rs ih => exact ih (d.insertRow no r)

lemma minSeqKey_spec (r : WriteIntent) :
    ∃ x ∈ r :: rs, minSeqKey r rs = encodeSeqKey x.perspectiveSeq ∧
      ∀ y ∈ r :: rs, x.perspectiveSeq ≤ y.perspectiveSeq := by
  induction rs generalizing r with
  | nil => exact ⟨r, mem_cons_self, rfl, fun y hy => (mem_singleton.1 hy ▸ le_rfl)⟩
  | cons r' rs ih =>
    obtain ⟨x, hx, hkey, hmin⟩ := ih r'
    rw [minSeqKey, hkey]
    by_cases hlt : encodeSeqKey x.perspectiveSeq < encodeSeqKey r.perspectiveSeq
    · refine ⟨x, mem_cons_of_mem _ hx, if_pos hlt, ?_⟩
      exact forall_mem_cons.2 ⟨((encodeSeqKey_lt_iff).1 hlt).le, hmin⟩
    · refine ⟨r, mem_cons_self, if_neg hlt, ?_⟩
      rw [encodeSeqKey_lt_iff, not_lt] at hlt
      exact forall_mem_cons.2 ⟨le_rfl, fun y hy => hlt.trans (hmin y hy)⟩

lemma wmLowered_spec (wm : Bytes) (r : WriteIntent) :
    let wm' := (if wm ≠ [] ∧ minSeqKey r rs < wm then some (minSeqKey r rs) else none).getD wm
    (∀ y ∈ r :: rs, ¬encodeSeqKey y.perspectiveSeq < wm') ∧
      ∀ seq, ¬encodeSeqKey seq < wm → ¬encodeSeqKey seq < wm' := by
  obtain ⟨x, _, hkey, hmin⟩ := minSeqKey_spec r
  rw [hkey]
  by_cases hlow : wm ≠ [] ∧ encodeSeqKey x.perspectiveSeq < wm
  · rw [if_pos hlow]
    constructor
    · intro y hy
      rw [Option.getD_some, encodeSeqKey_lt_iff, not_lt]
      exact hmin y hy
    · intro seq hseq hlt
      exact hseq (List.lt_trans hlt hlow.2)
  · rw [if_neg hlow]
    refine ⟨?_, fun seq hseq => hseq⟩
    intro y hy hlt
    have hne : wm ≠ [] := by
      rintro rfl
      exact not_lt_nil _ hlt
    refine hlow ⟨hne, ?_⟩
    rcases (hmin y hy).lt_or_eq with hxy | hxy
    · exact List.lt_trans ((encodeSeqKey_lt_iff).2 hxy) hlt
    · rw [hxy]
      exact hlt

lemma StoreCore.Ok.record (h : core.Ok d g) (wmLowered : Option Bytes)
    (hwm : ∀ seq, ¬encodeSeqKey seq < core.epochs.wm →
      ¬encodeSeqKey seq < wmLowered.getD core.epochs.wm)
    (hrs : ∀ r ∈ rs, r ∈ g'.recorded ∧ r.perspectiveSeq ∈ g'.live ∧
      ¬encodeSeqKey r.perspectiveSeq < wmLowered.getD core.epochs.wm)
    (hgrow : ∀ i ∈ g.recorded, i ∈ g'.recorded) (hrows : d.RowsRecorded g')
    (hlive : ∀ seq ∈ g'.live, seq ∈ core.pendingIndex.bySeq ∨ ∃ r ∈ rs, r.perspectiveSeq = seq) :
    (core.afterRecord rs wmLowered).Ok (d.recordBatch core.epochs.activeNo rs wmLowered) g' := by
  let no := core.epochs.activeNo
  let wm' := wmLowered.getD core.epochs.wm
  have hno : no ∈ core.epochs.nos := mem_append_right _ (mem_singleton.2 rfl)
  have hstart : InStep d core.pendingIndex g' core.epochs.nos wm' (liveOf core.epochs.live) := by
    refine ⟨hrows, ?_, h.counted⟩
    intro seq i e he
    obtain ⟨hseq, hmem, hrow, hbelow⟩ := h.mirrors seq i e he
    exact ⟨hseq, hmem, hrow, hwm seq hbelow⟩
  obtain ⟨hrows', hmirrors', hcounted'⟩ := hstart.insertAll hno hrs
  obtain ⟨hversion, hepochs, hbelow⟩ := insertRow_meta d
  have hkeyspace : ∀ e, (d.recordBatch no rs wmLowered).keyspace e =
      (rs.foldl (insertRow no) d).keyspace e := by
    intro e
    cases wmLowered <;> rfl
  constructor
  · have hv : (d.recordBatch no rs wmLowered).formatVersion =
        (rs.foldl (insertRow no) d).formatVersion := by cases wmLowered <;> rfl
    exact hv.trans (hversion.trans h.version)
  · have he : (d.recordBatch no rs wmLowered).epochs =
        (rs.foldl (insertRow no) d).epochs := by cases wmLowered <;> rfl
    obtain ⟨nos, hnos, hsub⟩ := h.listed
    exact ⟨nos, he.trans (hepochs.trans hnos), hsub⟩
  · cases wmLowered with
    | none => exact h.wm.trans (congrArg (·.getD []) hbelow.symm)
    | some w => rfl
  · intro e seq v hv
    rw [hkeyspace] at hv
    exact hrows' e seq v hv
  · intro seq i e he
    rw [hkeyspace]
    exact hmirrors' seq i e he
  · apply hcounted'.mono
    intro e
    simp only [StoreCore.afterRecord]
    rw [liveOf_insert]
    split
    · rw [‹e = _›]
      exact Nat.le_refl _
    · exact Nat.le_refl _
  · exact fun seq hseq => mem_foldl_insertRecord.2 (hlive seq hseq)
  · intro hu
    exact backed_insertRecords ((h.backed (hu.mono hgrow)).mono hgrow) hu
      fun r hr => (hrs r hr).1

def reportedIn (group : List WriteIntent) (outcomes : List PutOutcome) : List WriteIntent :=
  ((group.zip outcomes).filter fun p => decide (p.2 = .recorded)).map Prod.fst

def reported (groups : List (List WriteIntent)) (perGroup : List (List PutOutcome)) :
    List WriteIntent :=
  (groups.zip perGroup).flatMap fun p => reportedIn p.1 p.2

def Ghost.record (g : Ghost) (is : List WriteIntent) : Ghost :=
  { g with
    recorded := g.recorded ++ is
    live := g.live ∪ (is.map WriteIntent.perspectiveSeq).toFinset }

lemma Ghost.mem_live_record (is : List WriteIntent) :
    seq ∈ (g.record is).live ↔ seq ∈ g.live ∨ ∃ i ∈ is, i.perspectiveSeq = seq := by
  simp only [record, Finset.mem_union, mem_toFinset, mem_map]

lemma Ghost.mem_recorded_record (g : Ghost) (is : List WriteIntent) :
    ∀ i ∈ g.recorded, i ∈ (g.record is).recorded :=
  fun _ hi => mem_append_left _ hi

lemma Disk.RowsRecorded.record (h : d.RowsRecorded g) (is : List WriteIntent) :
    d.RowsRecorded (g.record is) := by
  intro no seq v hv
  obtain ⟨hrec, hseq⟩ := h no seq v hv
  refine ⟨mem_append_left _ hrec, ?_⟩
  rw [Ghost.mem_live_record]
  exact hseq.imp_left .inl

/-- What a pass adds is reported and was not pending. -/
def Classifies (idx : PendingIndex) (reported : List WriteIntent) (c c' : Claims) : Prop :=
  ∃ new, c'.toRecord = c.toRecord ++ new ∧
    (∀ i ∈ new, i.perspectiveSeq ∉ idx.bySeq ∧ i ∈ reported) ∧
      ∀ i ∈ reported, i.perspectiveSeq ∈ idx.bySeq ∨ i ∈ new

lemma Classifies.append {idx : PendingIndex} {c c' c'' : Claims} {is js : List WriteIntent}
    (h : Classifies idx is c c') (h' : Classifies idx js c' c'') :
    Classifies idx (is ++ js) c c'' := by
  obtain ⟨new, hnew, hin, hrep⟩ := h
  obtain ⟨new', hnew', hin', hrep'⟩ := h'
  refine ⟨new ++ new', by rw [hnew', hnew, append_assoc], ?_, ?_⟩
  · intro i hi
    rcases mem_append.1 hi with hi | hi
    · exact ⟨(hin i hi).1, mem_append_left _ (hin i hi).2⟩
    · exact ⟨(hin' i hi).1, mem_append_right _ (hin' i hi).2⟩
  · intro i hi
    rcases mem_append.1 hi with hi | hi
    · exact (hrep i hi).imp_right (mem_append_left _)
    · exact (hrep' i hi).imp_right (mem_append_right _)

variable {idx : PendingIndex}

lemma classifies_none (c : Claims) : Classifies idx [] c c :=
  ⟨[], (append_nil _).symm, fun _ h => absurd h not_mem_nil,
    fun _ h => absurd h not_mem_nil⟩

inductive Classified (idx : PendingIndex) (c : Claims) (r : WriteIntent) :
    PutOutcome × Claims → Prop where
  | pending (hseq : r.perspectiveSeq ∈ idx.bySeq) : Classified idx c r (.recorded, c)
  | duplicate (hkey : r.idempotencyKey = some key)
      (hfound : (idx.byIdem.lookup key).or (c.claimed.lookup key) = some existing) :
      Classified idx c r (.duplicate existing, c)
  | fresh (hseq : r.perspectiveSeq ∉ idx.bySeq)
      (hfree : ∀ key, r.idempotencyKey = some key →
        idx.byIdem.lookup key = none ∧ c.claimed.lookup key = none)
      (hclaimed : ∀ key, claimed.lookup key =
        if r.idempotencyKey = some key then some r.perspectiveSeq else c.claimed.lookup key) :
      Classified idx c r (.recorded, ⟨claimed, c.toRecord ++ [r]⟩)

lemma classified (idx : PendingIndex) {c : Claims} {r : WriteIntent} :
    Classified idx c r (idx.classifyOne c r) := by
  rw [classifyOne]
  split
  · exact .pending ‹_›
  rename_i hseq
  split
  · rename_i hkey
    exact .fresh hseq (fun key h => nomatch hkey.symm.trans h) fun key => by rw [hkey]; rfl
  rename_i key hkey
  split
  · exact .duplicate hkey ‹_›
  · rename_i hfound
    apply Classified.fresh hseq
    · intro k hk
      rw [← Option.some.inj (hkey.symm.trans hk)]
      exact Option.or_eq_none_iff.1 hfound
    · intro k
      rw [hkey, Maps.lookup_insert_some]

lemma Classified.spec {idx : PendingIndex} {res : PutOutcome × Claims}
    (h : Classified idx c r res) : Classifies idx (reportedIn [r] [res.1]) c res.2 := by
  cases h with
  | pending hseq =>
    refine ⟨[], (append_nil _).symm, fun _ h => absurd h not_mem_nil, ?_⟩
    intro i hi
    rw [mem_singleton.1 hi]
    exact .inl hseq
  | duplicate => exact classifies_none c
  | fresh hseq =>
    refine ⟨[r], rfl, ?_, fun i hi => .inr hi⟩
    intro i hi
    rw [mem_singleton.1 hi]
    exact ⟨hseq, mem_singleton_self r⟩

variable {group : List WriteIntent}

lemma reportedIn_cons (r : WriteIntent) (outcome : PutOutcome)
    (outcomes : List PutOutcome) : reportedIn (r :: group) (outcome :: outcomes) =
      reportedIn [r] [outcome] ++ reportedIn group outcomes := by
  simp only [reportedIn, zip_cons_cons, zip_nil_left, filter_cons, filter_nil]
  split <;> rfl

lemma classifyGroup_spec (c : Claims) :
    Classifies idx (reportedIn group (idx.classifyGroup group c).1) c
      (idx.classifyGroup group c).2 := by
  induction group generalizing c with
  | nil => exact classifies_none c
  | cons r group ih =>
    rw [classifyGroup, reportedIn_cons]
    exact (classified idx).spec.append (ih _)

lemma classifyGroups_spec {groups : List (List WriteIntent)} (c : Claims) :
    Classifies idx (reported groups (idx.classifyGroups groups c).1) c
      (idx.classifyGroups groups c).2 := by
  induction groups generalizing c with
  | nil => exact classifies_none c
  | cons group groups ih =>
    simp only [classifyGroups, reported, zip_cons_cons, flatMap_cons]
    exact (classifyGroup_spec c).append (ih _)

lemma commitGroupsLocked_rule {P : Disk → StoreCore → Prop}
    {Q R : List (List PutOutcome) → Disk → StoreCore → Prop} {C : Disk → Prop}
    (groups : List (List WriteIntent))
    (hnone : ∀ d core, P d core → (core.pendingIndex.classifyGroups groups {}).2.toRecord = [] →
      Q (core.pendingIndex.classifyGroups groups {}).1 d core)
    (hbatch : ∀ d core r rs, P d core →
      (core.pendingIndex.classifyGroups groups {}).2.toRecord = r :: rs →
      let low := if core.epochs.wm ≠ [] ∧ minSeqKey r rs < core.epochs.wm
        then some (minSeqKey r rs) else none
      R (core.pendingIndex.classifyGroups groups {}).1
          (d.recordBatch core.epochs.activeNo (r :: rs) low) (core.afterRecord (r :: rs) low) ∧
        C (d.recordBatch core.epochs.activeNo (r :: rs) low))
    (hrotate : ∀ perGroup, Triple (R perGroup) maybeRotateEpoch (fun _ => Q perGroup) C) :
    Triple P (commitGroupsLocked groups) Q C := by
  apply bind_mem
  intro core
  have hnone' := fun d => hnone d core
  have hbatch' := fun d => hbatch d core
  revert hnone' hbatch'
  obtain ⟨perGroup, claims⟩ := core.pendingIndex.classifyGroups groups {}
  intro hnone' hbatch'
  dsimp only at hnone' hbatch' ⊢
  cases hrecord : claims.toRecord with
  | nil =>
    apply ret
    rintro d v ⟨h, rfl⟩
    exact hnone' d h hrecord
  | cons r rs =>
    let low := if core.epochs.wm ≠ [] ∧ minSeqKey r rs < core.epochs.wm
      then some (minSeqKey r rs) else none
    apply bind (Q := fun _ d v => R perGroup d (v.afterRecord (r :: rs) low))
    · apply commit
      rintro d v ⟨h, rfl⟩
      exact hbatch' d r rs h hrecord
    · intro _
      apply bind (Q := fun _ => R perGroup)
      · exact modify fun d v h => h
      · intro _
        apply bind (hrotate perGroup)
        intro _
        exact ret fun d v h => h

lemma commitGroupsLocked_triple {core₀ : StoreCore}
    {groups : List (List WriteIntent)} :
    let perGroup := (core₀.pendingIndex.classifyGroups groups {}).1
    Triple (fun d core => core.Ok d g ∧ core = core₀) (commitGroupsLocked groups)
      (fun outcomes d core => outcomes = perGroup ∧ core.Ok d (g.record (reported groups perGroup)))
      (Disk.Ok · (g.record (reported groups perGroup))) := by
  intro perGroup
  let g' := g.record (reported groups perGroup)
  obtain ⟨new, hnew, hin, hrep⟩ := classifyGroups_spec {}
  have hlive : ∀ {d : Disk}, core₀.Ok d g → ∀ seq ∈ g'.live,
      seq ∈ core₀.pendingIndex.bySeq ∨ ∃ r ∈ new, r.perspectiveSeq = seq := by
    intro d h seq hseq
    rw [Ghost.mem_live_record] at hseq
    rcases hseq with hseq | ⟨i, hi, rfl⟩
    · exact .inl (h.live seq hseq)
    · exact (hrep i hi).imp_right fun hi => ⟨i, hi, rfl⟩
  apply commitGroupsLocked_rule (R := fun outcomes d core => outcomes = perGroup ∧ core.Ok d g')
  · rintro d core ⟨h, rfl⟩ hrecord
    obtain rfl : new = [] := hnew.symm.trans hrecord
    refine ⟨rfl, { h with rows := h.rows.record _, live := ?_, backed := ?_ }⟩
    · intro seq hseq
      rcases hlive h seq hseq with hseq | ⟨r, hr, _⟩
      · exact hseq
      · exact absurd hr not_mem_nil
    · intro hu
      have hgrow := g.mem_recorded_record (reported groups perGroup)
      exact (h.backed (hu.mono hgrow)).mono hgrow
  · rintro d core r rs ⟨h, rfl⟩ hrecord low
    obtain rfl : new = r :: rs := hnew.symm.trans hrecord
    obtain ⟨hbelow, hwm⟩ := wmLowered_spec core.epochs.wm r
    have hrs : ∀ i ∈ r :: rs, i ∈ g'.recorded ∧ i.perspectiveSeq ∈ g'.live ∧
        ¬encodeSeqKey i.perspectiveSeq < low.getD core.epochs.wm := by
      intro i hi
      refine ⟨mem_append_right _ (hin i hi).2, ?_, hbelow i hi⟩
      rw [Ghost.mem_live_record]
      exact .inr ⟨i, (hin i hi).2, rfl⟩
    have hok := h.record low hwm hrs (g.mem_recorded_record _) (h.rows.record _) (hlive h)
    exact ⟨⟨rfl, hok⟩, hok.disk⟩
  · intro outcomes
    apply of_pure fun d v h => h.1
    rintro rfl
    exact (maybeRotateEpoch_triple).weaken (fun _ _ h => h.2) (fun _ _ _ h => ⟨rfl, h⟩)
      fun _ h => h

end

end Kiseki.Intent
