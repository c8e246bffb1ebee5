import Kiseki.Intent.CrashSafety

namespace Kiseki.Intent
open Crash Finmap List Nat PendingIndex

def commitEach : List (List WriteIntent) → Prog Disk StoreCore (List (List PutOutcome))
  | [] => pure []
  | group :: groups => do
    let outcomes ← commitGroupsLocked [group]
    let perGroup ← commitEach groups
    pure (outcomes ++ perGroup)

/-- Not pending, and its key neither pending nor claimed before it. -/
def PendingIndex.isNew (idx : PendingIndex) (before : List WriteIntent) (r : WriteIntent) : Bool :=
  decide (r.perspectiveSeq ∉ idx.bySeq) &&
    match r.idempotencyKey with
    | none => true
    | some key => decide (key ∉ idx.byIdem) && before.all fun r' =>
        decide (r'.perspectiveSeq ∈ idx.bySeq) || decide (r'.idempotencyKey ≠ some key)

def PendingIndex.newIntents (idx : PendingIndex) :
    List WriteIntent → List WriteIntent → List WriteIntent
  | _, [] => []
  | before, r :: rs =>
    if idx.isNew before r then r :: idx.newIntents (before ++ [r]) rs
    else idx.newIntents (before ++ [r]) rs

def lowerWm (wm : Bytes) (rs : List WriteIntent) : Bytes :=
  rs.foldl (fun wm r =>
    if wm ≠ [] ∧ encodeSeqKey r.perspectiveSeq < wm then encodeSeqKey r.perspectiveSeq else wm) wm

def StoreCore.rotated (core : StoreCore) : StoreCore :=
  if core.epochs.activeInserts ≥ core.epochs.rotateThreshold then
    { core with
      epochs := { core.epochs with
        sealed := core.epochs.sealed ++ [core.epochs.activeNo]
        activeNo := core.epochs.activeNo + 1
        activeInserts := 0 } }
  else core

def StoreCore.record (core : StoreCore) : List WriteIntent → StoreCore
  | [] => core
  | r :: rs =>
    let wmLowered := if core.epochs.wm ≠ [] ∧ minSeqKey r rs < core.epochs.wm
      then some (minSeqKey r rs) else none
    (core.afterRecord (r :: rs) wmLowered).rotated

def StoreCore.recordsOf (core : StoreCore) (group : List WriteIntent) : List WriteIntent :=
  (core.pendingIndex.classifyGroup group {}).2.toRecord

def StoreCore.afterEach (core : StoreCore) : List (List WriteIntent) → StoreCore
  | [] => core
  | group :: groups => (core.record (core.recordsOf group)).afterEach groups

def StoreCore.outcomesEach (core : StoreCore) : List (List WriteIntent) → List (List PutOutcome)
  | [] => []
  | group :: groups => (core.pendingIndex.classifyGroup group {}).1 ::
      (core.record (core.recordsOf group)).outcomesEach groups

def StoreCore.recordsEach (core : StoreCore) : List (List WriteIntent) → List (List WriteIntent)
  | [] => []
  | group :: groups => core.recordsOf group ::
      (core.record (core.recordsOf group)).recordsEach groups

def PendingIndex.unpended (idx : PendingIndex) (group : List WriteIntent)
    (outcomes : List PutOutcome) : List WriteIntent :=
  (reportedIn group outcomes).filter fun r => decide (r.perspectiveSeq ∉ idx.bySeq)

def StoreCore.countEach (no : Nat) (core : StoreCore) : List (List WriteIntent) → Nat
  | [] => 0
  | group :: groups =>
    (if no = core.epochs.activeNo then (core.recordsOf group).length else 0) +
      (core.record (core.recordsOf group)).countEach no groups

section
variable {idx : PendingIndex} {core core' : StoreCore} {c : Claims} {rs rs' : List WriteIntent}

lemma maybeRotateEpoch_mem (d : Disk) : (maybeRotateEpoch d core).mem = core.rotated := by
  change ((if core.epochs.activeInserts ≥ core.epochs.rotateThreshold then _ else _ :
    Prog Disk StoreCore Unit) d core).mem = _
  rw [StoreCore.rotated]
  split
  · rfl
  · rfl

section
variable (groups : List (List WriteIntent)) (d : Disk) (core : StoreCore)

lemma commitGroupsLocked_result :
    (commitGroupsLocked groups d core).value = (core.pendingIndex.classifyGroups groups {}).1 ∧
      (commitGroupsLocked groups d core).mem =
        core.record (core.pendingIndex.classifyGroups groups {}).2.toRecord := by
  let perGroup := (core.pendingIndex.classifyGroups groups {}).1
  let core' := core.record (core.pendingIndex.classifyGroups groups {}).2.toRecord
  have htriple : Triple (fun _ v => v = core) (commitGroupsLocked groups)
      (fun outcomes _ v => outcomes = perGroup ∧ v = core') fun _ => True := by
    apply commitGroupsLocked_rule (R := fun outcomes _ v => outcomes = perGroup ∧ v.rotated = core')
    · intro d v h hnone
      subst h
      exact ⟨rfl, (congrArg v.record hnone).symm⟩
    · intro d v r rs h hsome low
      subst h
      exact ⟨⟨rfl, (congrArg v.record hsome).symm⟩, trivial⟩
    · intro outcomes d v h
      exact ⟨fun _ _ => trivial, h.1, (maybeRotateEpoch_mem d).trans h.2⟩
  exact (htriple d core rfl).2

lemma commitEach_result :
    (commitEach groups d core).value = core.outcomesEach groups ∧
      (commitEach groups d core).mem = core.afterEach groups := by
  induction groups generalizing d core with
  | nil => exact ⟨rfl, rfl⟩
  | cons group groups ih =>
    obtain ⟨hvalue, hmem⟩ := commitGroupsLocked_result [group] d core
    obtain ⟨hvalues, hmems⟩ := ih (commitGroupsLocked [group] d core).disk
      (commitGroupsLocked [group] d core).mem
    rw [hmem] at hvalues hmems
    refine ⟨?_, ?_⟩
    · change (commitGroupsLocked [group] d core).value ++ (commitEach groups _
        (commitGroupsLocked [group] d core).mem).value = _
      rw [hmem, hvalue, hvalues]
      rfl
    · change (commitEach groups _ (commitGroupsLocked [group] d core).mem).mem = _
      rw [hmem, hmems]
      rfl

end

lemma encodeSeqKey_ne_nil (seq : PerspectiveSeq) : encodeSeqKey seq ≠ [] :=
  append_ne_nil_of_left_ne_nil (ne_nil_of_length_pos (by
    rw [BigEndian.length_bytes]
    exact zero_lt_succ 7)) _

variable {r : WriteIntent}

lemma lowerWm_cons (wm : Bytes) :
    lowerWm wm (r :: rs) =
      if wm ≠ [] ∧ minSeqKey r rs < wm then minSeqKey r rs else wm := by
  induction rs generalizing wm r with
  | nil => rfl
  | cons r' rs ih =>
    have hstep : lowerWm wm (r :: r' :: rs) = lowerWm (if wm ≠ [] ∧
        encodeSeqKey r.perspectiveSeq < wm then encodeSeqKey r.perspectiveSeq else wm)
          (r' :: rs) := rfl
    rw [hstep, minSeqKey]
    by_cases hr : wm ≠ [] ∧ encodeSeqKey r.perspectiveSeq < wm
    · have hne := encodeSeqKey_ne_nil r.perspectiveSeq
      rw [if_pos hr, ih]
      by_cases hless : minSeqKey r' rs < encodeSeqKey r.perspectiveSeq
      · have hlow : wm ≠ [] ∧ minSeqKey r' rs < wm := ⟨hr.1, List.lt_trans hless hr.2⟩
        simp only [if_pos hless, if_pos hlow, if_pos (And.intro hne hless)]
      · have hkeep : ¬(encodeSeqKey r.perspectiveSeq ≠ [] ∧
            minSeqKey r' rs < encodeSeqKey r.perspectiveSeq) := fun h => hless h.2
        simp only [if_neg hless, if_pos hr, if_neg hkeep]
    · rw [if_neg hr, ih]
      by_cases hless : minSeqKey r' rs < encodeSeqKey r.perspectiveSeq
      · simp only [if_pos hless]
      · have hkeep : ¬(wm ≠ [] ∧ minSeqKey r' rs < wm) := by
          rintro ⟨hne, hlow⟩
          have hle := List.not_lt.1 fun h => hr ⟨hne, h⟩
          exact List.not_lt.2 (List.le_trans hle (List.not_lt.1 hless)) hlow
        simp only [if_neg hless, if_neg hr, if_neg hkeep]

def addLive (live : Finmap fun _ : Nat => Nat) (no n : Nat) : Finmap fun _ : Nat => Nat :=
  if n = 0 then live else live.insert no (liveOf live no + n)

lemma liveOf_addLive (live : Finmap fun _ : Nat => Nat) (no n e : Nat) :
    liveOf (addLive live no n) e = liveOf live e + if e = no then n else 0 := by
  rw [addLive]
  split
  · subst n
    rw [ite_self, add_zero]
  · rw [liveOf_insert]
    split
    · subst e
      rfl
    · rfl

lemma addLive_addLive (live : Finmap fun _ : Nat => Nat) (no n n' : Nat) :
    addLive (addLive live no n) no n' = addLive live no (n + n') := by
  by_cases hn' : n' = 0
  · rw [addLive, if_pos hn', hn', add_zero]
  by_cases hn : n = 0
  · have hnone : addLive live no n = live := if_pos hn
    rw [hnone, hn, zero_add]
  · have hlive : liveOf (addLive live no n) no = liveOf live no + n := by
      rw [liveOf_addLive, if_pos rfl]
    have hsum : n + n' ≠ 0 := by omega
    rw [addLive, if_neg hn', hlive, addLive, if_neg hn, addLive, if_neg hsum, add_assoc,
      insert_insert]

section
variable (core : StoreCore)

lemma StoreCore.rotated_eq :
    core.rotated.pendingIndex = core.pendingIndex ∧ core.rotated.epochs.live = core.epochs.live ∧
      core.rotated.epochs.wm = core.epochs.wm ∧
      core.rotated.epochs.rotateThreshold = core.epochs.rotateThreshold := by
  rw [rotated]
  split
  · exact ⟨rfl, rfl, rfl, rfl⟩
  · exact ⟨rfl, rfl, rfl, rfl⟩

lemma StoreCore.record_eq (rs : List WriteIntent) :
    (core.record rs).pendingIndex =
        rs.foldl (PendingIndex.insertRecord core.epochs.activeNo) core.pendingIndex ∧
      (core.record rs).epochs.live =
        addLive core.epochs.live core.epochs.activeNo rs.length ∧
      (core.record rs).epochs.wm = lowerWm core.epochs.wm rs ∧
      (core.record rs).epochs.rotateThreshold = core.epochs.rotateThreshold := by
  cases rs with
  | nil => exact ⟨rfl, rfl, rfl, rfl⟩
  | cons r rs =>
    obtain ⟨hindex, hlive, hwm, hthreshold⟩ := (core.afterRecord (r :: rs)
      (if core.epochs.wm ≠ [] ∧ minSeqKey r rs < core.epochs.wm then some (minSeqKey r rs)
        else none)).rotated_eq
    refine ⟨hindex, hlive.trans ?_, hwm.trans ?_, hthreshold⟩
    · exact (if_neg (succ_ne_zero rs.length)).symm
    · rw [lowerWm_cons]
      change Option.getD (if _ then _ else _) _ = _
      split
      · rfl
      · rfl

lemma StoreCore.rotated_active :
    core.rotated.epochs.activeNo =
        (if core.epochs.rotateThreshold ≤ core.epochs.activeInserts then core.epochs.activeNo + 1
          else core.epochs.activeNo) ∧
      (¬core.epochs.rotateThreshold ≤ core.epochs.activeInserts →
        core.rotated.epochs.activeInserts = core.epochs.activeInserts) := by
  by_cases hfull : core.epochs.rotateThreshold ≤ core.epochs.activeInserts
  · rw [rotated, if_pos hfull, if_pos hfull]
    exact ⟨rfl, fun h => absurd hfull h⟩
  · rw [rotated, if_neg hfull, if_neg hfull]
    exact ⟨rfl, fun _ => rfl⟩

lemma StoreCore.record_active (hrs : rs ≠ []) :
    (core.record rs).epochs.activeNo =
        (if core.epochs.rotateThreshold ≤ core.epochs.activeInserts + rs.length then
          core.epochs.activeNo + 1 else core.epochs.activeNo) ∧
      (¬core.epochs.rotateThreshold ≤ core.epochs.activeInserts + rs.length →
        (core.record rs).epochs.activeInserts = core.epochs.activeInserts + rs.length) := by
  cases rs with
  | nil => exact absurd rfl hrs
  | cons r rs => exact StoreCore.rotated_active _

end

structure StoreCore.Follows (core core' : StoreCore) (rs : List WriteIntent) : Prop where
  index : core'.pendingIndex =
    rs.foldl (PendingIndex.insertRecord core.epochs.activeNo) core.pendingIndex
  live : core'.epochs.live = addLive core.epochs.live core.epochs.activeNo rs.length
  wm : core'.epochs.wm = lowerWm core.epochs.wm rs

structure StoreCore.Unrotated (core core' : StoreCore) (rs : List WriteIntent) : Prop where
  activeNo : core'.epochs.activeNo = core.epochs.activeNo
  activeInserts : core'.epochs.activeInserts = core.epochs.activeInserts + rs.length
  rotateThreshold : core'.epochs.rotateThreshold = core.epochs.rotateThreshold

lemma StoreCore.Follows.record (h : core.Follows core' rs)
    (hactive : rs' ≠ [] → core'.epochs.activeNo = core.epochs.activeNo) :
    core.Follows (core'.record rs') (rs ++ rs') := by
  by_cases hrs : rs' = []
  · subst hrs
    rw [append_nil]
    exact h
  obtain ⟨hindex, hlive, hwm, _⟩ := core'.record_eq rs'
  refine ⟨?_, ?_, ?_⟩
  · rw [hindex, h.index, hactive hrs, foldl_append]
  · rw [hlive, h.live, hactive hrs, addLive_addLive, length_append]
  · rw [hwm, h.wm, lowerWm, lowerWm, lowerWm, foldl_append]

lemma StoreCore.Unrotated.record (h : core.Unrotated core' rs) (hroom : rs' ≠ [] →
      core.epochs.activeInserts + (rs ++ rs').length < core.epochs.rotateThreshold) :
    core.Unrotated (core'.record rs') (rs ++ rs') := by
  by_cases hrs : rs' = []
  · subst hrs
    rw [append_nil]
    exact h
  obtain ⟨hno, hinserts⟩ := core'.record_active hrs
  have hlength := hroom hrs
  rw [length_append] at hlength
  have hless : ¬core'.epochs.rotateThreshold ≤ core'.epochs.activeInserts + rs'.length := by
    rw [h.rotateThreshold, h.activeInserts]
    omega
  rw [if_neg hless] at hno
  refine ⟨hno.trans h.activeNo, ?_, (core'.record_eq rs').2.2.2.trans h.rotateThreshold⟩
  rw [hinserts hless, h.activeInserts, length_append, add_assoc]

lemma newIntents_append (before rs rs' : List WriteIntent) :
    idx.newIntents before (rs ++ rs') =
      idx.newIntents before rs ++ idx.newIntents (before ++ rs) rs' := by
  induction rs generalizing before with
  | nil => rw [nil_append, append_nil, newIntents, nil_append]
  | cons r rs ih =>
    rw [cons_append, newIntents, newIntents, ih, append_assoc]
    split
    · rfl
    · rfl

/-- What the first pass has collected: new intents and claimed keys. -/
structure Claims.Of (c : Claims) (idx : PendingIndex) (before : List WriteIntent) : Prop where
  toRecord : c.toRecord = idx.newIntents [] before
  claimed : ∀ key ∉ idx.byIdem, key ∈ c.claimed ↔
    ∃ r ∈ before, r.perspectiveSeq ∉ idx.bySeq ∧ r.idempotencyKey = some key
  keyed : ∀ no key, (c.toRecord.foldl (PendingIndex.insertRecord no) idx).byIdem.lookup key =
    (idx.byIdem.lookup key).or (c.claimed.lookup key)

lemma claims_of_nil : Claims.Of {} idx [] where
  toRecord := rfl
  claimed := fun key _ =>
    iff_of_false (notMem_empty) fun ⟨_, hr, _⟩ => absurd hr not_mem_nil
  keyed := fun no key => by
    rw [lookup_empty, Option.or_none]
    rfl

lemma notMem_of_newIntents {before : List WriteIntent} (hr : r ∈ idx.newIntents before rs) :
    r.perspectiveSeq ∉ idx.bySeq := by
  induction rs generalizing before with
  | nil => exact absurd hr not_mem_nil
  | cons r' rs ih =>
    rw [newIntents] at hr
    split at hr
    · rename_i hnew
      rcases mem_cons.1 hr with rfl | hr
      · exact of_decide_eq_true (Bool.and_eq_true_iff.1 hnew).1
      · exact ih hr
    · exact ih hr

section
variable (idx : PendingIndex) (before : List WriteIntent) (r : WriteIntent)

lemma newIntents_snoc :
    idx.newIntents [] (before ++ [r]) =
      idx.newIntents [] before ++ if idx.isNew before r then [r] else [] := by
  rw [newIntents_append, nil_append]
  congr 1

lemma isNew_eq :
    idx.isNew before r = true ↔ r.perspectiveSeq ∉ idx.bySeq ∧
      ∀ key, r.idempotencyKey = some key → key ∉ idx.byIdem ∧
        ¬∃ r' ∈ before, r'.perspectiveSeq ∉ idx.bySeq ∧ r'.idempotencyKey = some key := by
  rw [isNew, Bool.and_eq_true, decide_eq_true_eq]
  refine and_congr_right fun _ => ?_
  cases r.idempotencyKey with
  | none => exact iff_of_true rfl nofun
  | some key =>
    simp only [Bool.and_eq_true, decide_eq_true_eq, all_eq_true, Bool.or_eq_true]
    constructor
    · rintro ⟨hkey, hall⟩ key' heq
      cases heq
      refine ⟨hkey, ?_⟩
      rintro ⟨r', hr', hseq, hidem⟩
      exact (hall r' hr').elim hseq fun h => h hidem
    · intro hall
      obtain ⟨hkey, hnone⟩ := hall key rfl
      refine ⟨hkey, fun r' hr' => ?_⟩
      by_cases hseq : r'.perspectiveSeq ∈ idx.bySeq
      · exact .inl hseq
      · exact .inr fun hidem => hnone ⟨r', hr', hseq, hidem⟩

end

lemma exists_mem_snoc {P : WriteIntent → Prop} :
    (∃ r' ∈ before ++ [r], P r') ↔ (∃ r' ∈ before, P r') ∨ P r := by
  simp only [List.mem_append, List.mem_singleton, or_and_right, exists_or, exists_eq_left]

lemma Claims.Of.isNew_iff (h : c.Of idx before) :
    idx.isNew before r = true ↔ r.perspectiveSeq ∉ idx.bySeq ∧
      ∀ key, r.idempotencyKey = some key → key ∉ idx.byIdem ∧ key ∉ c.claimed := by
  rw [isNew_eq]
  refine and_congr_right fun _ => forall_congr' fun key => imp_congr_right fun _ => ?_
  exact and_congr_right fun hkey => not_congr (h.claimed key hkey).symm

lemma Claims.Of.classifyOne {res : PutOutcome × Claims} (h : c.Of idx before)
    (hone : Classified idx c r res) : res.2.Of idx (before ++ [r]) := by
  have hskip (hnew : ¬idx.isNew before r = true) : c.toRecord =
      idx.newIntents [] (before ++ [r]) := by
    rw [newIntents_snoc, if_neg hnew, append_nil, h.toRecord]
  rw [h.isNew_iff] at hskip
  cases hone with
  | pending hseq =>
    refine ⟨hskip fun hnew => hnew.1 hseq, fun key hkey => ?_, h.keyed⟩
    rw [exists_mem_snoc, h.claimed key hkey, or_iff_left fun hr => hr.1 hseq]
  | @duplicate key existing hidem hfound =>
    have hin : key ∉ idx.byIdem → key ∈ c.claimed := fun hkey => by
      rw [lookup_eq_none.2 hkey, Option.none_or] at hfound
      exact mem_of_lookup_eq_some hfound
    refine ⟨hskip fun hnew => ?_, fun k hk => ?_, h.keyed⟩
    · exact (hnew.2 key hidem).2 (hin (hnew.2 key hidem).1)
    · rw [exists_mem_snoc, h.claimed k hk, or_iff_left_of_imp]
      rintro ⟨_, hr⟩
      obtain rfl := Option.some.inj (hidem.symm.trans hr)
      exact (h.claimed key hk).1 (hin hk)
  | @fresh claimed hseq hfree hclaimed =>
    have hnew := (h.isNew_iff).2 ⟨hseq, fun key hkey =>
      (hfree key hkey).imp lookup_eq_none.1 lookup_eq_none.1⟩
    refine ⟨?_, fun key hkey => ?_, fun no key => ?_⟩
    · rw [newIntents_snoc, if_pos hnew, h.toRecord]
    · rw [exists_mem_snoc, ← h.claimed key hkey, ← lookup_isSome, hclaimed]
      split
      · exact iff_of_true rfl (.inr ⟨hseq, ‹_›⟩)
      · rw [lookup_isSome, or_iff_left fun hr => ‹¬_› hr.2]
    · rw [foldl_append, foldl_cons, foldl_nil, byIdem_insertRecord, h.keyed, hclaimed]
      split
      · rw [(hfree key ‹_›).1, Option.none_or]
      · rfl

lemma Claims.Of.classifyGroup (h : c.Of idx before) (group : List WriteIntent) :
    (idx.classifyGroup group c).2.Of idx (before ++ group) := by
  induction group generalizing c before with
  | nil =>
    rw [append_nil]
    exact h
  | cons r group ih =>
    rw [append_cons]
    exact ih (h.classifyOne (classified idx))

lemma Claims.Of.classifyGroups (h : c.Of idx before) (groups : List (List WriteIntent)) :
    (idx.classifyGroups groups c).2.Of idx (before ++ groups.flatten) := by
  induction groups generalizing c before with
  | nil =>
    rw [flatten_nil, append_nil]
    exact h
  | cons group groups ih =>
    rw [flatten_cons, ← append_assoc]
    exact ih (h.classifyGroup group)

lemma classifyGroups_append (pre post : List (List WriteIntent)) :
    idx.classifyGroups (pre ++ post) c =
      ((idx.classifyGroups pre c).1 ++
          (idx.classifyGroups post (idx.classifyGroups pre c).2).1,
        (idx.classifyGroups post (idx.classifyGroups pre c).2).2) := by
  induction pre generalizing c with
  | nil => rfl
  | cons group pre ih =>
    simp only [cons_append, classifyGroups, ih]

structure Claims.After (first c c' : Claims) : Prop where
  claimed : ∀ key, c.claimed.lookup key =
    (first.claimed.lookup key).or (c'.claimed.lookup key)
  toRecord : c.toRecord = first.toRecord ++ c'.toRecord

lemma Claims.After.classifyOne {first c' : Claims} {idx' : PendingIndex}
    (h : Claims.After first c c')
    (hidem : ∀ key, idx'.byIdem.lookup key =
      (idx.byIdem.lookup key).or (first.claimed.lookup key))
    {r : WriteIntent} (hseq : r.perspectiveSeq ∈ idx'.bySeq ↔ r.perspectiveSeq ∈ idx.bySeq) :
    (idx'.classifyOne c' r).1 = (idx.classifyOne c r).1 ∧
      Claims.After first (idx.classifyOne c r).2 (idx'.classifyOne c' r).2 := by
  have hlookup (key : IdempotencyKey) : (idx'.byIdem.lookup key).or (c'.claimed.lookup key) =
      (idx.byIdem.lookup key).or (c.claimed.lookup key) := by
    rw [hidem, h.claimed, Option.or_assoc]
  have hgrown : c.toRecord ++ [r] = first.toRecord ++ (c'.toRecord ++ [r]) := by
    rw [h.toRecord, append_assoc]
  simp only [PendingIndex.classifyOne, hseq, hlookup]
  split
  · exact ⟨rfl, h⟩
  split
  · exact ⟨rfl, h.claimed, hgrown⟩
  rename_i key hkey
  split
  · exact ⟨rfl, h⟩
  · rename_i hfound
    have hclaims := (Option.or_eq_none_iff.1 hfound).2
    rw [h.claimed] at hclaims
    refine ⟨rfl, fun key' => ?_, hgrown⟩
    rw [Maps.lookup_insert, Maps.lookup_insert]
    split
    · next hkey => rw [hkey, (Option.or_eq_none_iff.1 hclaims).1, Option.none_or]
    · exact h.claimed key'

lemma Claims.After.classifyGroup {first c' : Claims} {idx' : PendingIndex}
    (h : Claims.After first c c')
    (hidem : ∀ key, idx'.byIdem.lookup key =
      (idx.byIdem.lookup key).or (first.claimed.lookup key))
    {group : List WriteIntent}
    (hseq : ∀ r ∈ group, r.perspectiveSeq ∈ idx'.bySeq ↔ r.perspectiveSeq ∈ idx.bySeq) :
    (idx'.classifyGroup group c').1 = (idx.classifyGroup group c).1 ∧
      Claims.After first (idx.classifyGroup group c).2 (idx'.classifyGroup group c').2 := by
  induction group generalizing c c' with
  | nil => exact ⟨rfl, h⟩
  | cons r group ih =>
    obtain ⟨hr, hgroup⟩ := forall_mem_cons.1 hseq
    obtain ⟨hout, hone⟩ := h.classifyOne hidem hr
    obtain ⟨houts, hall⟩ := ih hone hgroup
    refine ⟨?_, hall⟩
    simp only [classifyGroup, hout, houts]

lemma toRecord_prefix (idx : PendingIndex) (groups : List (List WriteIntent)) (c : Claims) :
    c.toRecord <+: (idx.classifyGroups groups c).2.toRecord := by
  obtain ⟨new, hnew, _⟩ := classifyGroups_spec c
  exact ⟨new, hnew.symm⟩

/-- Cycles per group agree with one cycle without resent seqs or early rotation. -/
lemma StoreCore.Follows.each {first : Claims} {post : List (List WriteIntent)}
    (hof : first.Of core.pendingIndex before) (h : core.Follows core' first.toRecord)
    (hrotated : (core.pendingIndex.classifyGroups post first).2.toRecord ≠ first.toRecord →
      core.Unrotated core' first.toRecord)
    (hapart : ∀ mid rest, post = mid ++ rest →
      ∀ r ∈ (core.pendingIndex.classifyGroups mid first).2.toRecord, ∀ r' ∈ rest.flatten,
        r.perspectiveSeq ≠ r'.perspectiveSeq)
    (hroom : ∀ mid rest, post = mid ++ rest →
      (core.pendingIndex.classifyGroups mid first).2.toRecord ≠ [] →
      (core.pendingIndex.classifyGroups post first).2.toRecord ≠
        (core.pendingIndex.classifyGroups mid first).2.toRecord →
      core.epochs.activeInserts +
        (core.pendingIndex.classifyGroups mid first).2.toRecord.length <
          core.epochs.rotateThreshold) :
    core'.outcomesEach post = (core.pendingIndex.classifyGroups post first).1 ∧
      core.Follows (core'.afterEach post)
        (core.pendingIndex.classifyGroups post first).2.toRecord := by
  induction post generalizing core' first before with
  | nil => exact ⟨rfl, h⟩
  | cons group post ih =>
    have hstart : Claims.After first first {} :=
      ⟨fun key => by rw [lookup_empty, Option.or_none], (append_nil _).symm⟩
    have hidem : ∀ key, core'.pendingIndex.byIdem.lookup key =
        (core.pendingIndex.byIdem.lookup key).or (first.claimed.lookup key) := by
      rw [h.index]
      exact hof.keyed core.epochs.activeNo
    have hseq : ∀ r ∈ group, r.perspectiveSeq ∈ core'.pendingIndex.bySeq ↔
        r.perspectiveSeq ∈ core.pendingIndex.bySeq := by
      intro r hr
      rw [h.index, mem_foldl_insertRecord, or_iff_left]
      rintro ⟨r', hr', heq⟩
      exact hapart [] (group :: post) rfl r' hr' r (mem_append_left _ hr) heq
    obtain ⟨hout, hafter⟩ := hstart.classifyGroup hidem hseq
    set next := (core.pendingIndex.classifyGroup group first).2
    have hgrown : next.toRecord = first.toRecord ++ core'.recordsOf group := hafter.toRecord
    have hlonger := toRecord_prefix core.pendingIndex post next
    have hmore : ∀ {rs}, core'.recordsOf group ≠ [] → next.toRecord <+: rs →
        rs ≠ first.toRecord := by
      intro rs hne hpre heq
      have hle := hpre.length_le
      rw [heq, hgrown, length_append] at hle
      exact hne (eq_nil_of_length_eq_zero (by omega))
    have hfollows : core.Follows (core'.record (core'.recordsOf group)) next.toRecord := by
      rw [hgrown]
      exact h.record fun hne => (hrotated (hmore hne hlonger)).activeNo
    have hstill : (core.pendingIndex.classifyGroups post next).2.toRecord ≠ next.toRecord →
        core.Unrotated (core'.record (core'.recordsOf group)) next.toRecord := by
      intro hne
      have hbefore : (core.pendingIndex.classifyGroups (group :: post) first).2.toRecord ≠
          first.toRecord := by
        by_cases hnil : core'.recordsOf group = []
        · rw [hnil, append_nil] at hgrown
          rw [← hgrown]
          exact hne
        · exact hmore hnil hlonger
      rw [hgrown]
      refine (hrotated hbefore).record fun hrs => ?_
      rw [← hgrown]
      refine hroom [group] post rfl ?_ hne
      change next.toRecord ≠ []
      rw [hgrown]
      exact fun hnil => hrs (append_eq_nil_iff.1 hnil).2
    obtain ⟨houts, hend⟩ := ih (hof.classifyGroup group) hfollows hstill
      (fun mid rest heq => hapart (group :: mid) rest (congrArg _ heq))
      (fun mid rest heq => hroom (group :: mid) rest (congrArg _ heq))
    refine ⟨?_, hend⟩
    change (core'.pendingIndex.classifyGroup group {}).1 :: _ = _ :: _
    rw [hout]
    exact congrArg _ houts

variable {outcomes : List PutOutcome}

lemma unpended_cons (group : List WriteIntent) (outcome : PutOutcome) :
    idx.unpended (r :: group) (outcome :: outcomes) =
      idx.unpended [r] [outcome] ++ idx.unpended group outcomes := by
  rw [unpended, reportedIn_cons, filter_append]
  rfl

lemma reportedIn_of_pending (c : Claims) (hr : r ∈ group)
    (hseq : r.perspectiveSeq ∈ idx.bySeq) : r ∈ reportedIn group (idx.classifyGroup group c).1 := by
  induction group generalizing c with
  | nil => exact absurd hr not_mem_nil
  | cons r' group ih =>
    change r ∈ reportedIn (r' :: group) ((idx.classifyOne c r').1 ::
      (idx.classifyGroup group (idx.classifyOne c r').2).1)
    rw [reportedIn_cons]
    rcases mem_cons.1 hr with rfl | hr
    · refine mem_append_left _ ?_
      rw [classifyOne, if_pos hseq]
      exact mem_singleton_self r
    · exact mem_append_right _ (ih (idx.classifyOne c r').2 hr)

lemma Classified.toRecord {res : PutOutcome × Claims} (h : Classified idx c r res) :
    res.2.toRecord = c.toRecord ++ idx.unpended [r] [res.1] := by
  cases h with
  | pending hseq =>
    have hskip : idx.unpended [r] [.recorded] = [] :=
      filter_cons_of_neg (by simpa using hseq)
    rw [hskip, append_nil]
  | duplicate => exact (append_nil _).symm
  | fresh hseq =>
    have hone : idx.unpended [r] [.recorded] = [r] :=
      filter_cons_of_pos (decide_eq_true hseq)
    rw [hone]

lemma toRecord_classifyGroup (group : List WriteIntent) (c : Claims) :
    (idx.classifyGroup group c).2.toRecord =
      c.toRecord ++ idx.unpended group (idx.classifyGroup group c).1 := by
  induction group generalizing c with
  | nil => exact (append_nil _).symm
  | cons r group ih =>
    change (idx.classifyGroup group (idx.classifyOne c r).2).2.toRecord = c.toRecord ++
      idx.unpended (r :: group) ((idx.classifyOne c r).1 ::
        (idx.classifyGroup group (idx.classifyOne c r).2).1)
    rw [ih, (classified idx).toRecord, unpended_cons group, append_assoc]

lemma toRecord_classifyGroups (groups : List (List WriteIntent))
    (c : Claims) : (idx.classifyGroups groups c).2.toRecord = c.toRecord ++
      (List.zipWith idx.unpended groups (idx.classifyGroups groups c).1).flatten := by
  induction groups generalizing c with
  | nil => exact (append_nil _).symm
  | cons group groups ih =>
    change (idx.classifyGroups groups (idx.classifyGroup group c).2).2.toRecord = c.toRecord ++
      (idx.unpended group _ :: zipWith idx.unpended groups _).flatten
    rw [ih, toRecord_classifyGroup, flatten_cons, append_assoc]

lemma recordsOf_eq (group : List WriteIntent) : core.recordsOf group =
    core.pendingIndex.unpended group (core.pendingIndex.classifyGroup group {}).1 :=
  toRecord_classifyGroup group {}

lemma mem_record :
    seq ∈ (core.record rs).pendingIndex.bySeq ↔
      seq ∈ core.pendingIndex.bySeq ∨ ∃ r ∈ rs, r.perspectiveSeq = seq := by
  rw [(core.record_eq rs).1, mem_foldl_insertRecord]

lemma unpended_sublist {idx' : PendingIndex} (hsub : ∀ seq ∈ idx.bySeq, seq ∈ idx'.bySeq)
    (group : List WriteIntent) :
    (idx'.unpended group outcomes).Sublist (idx.unpended group outcomes) := by
  refine monotone_filter_right _ fun r hr => ?_
  rw [decide_eq_true_eq] at hr ⊢
  exact fun hin => hr (hsub _ hin)

lemma recordsEach_sublist (groups : List (List WriteIntent))
    (hsub : ∀ seq ∈ idx.bySeq, seq ∈ core.pendingIndex.bySeq) :
    List.Forall₂ List.Sublist (core.recordsEach groups)
      (List.zipWith idx.unpended groups (core.outcomesEach groups)) := by
  induction groups generalizing core with
  | nil => exact .nil
  | cons group groups ih =>
    refine .cons ?_ (ih fun seq hseq => (mem_record).2 (.inl (hsub seq hseq)))
    rw [recordsOf_eq]
    exact unpended_sublist hsub group

lemma flatten_of_sublists {l l' : List (List WriteIntent)} (h : List.Forall₂ List.Sublist l l') :
    l.flatten.length ≤ l'.flatten.length ∧ (l'.flatten.length ≤ l.flatten.length → l = l') := by
  induction h with
  | nil => exact ⟨le_refl _, fun _ => rfl⟩
  | @cons a b l l' hab _ ih =>
    have hle := hab.length_le
    rw [flatten_cons, flatten_cons, length_append, length_append]
    refine ⟨by omega, fun htotal => ?_⟩
    rw [hab.eq_of_length (by omega), ih.2 (by omega)]

section
variable (no : Nat) (core : StoreCore) (groups : List (List WriteIntent))

lemma liveOf_afterEach :
    liveOf (core.afterEach groups).epochs.live no =
      liveOf core.epochs.live no + core.countEach no groups := by
  induction groups generalizing core with
  | nil => rfl
  | cons group groups ih =>
    change liveOf ((core.record (core.recordsOf group)).afterEach groups).epochs.live no = _ +
      ((if no = core.epochs.activeNo then (core.recordsOf group).length else 0) + _)
    rw [ih, (core.record_eq _).2.1, liveOf_addLive, add_assoc]

lemma countEach_le : core.countEach no groups ≤ (core.recordsEach groups).flatten.length := by
  induction groups generalizing core with
  | nil => exact le_refl _
  | cons group groups ih =>
    have hrest := ih (core.record (core.recordsOf group))
    change (if _ then _ else 0) + _ ≤ (core.recordsOf group ++ _).length
    rw [length_append]
    split <;> omega

end

section
variable (core : StoreCore)

lemma activeNo_record_le (rs : List WriteIntent) :
    core.epochs.activeNo ≤ (core.record rs).epochs.activeNo := by
  by_cases hrs : rs = []
  · subst hrs
    exact le_refl _
  · rw [(core.record_active hrs).1]
    split <;> omega

lemma countEach_of_rotated (groups : List (List WriteIntent))
    (hno : no < core.epochs.activeNo) : core.countEach no groups = 0 := by
  induction groups generalizing core with
  | nil => rfl
  | cons group groups ih =>
    have hle := activeNo_record_le core (core.recordsOf group)
    change (if no = core.epochs.activeNo then _ else 0) + _ = 0
    rw [if_neg (by omega), ih _ (by omega)]

lemma recordsEach_append (pre post : List (List WriteIntent)) :
    core.recordsEach (pre ++ post) =
        core.recordsEach pre ++ (core.afterEach pre).recordsEach post ∧
      core.outcomesEach (pre ++ post) =
        core.outcomesEach pre ++ (core.afterEach pre).outcomesEach post ∧
      (core.recordsEach pre).length = pre.length ∧ (core.outcomesEach pre).length = pre.length := by
  induction pre generalizing core with
  | nil => exact ⟨rfl, rfl, rfl, rfl⟩
  | cons group pre ih =>
    obtain ⟨hrecords, houtcomes, hlength, hlength'⟩ := ih (core.record (core.recordsOf group))
    exact ⟨congrArg _ hrecords, congrArg _ houtcomes, congrArg succ hlength, congrArg succ hlength'⟩

lemma mem_afterEach (groups : List (List WriteIntent)) :
    seq ∈ (core.afterEach groups).pendingIndex.bySeq ↔ seq ∈ core.pendingIndex.bySeq ∨
      ∃ r ∈ (core.recordsEach groups).flatten, r.perspectiveSeq = seq := by
  induction groups generalizing core with
  | nil =>
    refine (or_iff_left ?_).symm
    rintro ⟨r, hr, _⟩
    exact absurd hr not_mem_nil
  | cons group groups ih =>
    change seq ∈ ((core.record (core.recordsOf group)).afterEach groups).pendingIndex.bySeq ↔ _ ∨
      ∃ r ∈ core.recordsOf group ++ _, r.perspectiveSeq = seq
    rw [ih, mem_record, or_assoc]
    simp only [mem_append, or_and_right, exists_or]

end

lemma mem_of_recordsEach (groups : List (List WriteIntent)) (hall : core.recordsEach groups =
      List.zipWith idx.unpended groups (core.outcomesEach groups))
    (hr : r ∈ groups.flatten) (hseq : r.perspectiveSeq ∈ core.pendingIndex.bySeq) :
    r.perspectiveSeq ∈ idx.bySeq := by
  induction groups generalizing core with
  | nil => exact absurd hr not_mem_nil
  | cons group groups ih =>
    obtain ⟨hhead, htail⟩ := cons.inj hall
    rcases mem_append.1 hr with hr | hr
    · by_contra hnot
      have hreported := reportedIn_of_pending {} hr hseq
      have hin : r ∈ core.recordsOf group := by
        rw [hhead]
        exact mem_filter.2 ⟨hreported, decide_eq_true hnot⟩
      rw [recordsOf_eq] at hin
      exact of_decide_eq_true (mem_filter.1 hin).2 hseq
    · exact ih htail hr ((mem_record).2 (.inl hseq))

lemma room_of_countEach (pre post : List (List WriteIntent))
    (hcount : (core.recordsEach (pre ++ post)).flatten.length ≤
      core.countEach core.epochs.activeNo (pre ++ post))
    (hpre : (core.recordsEach pre).flatten ≠ [])
    (hpost : ((core.afterEach pre).recordsEach post).flatten ≠ []) :
    core.epochs.activeInserts + (core.recordsEach pre).flatten.length <
      core.epochs.rotateThreshold := by
  induction pre generalizing core with
  | nil => exact absurd rfl hpre
  | cons group pre ih =>
    let next := core.record (core.recordsOf group)
    have hpost₁ : ((next.afterEach pre).recordsEach post).flatten ≠ [] := hpost
    have hcount₁ : (next.recordsEach (pre ++ post)).flatten.length ≤
        next.countEach core.epochs.activeNo (pre ++ post) := by
      change (core.recordsOf group ++ _).length ≤
        (if core.epochs.activeNo = core.epochs.activeNo then _ else 0) + _ at hcount
      rw [if_pos rfl, length_append] at hcount
      exact Nat.le_of_add_le_add_left hcount
    change core.recordsOf group ++ (next.recordsEach pre).flatten ≠ [] at hpre
    change core.epochs.activeInserts +
      (core.recordsOf group ++ (next.recordsEach pre).flatten).length < _
    by_cases hgroup : core.recordsOf group = []
    · have hsame : next = core := congrArg core.record hgroup
      rw [hsame] at hcount₁ hpost₁ hpre ⊢
      rw [hgroup] at hpre ⊢
      exact ih hcount₁ hpre hpost₁
    obtain ⟨hno, hinserts⟩ := core.record_active hgroup
    -- a rotation here would leave the later records to another epoch
    have hroom : ¬core.epochs.rotateThreshold ≤
        core.epochs.activeInserts + (core.recordsOf group).length := by
      intro hfull
      rw [if_pos hfull] at hno
      have hzero := countEach_of_rotated next (pre ++ post)
          (show core.epochs.activeNo < _ from hno ▸ lt_succ_self _)
      have hpos := length_pos_iff.2 hpost₁
      rw [hzero, (recordsEach_append _ pre post).1, flatten_append, length_append] at hcount₁
      omega
    rw [if_neg hroom] at hno
    rw [length_append]
    by_cases hnil : (next.recordsEach pre).flatten = []
    · rw [hnil, length_nil]
      exact Nat.lt_of_not_le hroom
    · rw [← hno] at hcount₁
      have hless := ih hcount₁ hnil hpost₁
      rw [hinserts hroom, (core.record_eq _).2.2.2, add_assoc] at hless
      exact hless

section
variable (idx : PendingIndex) (groups : List (List WriteIntent))

lemma toRecord_eq_newIntents :
    (idx.classifyGroups groups {}).2.toRecord = idx.newIntents [] groups.flatten :=
  ((claims_of_nil).classifyGroups groups).toRecord

lemma length_classifyGroups (c : Claims) :
    (idx.classifyGroups groups c).1.length = groups.length := by
  induction groups generalizing c with
  | nil => rfl
  | cons group groups ih => exact congrArg succ (ih _)

end

lemma recordsEach_of_agree (groups : List (List WriteIntent))
    (houts : core.outcomesEach groups = (core.pendingIndex.classifyGroups groups {}).1)
    (hlive : (core.record (core.pendingIndex.classifyGroups groups {}).2.toRecord).epochs.live =
      (core.afterEach groups).epochs.live) :
    core.recordsEach groups =
        List.zipWith core.pendingIndex.unpended groups (core.outcomesEach groups) ∧
      (core.recordsEach groups).flatten.length ≤
        core.countEach core.epochs.activeNo groups := by
  obtain ⟨hle, heq⟩ := flatten_of_sublists (recordsEach_sublist groups
    (fun seq (hseq : seq ∈ core.pendingIndex.bySeq) => hseq))
  have hcount := countEach_le core.epochs.activeNo core groups
  have htotal : (core.pendingIndex.classifyGroups groups {}).2.toRecord =
      (zipWith core.pendingIndex.unpended groups (core.outcomesEach groups)).flatten := by
    rw [houts]
    exact toRecord_classifyGroups groups {}
  have hactive := congrArg (liveOf · core.epochs.activeNo) hlive
  rw [(core.record_eq _).2.1, liveOf_addLive, if_pos rfl, liveOf_afterEach, htotal] at hactive
  exact ⟨heq (by omega), by omega⟩

lemma recordsEach_split {pre post : List (List WriteIntent)}
    (houts : core.outcomesEach (pre ++ post) =
      (core.pendingIndex.classifyGroups (pre ++ post) {}).1)
    (hall : core.recordsEach (pre ++ post) = List.zipWith core.pendingIndex.unpended (pre ++ post)
      (core.outcomesEach (pre ++ post))) :
    (core.recordsEach pre).flatten = core.pendingIndex.newIntents [] pre.flatten ∧
      ((core.afterEach pre).recordsEach post).flatten =
        core.pendingIndex.newIntents pre.flatten post.flatten ∧
      (core.afterEach pre).recordsEach post = List.zipWith core.pendingIndex.unpended post
        ((core.afterEach pre).outcomesEach post) := by
  obtain ⟨hrecords, houtcomes, hlength, hlength'⟩ := recordsEach_append core pre post
  have htotal : core.pendingIndex.newIntents [] (pre ++ post).flatten =
      (core.recordsEach (pre ++ post)).flatten := by
    rw [hall, houts, ← toRecord_eq_newIntents]
    exact toRecord_classifyGroups (pre ++ post) {}
  rw [houtcomes, classifyGroups_append] at houts
  have hpre := (append_inj houts (by rw [hlength', length_classifyGroups])).1
  rw [hrecords, houtcomes, zipWith_append hlength'.symm] at hall
  obtain ⟨hall, hall'⟩ := append_inj hall (by
    rw [hlength, length_zipWith, hlength', min_self])
  have hfirst : (core.recordsEach pre).flatten = core.pendingIndex.newIntents [] pre.flatten := by
    rw [hall, hpre, ← toRecord_eq_newIntents]
    exact (toRecord_classifyGroups pre {}).symm
  refine ⟨hfirst, ?_, hall'⟩
  rw [hrecords, flatten_append, flatten_append, newIntents_append, hfirst, nil_append] at htotal
  exact (append_cancel_left htotal).symm

end

/-- One cycle agrees with one per group exactly without resent seqs or early rotation. -/
theorem group_commit_eq_iff (groups : List (List WriteIntent)) (d : Disk) (core : StoreCore) :
    ((commitGroupsLocked groups d core).value = (commitEach groups d core).value ∧
      (commitGroupsLocked groups d core).mem.pending = (commitEach groups d core).mem.pending ∧
      (commitGroupsLocked groups d core).mem.pendingIndex.byIdem =
        (commitEach groups d core).mem.pendingIndex.byIdem ∧
      (commitGroupsLocked groups d core).mem.epochs.wm =
        (commitEach groups d core).mem.epochs.wm ∧
      (commitGroupsLocked groups d core).mem.epochs.live =
        (commitEach groups d core).mem.epochs.live) ↔
    (∀ pre post, groups = pre ++ post →
      ∀ r ∈ core.pendingIndex.newIntents [] pre.flatten, ∀ r' ∈ post.flatten,
        r.perspectiveSeq ≠ r'.perspectiveSeq) ∧
      ∀ pre post, groups = pre ++ post →
        core.pendingIndex.newIntents [] pre.flatten ≠ [] →
        core.pendingIndex.newIntents pre.flatten post.flatten ≠ [] →
        core.epochs.activeInserts + (core.pendingIndex.newIntents [] pre.flatten).length <
          core.epochs.rotateThreshold := by
  obtain ⟨hvalue, hmem⟩ := commitGroupsLocked_result groups d core
  obtain ⟨hvalues, hmems⟩ := commitEach_result groups d core
  rw [hvalue, hmem, hvalues, hmems]
  constructor
  · rintro ⟨houts, _, _, _, hlive⟩
    obtain ⟨hall, hcount⟩ := recordsEach_of_agree groups houts.symm hlive
    refine ⟨?_, ?_⟩
    · rintro pre post rfl r hr r' hr' heq
      obtain ⟨hpre, _, hpost⟩ := recordsEach_split houts.symm hall
      have hin : r'.perspectiveSeq ∈ (core.afterEach pre).pendingIndex.bySeq :=
        (mem_afterEach core pre).2 (.inr ⟨r, hpre ▸ hr, heq⟩)
      have hold := mem_of_recordsEach post hpost hr' hin
      rw [← heq] at hold
      exact notMem_of_newIntents hr hold
    · rintro pre post rfl hne hne'
      obtain ⟨hpre, hpost, _⟩ := recordsEach_split houts.symm hall
      rw [← hpre] at hne ⊢
      rw [← hpost] at hne'
      exact room_of_countEach pre post hcount hne hne'
  · rintro ⟨hapart, hroom⟩
    have hstart : core.Follows core (Claims.toRecord {}) :=
      ⟨rfl, rfl, rfl⟩
    have hfirst : core.Unrotated core (Claims.toRecord {}) := ⟨rfl, rfl, rfl⟩
    obtain ⟨houts, hend⟩ := hstart.each claims_of_nil (fun _ => hfirst)
      (fun mid rest heq => toRecord_eq_newIntents core.pendingIndex mid ▸ hapart mid rest heq)
      (fun mid rest heq => by
        subst heq
        rw [toRecord_eq_newIntents, toRecord_eq_newIntents, flatten_append, newIntents_append,
          nil_append]
        intro hne hmore
        refine hroom mid rest rfl hne fun hnil => hmore ?_
        rw [hnil, append_nil])
    obtain ⟨hindex, hlive, hwm, _⟩ :=
      core.record_eq (core.pendingIndex.classifyGroups groups {}).2.toRecord
    have hsame := hindex.trans hend.index.symm
    exact ⟨houts.symm, congrArg (fun idx => idx.bySeq.toList.map fun entry => entry.2.1) hsame,
      congrArg byIdem hsame, hwm.trans hend.wm.symm, hlive.trans hend.live.symm⟩

def freshlyOpened : Outcome Disk StoreCore (Except IntentError Unit) :=
  openWithRotate 4 {} {}

/-- One cycle counts a resent intent twice, two count it once. -/
theorem resent_intent_counted_twice :
    (commitGroupsLocked [[plainIntent 5], [plainIntent 5]] freshlyOpened.disk
        freshlyOpened.mem).mem.epochs.live.lookup 0 = some 2 ∧
      (commitGroupsLocked [[plainIntent 5], [plainIntent 5]] freshlyOpened.disk
        freshlyOpened.mem).mem.pending = [plainIntent 5] ∧
      (commitEach [[plainIntent 5], [plainIntent 5]] freshlyOpened.disk
        freshlyOpened.mem).mem.epochs.live.lookup 0 = some 1 := by
  decide

end Kiseki.Intent
