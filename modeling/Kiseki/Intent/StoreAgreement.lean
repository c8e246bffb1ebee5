import Kiseki.Intent.GroupCommit
import Kiseki.Intent.Recovery

namespace Kiseki.Intent
open Crash Maps Function Relation Std.ExtTreeMap Triple PendingIndex View SeqMap Option

namespace InMemIntentStore

def putBatch (g : InMemIntentStore) : List WriteIntent → List PutOutcome × InMemIntentStore
  | [] => ([], g)
  | intent :: intents =>
    let (outcome, g) := g.put intent
    let (outcomes, g) := g.putBatch intents
    (outcome :: outcomes, g)

/-- The default of `submit_batch`, for submissions that come one after the other. -/
def submitGroups (g : InMemIntentStore) :
    List (List WriteIntent) → List (List PutOutcome) × InMemIntentStore
  | [] => ([], g)
  | group :: groups =>
    let (outcomes, g) := g.putBatch group
    let (perGroup, g) := g.submitGroups groups
    (outcomes :: perGroup, g)

def prune (g : InMemIntentStore) (upTo : PerspectiveSeq) : InMemIntentStore :=
  let live := g.bySeq.filter fun seq _ => decide (upTo < seq)
  { bySeq := live, byKey := retain (fun _ seq => decide (seq ∈ live)) g.byKey }

def removeSeq (g : InMemIntentStore) (seq : PerspectiveSeq) : InMemIntentStore :=
  match g.bySeq[seq]? with
  | none => g
  | some intent =>
    let g := { g with bySeq := g.bySeq.erase seq }
    match intent.idempotencyKey with
    | none => g
    | some key =>
      if g.byKey.lookup key = some seq then { g with byKey := g.byKey.erase key } else g

def removeSeqs (g : InMemIntentStore) (seqs : List PerspectiveSeq) : InMemIntentStore :=
  seqs.foldl removeSeq g

end InMemIntentStore

def Op.onMemory : Op → InMemIntentStore → List (List PutOutcome) × InMemIntentStore
  | .put intent, g => ([[(g.put intent).1]], (g.put intent).2)
  | .putBatch intents, g => ([(g.putBatch intents).1], (g.putBatch intents).2)
  | .submitGroups groups, g => g.submitGroups groups
  | .prune upTo, g => ([], g.prune upTo)
  | .removeSeq seq, g => ([], g.removeSeq seq)
  | .removeSeqs seqs, g => ([], g.removeSeqs seqs)

def Op.intents : Op → List WriteIntent
  | .put intent => [intent]
  | .putBatch intents => intents
  | .submitGroups groups => groups.flatten
  | .prune _ | .removeSeq _ | .removeSeqs _ => []

/-- No pending or repeated seq comes with another intent or a key. -/
structure PendingIndex.Admits (idx : PendingIndex) (rs : List WriteIntent) : Prop where
  pending : ∀ r ∈ rs, ∀ i, idx.view.intentAt r.perspectiveSeq = some i →
    i = r ∧ r.idempotencyKey = none
  fresh : (idx.newIntents [] rs).Pairwise fun r r' =>
    r.perspectiveSeq = r'.perspectiveSeq → r.idempotencyKey = none

structure Twins where
  disk : Disk
  core : StoreCore
  memory : InMemIntentStore

namespace Twins

def fresh (rotateThreshold : Nat) : Twins where
  disk := (openWithRotate rotateThreshold {} {}).disk
  core := (openWithRotate rotateThreshold {} {}).mem
  memory := {}

def call (t : Twins) (op : Op) : Twins where
  disk := (op.execute t.disk t.core).disk
  core := (op.execute t.disk t.core).mem
  memory := (op.onMemory t.memory).2

def Agrees (t : Twins) (op : Op) : Prop :=
  (op.execute t.disk t.core).value = (op.onMemory t.memory).1 ∧
    (t.call op).core.pending = (t.call op).memory.pending

inductive Step : Twins → Twins → Prop
  | call (op : Op) (h : t.core.pendingIndex.Admits op.intents) : Step t (t.call op)

end Twins

namespace View
variable {v v' : View} {r i : WriteIntent} {seq : PerspectiveSeq} {key : IdempotencyKey}

structure Tidy (v : View) : Prop where
  entry : ∀ seq i, v.intentAt seq = some i → i.perspectiveSeq = seq
  holder : ∀ key seq, v.holder key = some seq ↔
    ∃ i, v.intentAt seq = some i ∧ i.idempotencyKey = some key

lemma tidy_empty : View.empty.Tidy where
  entry := by
    intro seq i h
    cases h
  holder := by
    intro key seq
    constructor
    · intro h
      cases h
    · intro h
      obtain ⟨i, hi, _⟩ := h
      cases hi

lemma Tidy.ext (h : v.Tidy) (h' : v'.Tidy) (hsame : v.intentAt = v'.intentAt) : v = v' := by
  apply View.ext hsame
  funext key
  apply Option.ext
  intro seq
  rw [h.holder, h'.holder, hsame]

lemma Tidy.insert (h : v.Tidy)
    (hover : ∀ i, v.intentAt r.perspectiveSeq = some i → i.idempotencyKey = none)
    (hkey : ∀ key, r.idempotencyKey = some key → v.holder key = none) : (v.insert r).Tidy := by
  constructor
  · intro seq i hi
    simp only [View.insert, update_apply] at hi
    split at hi
    · obtain rfl := some.inj hi
      exact (‹seq = _›).symm
    · exact h.entry seq i hi
  · intro key seq
    rw [holder_insert]
    simp only [View.insert, update_apply]
    by_cases hseq : seq = r.perspectiveSeq
    · subst hseq
      rw [if_pos rfl]
      by_cases hr : r.idempotencyKey = some key
      · rw [if_pos hr]
        exact iff_of_true rfl ⟨r, rfl, hr⟩
      · rw [if_neg hr]
        apply iff_of_false
        · intro hheld
          obtain ⟨i, hi, hik⟩ := (h.holder key _).1 hheld
          cases (hover i hi).symm.trans hik
        · intro hex
          obtain ⟨i, hi, hik⟩ := hex
          obtain rfl := some.inj hi
          exact hr hik
    · rw [if_neg hseq]
      by_cases hr : r.idempotencyKey = some key
      · rw [if_pos hr]
        apply iff_of_false
        · intro heq
          exact hseq (some.inj heq).symm
        · intro hex
          have hheld := (h.holder key seq).2 hex
          cases (hkey key hr).symm.trans hheld
      · rw [if_neg hr]
        exact h.holder key seq

lemma Tidy.remove {key : Option IdempotencyKey} (h : v.Tidy)
    (hkey : ∀ i, v.intentAt seq = some i → i.idempotencyKey = key) : (v.remove seq key).Tidy := by
  constructor
  · intro seq' i hi
    simp only [View.remove, update_apply] at hi
    exact h.entry seq' i (ite_none_left_eq_some.1 hi).2
  · intro k seq'
    simp only [View.remove, update_apply]
    by_cases hdrop : key = some k ∧ v.holder k = some seq
    · rw [if_pos hdrop]
      apply iff_of_false
      · intro heq
        cases heq
      · intro hex
        obtain ⟨i, hi, hik⟩ := hex
        split at hi
        · cases hi
        · have hheld := (h.holder k seq').2 ⟨i, hi, hik⟩
          exact absurd (some.inj (hheld.symm.trans hdrop.2)) ‹_›
    · rw [if_neg hdrop, h.holder k seq']
      by_cases hseq : seq' = seq
      · subst hseq
        rw [if_pos rfl]
        apply iff_of_false
        · intro hex
          obtain ⟨i, hi, hik⟩ := hex
          exact hdrop ⟨(hkey i hi).symm.trans hik, (h.holder k seq').2 ⟨i, hi, hik⟩⟩
        · intro hex
          obtain ⟨i, hi, _⟩ := hex
          cases hi
      · rw [if_neg hseq]

def answer (v : View) (r : WriteIntent) : PutOutcome :=
  match r.idempotencyKey.bind v.holder with
  | some existing => .duplicate existing
  | none => .recorded

def put (v : View) (r : WriteIntent) : View :=
  match r.idempotencyKey.bind v.holder with
  | some _ => v
  | none => v.insert r

lemma insert_self (h : v.intentAt r.perspectiveSeq = some r) (hkey : r.idempotencyKey = none) :
    v.insert r = v := by
  apply View.ext
  · simp only [View.insert]
    rw [← h]
    exact update_eq_self _ _
  · simp only [insert, hkey]

end View

section
variable {g : InMemIntentStore} {idx : PendingIndex} {c : Claims} {r i : WriteIntent}
  {before rs : List WriteIntent} {seq : PerspectiveSeq}

lemma InMemIntentStore.put_eq :
    (g.put r).1 = g.view.answer r ∧ (g.put r).2.view = g.view.put r := by
  rw [put, View.answer, View.put]
  cases hkey : r.idempotencyKey with
  | none => exact ⟨rfl, record_view hkey⟩
  | some key =>
    simp only [bind_some, view]
    cases hheld : g.byKey.lookup key with
    | none => exact ⟨rfl, record_view_of_key hkey⟩
    | some existing => exact ⟨rfl, rfl⟩

variable {no : Nat}

lemma intentAt_insertRecords
    (h : (rs.foldl (PendingIndex.insertRecord no) idx).view.intentAt seq = some i) :
    idx.view.intentAt seq = some i ∨ i ∈ rs ∧ i.perspectiveSeq = seq := by
  induction rs generalizing idx with
  | nil => exact .inl h
  | cons r rs ih =>
    rcases ih h with hi | ⟨hi, hseq⟩
    · rw [view_insertRecord] at hi
      simp only [View.insert, update_apply] at hi
      split at hi
      · obtain rfl := some.inj hi
        exact .inr ⟨List.mem_cons_self, (‹seq = _›).symm⟩
      · exact .inl hi
    · exact .inr ⟨List.mem_cons_of_mem _ hi, hseq⟩

lemma intentAt_insertRecords_of_notMem (h : ∀ r ∈ rs, r.perspectiveSeq ≠ seq) :
    (rs.foldl (PendingIndex.insertRecord no) idx).view.intentAt seq = idx.view.intentAt seq := by
  induction rs generalizing idx with
  | nil => rfl
  | cons r rs ih =>
    obtain ⟨hr, hrs⟩ := List.forall_mem_cons.1 h
    rw [List.foldl_cons, ih hrs, view_insertRecord]
    simp only [View.insert, update_apply, if_neg hr.symm]

lemma PendingIndex.mem_iff_intentAt : seq ∈ idx.bySeq ↔ ∃ i, idx.view.intentAt seq = some i := by
  rw [mem_iff]
  simp only [view, map_eq_some_iff]
  constructor
  · intro h
    obtain ⟨e, he⟩ := h
    exact ⟨e.1, e, he, rfl⟩
  · intro h
    obtain ⟨_, e, he, _⟩ := h
    exact ⟨e, he⟩

structure Claims.Matches (c : Claims) (idx : PendingIndex) (no : Nat) (before : List WriteIntent)
    (g : InMemIntentStore) : Prop where
  claims : c.Of idx before
  view : (c.toRecord.foldl (PendingIndex.insertRecord no) idx).view = g.view
  tidy : g.view.Tidy

lemma PendingIndex.Admits.of_append (h : idx.Admits (before ++ rs)) : idx.Admits before where
  pending := fun r hr => h.pending r (List.mem_append_left _ hr)
  fresh := by
    have hfresh := h.fresh
    rw [newIntents_append] at hfresh
    exact (List.pairwise_append.1 hfresh).1

lemma Claims.Matches.classifyOne {res : PutOutcome × Claims} (h : c.Matches idx no before g)
    (hadmits : idx.Admits (before ++ [r])) (hone : Classified idx c r res) :
    res.1 = (g.put r).1 ∧ res.2.Matches idx no (before ++ [r]) (g.put r).2 := by
  have hclaims := h.claims.classifyOne hone
  have hholder (key : IdempotencyKey) : g.view.holder key =
      (idx.byIdem.lookup key).or (c.claimed.lookup key) := by
    rw [← h.view]
    exact h.claims.keyed no key
  cases hone with
  | pending hseq =>
    -- the pending intent is put again: the one store skips it, the other writes it over itself
    obtain ⟨i, hi⟩ := mem_iff_intentAt.1 hseq
    obtain ⟨rfl, hkey⟩ := hadmits.pending r (List.mem_append_right _ List.mem_cons_self) i hi
    have hkept : g.view.intentAt i.perspectiveSeq = some i := by
      rw [← h.view, intentAt_insertRecords_of_notMem, hi]
      intro r' hr' heq
      rw [h.claims.toRecord] at hr'
      exact notMem_of_newIntents hr' (heq ▸ hseq)
    have hput : (g.put i).2.view = g.view := by
      rw [InMemIntentStore.put_eq.2, View.put, hkey]
      exact insert_self hkept hkey
    refine ⟨?_, hclaims, h.view.trans hput.symm, hput ▸ h.tidy⟩
    rw [InMemIntentStore.put_eq.1, answer, hkey]
    rfl
  | duplicate hkey hfound =>
    rw [← hholder] at hfound
    have hput : (g.put r).2.view = g.view := by
      rw [InMemIntentStore.put_eq.2, View.put, hkey, bind_some, hfound]
    refine ⟨?_, hclaims, h.view.trans hput.symm, hput ▸ h.tidy⟩
    rw [InMemIntentStore.put_eq.1, answer, hkey, bind_some, hfound]
  | fresh hseq hfree hclaimed =>
    have hheld (key : IdempotencyKey) (hkey : r.idempotencyKey = some key) :
        g.view.holder key = none := by
      rw [hholder, (hfree key hkey).1, (hfree key hkey).2, or_none]
    have hnone : r.idempotencyKey.bind g.view.holder = none := bind_eq_none_iff.2 hheld
    have hput : (g.put r).2.view = g.view.insert r := by
      rw [InMemIntentStore.put_eq.2, View.put, hnone]
    refine ⟨?_, hclaims, ?_, ?_⟩
    · rw [InMemIntentStore.put_eq.1, answer, hnone]
    · rw [List.foldl_append, hput, ← h.view]
      exact view_insertRecord _ no r
    · rw [hput]
      refine h.tidy.insert (fun i hi => ?_) hheld
      rw [← h.view] at hi
      rcases intentAt_insertRecords hi with hold | ⟨hmem, hsame⟩
      · exact absurd (mem_iff_intentAt.2 ⟨i, hold⟩) hseq
      · have hfresh := hadmits.fresh
        rw [← hclaims.toRecord] at hfresh
        exact (List.pairwise_append.1 hfresh).2.2 i hmem r List.mem_cons_self hsame

lemma Claims.Matches.classifyGroup (h : c.Matches idx no before g)
    (hadmits : idx.Admits (before ++ rs)) :
    (idx.classifyGroup rs c).1 = (g.putBatch rs).1 ∧
      (idx.classifyGroup rs c).2.Matches idx no (before ++ rs) (g.putBatch rs).2 := by
  induction rs generalizing c before g with
  | nil =>
    rw [List.append_nil]
    exact ⟨rfl, h⟩
  | cons r rs ih =>
    rw [List.append_cons] at hadmits ⊢
    obtain ⟨houtcome, hone⟩ := h.classifyOne hadmits.of_append (classified idx)
    obtain ⟨houtcomes, hrest⟩ := ih hone hadmits
    constructor
    · simp only [classifyGroup, InMemIntentStore.putBatch]
      rw [houtcome, houtcomes]
    · exact hrest

lemma Claims.Matches.classifyGroups {groups : List (List WriteIntent)}
    (h : c.Matches idx no before g) (hadmits : idx.Admits (before ++ groups.flatten)) :
    (idx.classifyGroups groups c).1 = (g.submitGroups groups).1 ∧
      (idx.classifyGroups groups c).2.Matches idx no (before ++ groups.flatten)
        (g.submitGroups groups).2 := by
  induction groups generalizing c before g with
  | nil =>
    rw [List.flatten_nil, List.append_nil]
    exact ⟨rfl, h⟩
  | cons group groups ih =>
    rw [List.flatten_cons, ← List.append_assoc] at hadmits ⊢
    obtain ⟨houtcomes, hone⟩ := h.classifyGroup hadmits.of_append
    obtain ⟨hperGroup, hrest⟩ := ih hone hadmits
    constructor
    · simp only [classifyGroups, InMemIntentStore.submitGroups]
      rw [houtcomes, hperGroup]
    · exact hrest

lemma commitGroupsLocked_alike (groups : List (List WriteIntent)) {d : Disk} {core : StoreCore}
    (hview : core.pendingIndex.view = g.view) (htidy : g.view.Tidy)
    (hadmits : core.pendingIndex.Admits groups.flatten) :
    (commitGroupsLocked groups d core).value = (g.submitGroups groups).1 ∧
      (commitGroupsLocked groups d core).mem.pendingIndex.view = (g.submitGroups groups).2.view ∧
      (g.submitGroups groups).2.view.Tidy := by
  have hstart : Claims.Matches {} core.pendingIndex core.epochs.activeNo [] g :=
    ⟨claims_of_nil, hview, htidy⟩
  obtain ⟨houtcomes, hmatches⟩ := hstart.classifyGroups hadmits
  obtain ⟨hvalue, hmem⟩ := commitGroupsLocked_result groups d core
  have hindex := (core.record_eq (core.pendingIndex.classifyGroups groups {}).2.toRecord).1
  constructor
  · exact hvalue.trans houtcomes
  · rw [hmem, hindex]
    exact ⟨hmatches.view, hmatches.tidy⟩

lemma gcEpochsLocked_pendingIndex :
    Triple (fun _ v => v.pendingIndex = idx) gcEpochsLocked (fun _ _ v => v.pendingIndex = idx)
      fun _ => True := by
  apply bind_mem
  intro core
  apply bind (Q := fun _ _ v => v.pendingIndex = idx)
  · exact modify fun d v h => h.1
  · intro _
    apply Triple.ite
    · intro _
      exact ret fun d v h => h
    · intro _
      apply bind (Q := fun _ _ v => v.pendingIndex = idx)
      · exact commitAll fun f _ d v h => ⟨h, trivial⟩
      · intro _
        exact commit fun d v h => ⟨h, trivial⟩

variable {work : List RetireWork}

lemma retireLocked_pendingIndex (d : Disk) (core : StoreCore) :
    (retireLocked work d core).mem.pendingIndex = (core.pendingIndex.walked work).index := by
  let idx := (core.pendingIndex.walked work).index
  have htriple : Triple (fun _ v => v = core) (retireLocked work)
      (fun _ _ v => v.pendingIndex = idx) fun _ => True := by
    apply retireLocked_rule (R := fun _ v => v.pendingIndex = idx)
    · intro hnone d v h
      subst h
      rw [show idx = (v.pendingIndex.walked work).index from rfl, hnone]
      rfl
    · intro d v first rest _ h
      subst h
      exact ⟨rfl, trivial⟩
    · exact gcEpochsLocked_pendingIndex
  exact (htriple d core rfl).2

lemma ite_mem_cons {f : PerspectiveSeq → Option WriteIntent} (s seq : PerspectiveSeq)
    (seqs : List PerspectiveSeq) :
    (if seq ∈ seqs then none else update f s none seq) =
      if seq ∈ s :: seqs then none else f seq := by
  rw [update_apply]
  by_cases hmem : seq ∈ seqs
  · rw [if_pos hmem, if_pos (List.mem_cons_of_mem _ hmem)]
  · simp only [if_neg hmem, List.mem_cons, or_iff_left hmem]

lemma walked_spec (st : Retiring) (h : st.index.view.Tidy) (hwork : st.index.Retires work) :
    (work.foldl Retiring.removeOne st).index.view.Tidy ∧
      ∀ seq, (work.foldl Retiring.removeOne st).index.view.intentAt seq =
        if seq ∈ work.map Prod.fst then none else st.index.view.intentAt seq := by
  apply And.intro (view_removeAll Tidy.remove st h hwork)
  intro seq
  simp only [view, getElem?_removeAll]
  split <;> rfl

namespace InMemIntentStore

lemma prune_view (h : g.view.Tidy) (upTo : PerspectiveSeq) :
    (g.prune upTo).view.Tidy ∧ ∀ seq, (g.prune upTo).view.intentAt seq =
      if seq ≤ upTo then none else g.view.intentAt seq := by
  have hat : ∀ seq, (g.prune upTo).view.intentAt seq =
      if seq ≤ upTo then none else g.view.intentAt seq := by
    intro seq
    change (g.bySeq.filter fun seq _ => decide (upTo < seq))[seq]? = _
    rw [getElem?_filter']
    by_cases hle : seq ≤ upTo
    · rw [if_pos hle, filter_eq_none_iff]
      intro _ _
      rw [decide_eq_true_eq, not_lt]
      exact hle
    · rw [if_neg hle, decide_eq_true (not_le.1 hle)]
      cases hentry : g.bySeq[seq]? with
      | none => exact hentry.symm
      | some intent => exact hentry.symm
  have hlive : ∀ seq, decide (seq ∈ (g.prune upTo).bySeq) =
      ((g.prune upTo).view.intentAt seq).isSome := by
    intro seq
    apply Bool.eq_iff_iff.2
    rw [decide_eq_true_eq, mem_iff_isSome_getElem?]
    rfl
  apply And.intro _ hat
  constructor
  · intro seq i hi
    rw [hat] at hi
    exact h.entry seq i (ite_none_left_eq_some.1 hi).2
  · intro key seq
    change (retain (fun _ seq => decide (seq ∈ (g.prune upTo).bySeq)) g.byKey).lookup key =
      some seq ↔ _
    rw [lookup_retain, filter_eq_some_iff, hlive, hat,
      show g.byKey.lookup key = some seq ↔ _ from h.holder key seq]
    by_cases hle : seq ≤ upTo
    · rw [if_pos hle]
      apply iff_of_false
      · intro hex
        cases hex.2
      · intro hex
        obtain ⟨i, hi, _⟩ := hex
        cases hi
    · rw [if_neg hle]
      constructor
      · intro hex
        exact hex.1
      · intro hex
        obtain ⟨i, hi, hkey⟩ := hex
        exact ⟨⟨i, hi, hkey⟩, by rw [hi]; rfl⟩

lemma removeSeq_view (h : g.view.Tidy) :
    (g.removeSeq seq).view.Tidy ∧
      (g.removeSeq seq).view.intentAt = update g.view.intentAt seq none := by
  have herase : (fun s => (g.bySeq.erase seq)[s]?) =
      update g.view.intentAt seq none := by
    funext s
    simp only [update_apply, view, getElem?_erase]
    by_cases hs : seq = s
    · rw [if_pos hs, if_pos hs.symm]
    · rw [if_neg hs, if_neg (Ne.symm hs)]
  cases hentry : g.bySeq[seq]? with
  | none =>
    have hsame : g.removeSeq seq = g := by
      rw [removeSeq, hentry]
    rw [hsame]
    apply And.intro h
    rw [eq_comm, update_eq_self_iff]
    exact hentry.symm
  | some intent =>
    have hview : (g.removeSeq seq).view = g.view.remove seq intent.idempotencyKey := by
      rw [removeSeq, hentry]
      dsimp only
      cases hkey : intent.idempotencyKey with
      | none =>
        apply View.ext herase
        funext k
        simp only [remove, reduceCtorEq, false_and, if_false]
        rfl
      | some key =>
        dsimp only
        split
        · rename_i hheld
          apply View.ext herase
          funext k
          exact Maps.lookup_erase_held hheld
        · rename_i hheld
          apply View.ext herase
          funext k
          apply Eq.symm
          apply if_neg
          intro hex
          obtain rfl := some.inj hex.1
          exact hheld hex.2
    rw [hview]
    apply And.intro _ rfl
    apply h.remove
    intro i hi
    rw [some.inj (hi.symm.trans hentry)]

lemma removeSeqs_view (h : g.view.Tidy) (seqs : List PerspectiveSeq) :
    (g.removeSeqs seqs).view.Tidy ∧ ∀ seq, (g.removeSeqs seqs).view.intentAt seq =
      if seq ∈ seqs then none else g.view.intentAt seq := by
  induction seqs generalizing g with
  | nil =>
    apply And.intro h
    intro seq
    rw [if_neg List.not_mem_nil]
    rfl
  | cons s seqs ih =>
    obtain ⟨htidy, hat⟩ := removeSeq_view h
    obtain ⟨htidy', hat'⟩ := ih htidy
    apply And.intro htidy'
    intro seq
    change ((g.removeSeq s).removeSeqs seqs).view.intentAt seq = _
    rw [hat', hat, ite_mem_cons]

end InMemIntentStore

lemma mem_pruneWork {upTo : PerspectiveSeq} :
    seq ∈ (idx.pruneWork upTo).map Prod.fst ↔ seq ∈ idx.bySeq ∧ seq ≤ upTo := by
  rw [pruneWork, List.map_map, List.mem_map, mem_iff]
  constructor
  · intro h
    obtain ⟨entry, hentry, rfl⟩ := h
    obtain ⟨hmem, hle⟩ := List.mem_filter.1 hentry
    exact ⟨⟨entry.2, mem_toList_iff_getElem?_eq_some.1 hmem⟩, of_decide_eq_true hle⟩
  · intro h
    obtain ⟨⟨e, he⟩, hle⟩ := h
    have hmem := mem_toList_iff_getElem?_eq_some.2 he
    exact ⟨(seq, e), List.mem_filter.2 ⟨hmem, decide_eq_true hle⟩, rfl⟩

lemma mem_removeWork {seqs : List PerspectiveSeq} :
    seq ∈ (idx.removeWork seqs).map Prod.fst ↔ seq ∈ idx.bySeq ∧ seq ∈ seqs := by
  rw [removeWork, List.mem_map, mem_iff]
  constructor
  · intro h
    obtain ⟨w, hw, rfl⟩ := h
    obtain ⟨s, hs, hsome⟩ := List.mem_filterMap.1 hw
    obtain ⟨e, he, rfl⟩ := map_eq_some_iff.1 hsome
    exact ⟨⟨e, he⟩, hs⟩
  · intro h
    obtain ⟨⟨e, he⟩, hs⟩ := h
    exact ⟨retireWorkOf (seq, e), List.mem_filterMap.2 ⟨seq, hs, by rw [he]; rfl⟩, rfl⟩

lemma retireLocked_alike {core : StoreCore} {g' : InMemIntentStore} {gone : PerspectiveSeq → Prop}
    [DecidablePred gone] (d : Disk)
    (hview : core.pendingIndex.view = g.view) (htidy : g.view.Tidy)
    (hretires : core.pendingIndex.Retires work)
    (hgone : ∀ seq, seq ∈ work.map Prod.fst ↔ seq ∈ core.pendingIndex.bySeq ∧ gone seq)
    (hg : g'.view.Tidy ∧ ∀ seq, g'.view.intentAt seq =
      if gone seq then none else g.view.intentAt seq) :
    (retireLocked work d core).mem.pendingIndex.view = g'.view := by
  obtain ⟨htidy', hat⟩ := walked_spec ⟨core.pendingIndex, ∅, []⟩ (hview ▸ htidy) hretires
  rw [retireLocked_pendingIndex]
  apply htidy'.ext hg.1
  funext seq
  rw [hat, hg.2, ← hview]
  by_cases hseq : gone seq
  · rw [if_pos hseq]
    split
    · rfl
    · rename_i hmem
      rw [hgone] at hmem
      apply eq_none_iff_forall_ne_some.2
      intro i hi
      exact hmem ⟨mem_iff_intentAt.2 ⟨i, hi⟩, hseq⟩
  · have hmem : seq ∉ work.map Prod.fst := by
      rw [hgone]
      intro h
      exact hseq h.2
    rw [if_neg hseq, if_neg hmem]

namespace Twins
variable {t t' : Twins} {op : Op}

structure Alike (t : Twins) : Prop where
  view : t.core.pendingIndex.view = t.memory.view
  tidy : t.memory.view.Tidy

lemma Alike.pending (h : t.Alike) : t.core.pending = t.memory.pending := by
  have hbySeq : t.core.pendingIndex.bySeq.map (fun _ e => e.1) = t.memory.bySeq := by
    apply ext_getElem?
    intro seq
    rw [getElem?_map]
    exact congrFun (congrArg intentAt h.view) seq
  rw [StoreCore.pending, InMemIntentStore.pending, ← hbySeq, Std.ExtTreeMap.toList_map,
    List.map_map]
  rfl

lemma alike_fresh (rotateThreshold : Nat) : (fresh rotateThreshold).Alike where
  view := rfl
  tidy := tidy_empty

lemma Alike.call (h : t.Alike) (hop : t.core.pendingIndex.Admits op.intents) :
    (op.execute t.disk t.core).value = (op.onMemory t.memory).1 ∧ (t.call op).Alike := by
  cases op with
  | put intent =>
    obtain ⟨hvalue, hview, htidy⟩ :=
      commitGroupsLocked_alike [[intent]] (d := t.disk) h.view h.tidy hop
    exact ⟨hvalue, hview, htidy⟩
  | putBatch intents =>
    cases intents with
    | nil => exact ⟨rfl, h.view, h.tidy⟩
    | cons i is =>
      have hflat : t.core.pendingIndex.Admits [i :: is].flatten := by
        rw [List.flatten_singleton]
        exact hop
      obtain ⟨hvalue, hview, htidy⟩ :=
        commitGroupsLocked_alike [i :: is] (d := t.disk) h.view h.tidy hflat
      exact ⟨hvalue, hview, htidy⟩
  | submitGroups groups =>
    obtain ⟨hvalue, hview, htidy⟩ := commitGroupsLocked_alike groups (d := t.disk) h.view h.tidy hop
    exact ⟨hvalue, hview, htidy⟩
  | prune upTo =>
    have hprune := InMemIntentStore.prune_view h.tidy upTo
    have hview := retireLocked_alike t.disk h.view h.tidy
      t.core.pendingIndex.retires_pruneWork (fun seq => mem_pruneWork) hprune
    exact ⟨rfl, hview, hprune.1⟩
  | removeSeq seq =>
    have hremove := InMemIntentStore.removeSeqs_view h.tidy [seq]
    have hview := retireLocked_alike t.disk h.view h.tidy
      t.core.pendingIndex.retires_removeWork (fun seq => mem_removeWork) hremove
    exact ⟨rfl, hview, hremove.1⟩
  | removeSeqs seqs =>
    have hremove := InMemIntentStore.removeSeqs_view h.tidy seqs
    have hview := retireLocked_alike t.disk h.view h.tidy
      t.core.pendingIndex.retires_removeWork (fun seq => mem_removeWork) hremove
    exact ⟨rfl, hview, hremove.1⟩

lemma Alike.agrees (h : t.Alike) (hop : t.core.pendingIndex.Admits op.intents) : t.Agrees op :=
  ⟨(h.call hop).1, (h.call hop).2.pending⟩

lemma Alike.run (h : t.Alike) (hrun : ReflTransGen Step t t') : t'.Alike := by
  induction hrun with
  | refl => exact h
  | tail _ hstep ih =>
    cases hstep with
    | call op hop => exact (ih.call hop).2

lemma put_pending {d : Disk} {core : StoreCore}
    (hseq : r.perspectiveSeq ∈ core.pendingIndex.bySeq) :
    (put r d core).value = [[.recorded]] ∧ (put r d core).mem.pendingIndex = core.pendingIndex := by
  obtain ⟨hvalue, hmem⟩ := commitGroupsLocked_result [[r]] d core
  have hskip : core.pendingIndex.classifyOne {} r = (.recorded, {}) := if_pos hseq
  have hgroups : core.pendingIndex.classifyGroups [[r]] {} = ([[.recorded]], {}) := by
    simp only [classifyGroups, classifyGroup, hskip]
  rw [hgroups] at hvalue hmem
  apply And.intro hvalue
  exact (congrArg StoreCore.pendingIndex hmem).trans (core.record_eq []).1

lemma Alike.admits_put (h : t.Alike) (hagrees : t.Agrees (.put r)) :
    t.core.pendingIndex.Admits [r] := by
  constructor
  · intro r' hr' i hi
    obtain rfl := List.mem_singleton.1 hr'
    obtain ⟨hvalue, hindex⟩ :=
      put_pending (d := t.disk) (mem_iff_intentAt.2 ⟨i, hi⟩)
    obtain ⟨houtcome, hpending⟩ := hagrees
    have hanswer : t.memory.view.answer r' = .recorded := by
      rw [← InMemIntentStore.put_eq.1]
      have hsame : [[PutOutcome.recorded]] = [[(t.memory.put r').1]] := hvalue.symm.trans houtcome
      simp only [List.cons.injEq, and_true] at hsame
      exact hsame.symm
    have hheld : r'.idempotencyKey.bind t.memory.view.holder = none := by
      rw [answer] at hanswer
      split at hanswer
      · cases hanswer
      · assumption
    rw [h.view] at hi
    -- the in-memory store has written the new intent over the pending one
    have hput : (t.memory.put r').2.view = t.memory.view.insert r' := by
      rw [InMemIntentStore.put_eq.2, View.put, hheld]
    have hlist : t.memory.pending = (t.memory.put r').2.pending := by
      rw [← h.pending]
      exact (congrArg (fun idx => idx.bySeq.toList.map fun entry => entry.2.1) hindex).symm.trans
        hpending
    have hown : ∀ seq j, (t.memory.put r').2.view.intentAt seq = some j →
        j.perspectiveSeq = seq := by
      intro seq j hj
      rw [hput] at hj
      simp only [View.insert, update_apply] at hj
      split at hj
      · obtain rfl := some.inj hj
        exact (‹seq = _›).symm
      · exact h.tidy.entry seq j hj
    have hmem : r' ∈ t.memory.pending := by
      rw [hlist, InMemIntentStore.mem_pending hown, hput]
      exact update_self _ _ _
    have hold := (InMemIntentStore.mem_pending h.tidy.entry).1 hmem
    obtain rfl := some.inj (hi.symm.trans hold)
    apply And.intro rfl
    cases hkey : i.idempotencyKey with
    | none => rfl
    | some key =>
      rw [hkey, bind_some, (h.tidy.holder key _).2 ⟨i, hold, hkey⟩] at hheld
      cases hheld
  · rw [show [r] = [] ++ [r] from rfl, newIntents_snoc]
    split
    · exact List.pairwise_singleton _ _
    · exact List.Pairwise.nil

end Twins

/-- In runs of admitted calls, and of no others, the two stores agree. -/
theorem intent_stores_agree {rotateThreshold : Nat} {t : Twins}
    (hrun : ReflTransGen Twins.Step (Twins.fresh rotateThreshold) t) :
    t.core.pending = t.memory.pending ∧
      (∀ op : Op, t.core.pendingIndex.Admits op.intents → t.Agrees op) ∧
      ∀ intent, t.Agrees (.put intent) ↔ t.core.pendingIndex.Admits [intent] := by
  have h := (Twins.alike_fresh rotateThreshold).run hrun
  apply And.intro h.pending
  apply And.intro fun op => h.agrees
  intro intent
  exact ⟨h.admits_put, fun hadmits => h.agrees hadmits⟩

end

def keyedIntent (physicalMs : UInt64) : WriteIntent :=
  { plainIntent physicalMs with idempotencyKey := some (.replicate 16 1) }

theorem intent_stores_agree_pruned :
    let t := ((Twins.fresh 1).call (.putBatch [keyedIntent 5, plainIntent 6])).call
      (.prune (plainIntent 5).perspectiveSeq)
    t.core.pending = [plainIntent 6] ∧ t.memory.pending = [plainIntent 6] := by
  intro t
  have hadmits : (Twins.fresh 1).core.pendingIndex.Admits [keyedIntent 5, plainIntent 6] := by
    constructor
    · intro r _ i hi
      cases hi
    · decide
  have hrun : ReflTransGen Twins.Step (Twins.fresh 1) t :=
    .tail (.single (.call (.putBatch _) hadmits))
      (.call (.prune _) ⟨List.forall_mem_nil _, .nil⟩)
  have hlist : t.core.pending = [plainIntent 6] := by
    decide
  exact ⟨hlist, (intent_stores_agree hrun).1.symm.trans hlist⟩

/-- A keyed intent put twice: recorded again, or a duplicate of itself. -/
theorem keyed_intent_resent_outcomes_differ : let t := (Twins.fresh 4).call (.put (keyedIntent 5))
    ((Op.put (keyedIntent 5)).execute t.disk t.core).value = [[.recorded]] ∧
      ((Op.put (keyedIntent 5)).onMemory t.memory).1 =
        [[.duplicate (keyedIntent 5).perspectiveSeq]] := by
  decide

/-- What `retire_locked` leaves in memory when its batch does not commit. -/
def StoreCore.retireRefused (core : StoreCore) (work : List RetireWork) : StoreCore :=
  { core with pendingIndex := (core.pendingIndex.walked work).index }

lemma retireLocked_commits (d : Disk) (core : StoreCore) (w : RetireWork) (ws : List RetireWork) :
    ∃ batch k, retireLocked (w :: ws) d core =
      (Prog.commit batch >>= k) d (core.retireRefused (w :: ws)) := by
  rw [retireLocked, Prog.read_mem_bind, Prog.modify_bind]
  exact ⟨_, _, rfl⟩

lemma retireRefused_eq_self_iff {core : StoreCore} {work : List RetireWork}
    {gone : PerspectiveSeq → Prop}
    (hgone : ∀ seq, seq ∈ work.map Prod.fst ↔ seq ∈ core.pendingIndex.bySeq ∧ gone seq) :
    core.retireRefused work = core ↔ ∀ seq ∈ core.pendingIndex.bySeq, ¬gone seq := by
  constructor
  · intro h seq hseq hg
    have hnone := (getElem?_removeAll ⟨core.pendingIndex, [], []⟩ seq).trans
      (if_pos ((hgone seq).2 ⟨hseq, hg⟩))
    rw [← h, mem_iff_isSome_getElem?] at hseq
    exact Bool.false_ne_true ((congrArg Option.isSome hnone).symm.trans hseq)
  · intro h
    cases work with
    | nil => rfl
    | cons w work =>
      obtain ⟨hmem, hg⟩ := (hgone w.1).1 List.mem_cons_self
      exact absurd hg (h _ hmem)

/-- A failed retire changes nothing exactly if it had nothing to retire. -/
theorem failed_retire_unchanged_iff (core : StoreCore) (upTo : PerspectiveSeq)
    (seqs : List PerspectiveSeq) :
    (core.retireRefused (core.pendingIndex.pruneWork upTo) = core ↔
        ∀ seq ∈ core.pendingIndex.bySeq, ¬seq ≤ upTo) ∧
      (core.retireRefused (core.pendingIndex.removeWork seqs) = core ↔
        ∀ seq ∈ core.pendingIndex.bySeq, seq ∉ seqs) :=
  ⟨retireRefused_eq_self_iff fun _ => mem_pruneWork,
    retireRefused_eq_self_iff fun _ => mem_removeWork⟩

theorem failed_prune_forgets_intent : ∃ core : StoreCore, core.pending = [plainIntent 5] ∧
    (core.retireRefused (core.pendingIndex.pruneWork ⟨5, 0, 1⟩)).pending = [] :=
  ⟨{ pendingIndex := { bySeq := (∅ : SeqMap _).insert ⟨5, 0, 1⟩ (plainIntent 5, 0) } },
    by decide, by decide⟩

end Kiseki.Intent
