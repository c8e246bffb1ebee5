import Kiseki.Intent.Reopen

namespace Kiseki.Intent
open Crash Log Std.ExtTreeMap Triple List Option

inductive Op where
  | put (intent : WriteIntent)
  | putBatch (intents : List WriteIntent)
  | submitGroups (groups : List (List WriteIntent))
  | prune (upTo : PerspectiveSeq)
  | removeSeq (seq : PerspectiveSeq)
  | removeSeqs (seqs : List PerspectiveSeq)

def Op.execute : Op → Prog Disk StoreCore (List (List PutOutcome))
  | .put intent => Intent.put intent
  | .putBatch intents => Intent.putBatch intents
  | .submitGroups groups => commitGroupsLocked groups
  | .prune upTo => do
    Intent.prune upTo
    pure []
  | .removeSeq seq => do
    Intent.removeSeq seq
    pure []
  | .removeSeqs seqs => do
    Intent.removeSeqs seqs
    pure []

/-- Puts reported as recorded make their seqs live, retires take theirs out. -/
def Ghost.after (g : Ghost) (core : StoreCore) : Op → List (List PutOutcome) → Ghost
  | .put intent, outcomes => g.record (reported [[intent]] outcomes)
  | .putBatch intents, outcomes => g.record (reported [intents] outcomes)
  | .submitGroups groups, outcomes => g.record (reported groups outcomes)
  | .prune upTo, _ => g.retire ((core.pendingIndex.pruneWork upTo).map Prod.fst)
  | .removeSeq seq, _ => g.retire ((core.pendingIndex.removeWork [seq]).map Prod.fst)
  | .removeSeqs seqs, _ => g.retire ((core.pendingIndex.removeWork seqs).map Prod.fst)

variable {core₀ : StoreCore}

lemma putBatch_triple (g : Ghost) (intents : List WriteIntent) :
    ∃ outcomes, Triple (fun d core => core.Ok d g ∧ core = core₀) (putBatch intents)
      (fun r d core => r = outcomes ∧ core.Ok d (g.record (reported [intents] outcomes)))
      (Disk.Ok · (g.record (reported [intents] outcomes))) := by
  cases intents with
  | nil =>
    refine ⟨[[]], ret ?_⟩
    rintro d v ⟨h, _⟩
    have hsame : g.record (reported [[]] [[]]) = g := by
      simp only [reported, reportedIn, Ghost.record, zip_cons_cons, zip_nil_left, flatMap_cons,
        flatMap_nil, filter_nil, map_nil, append_nil, toFinset_nil, Finset.union_empty]
    rw [hsame]
    exact ⟨rfl, h⟩
  | cons i is => exact ⟨_, commitGroupsLocked_triple⟩

lemma PendingIndex.retires_pruneWork (idx : PendingIndex) {upTo : PerspectiveSeq} :
    idx.Retires (idx.pruneWork upTo) := by
  intro w hw i hi
  obtain ⟨⟨seq, e⟩, he, rfl⟩ := mem_map.1 hw
  have hentry := mem_toList_iff_getElem?_eq_some.1 (mem_filter.1 he).1
  simp only [view, retireWorkOf, hentry, map_some, some.injEq] at hi
  exact hi ▸ rfl

lemma PendingIndex.retires_removeWork (idx : PendingIndex) {seqs : List PerspectiveSeq} :
    idx.Retires (idx.removeWork seqs) := by
  intro w hw i hi
  obtain ⟨seq, _, hseq⟩ := mem_filterMap.1 hw
  obtain ⟨e, hentry, rfl⟩ := map_eq_some_iff.1 hseq
  simp only [view, retireWorkOf, hentry, map_some, some.injEq] at hi
  exact hi ▸ rfl

lemma retire_triple (g : Ghost) (workOf : StoreCore → List RetireWork)
    (hwork : ∀ core : StoreCore, core.pendingIndex.Retires (workOf core)) :
    Triple (fun d core => core.Ok d g ∧ core = core₀)
      (do
        Prog.mem >>= fun core => retireLocked (workOf core)
        pure ([] : List (List PutOutcome)))
      (fun r d core => r = [] ∧ core.Ok d (g.retire ((workOf core₀).map Prod.fst)))
      (Disk.Ok · (g.retire ((workOf core₀).map Prod.fst))) := by
  apply bind (Q := fun _ d core => core.Ok d (g.retire ((workOf core₀).map Prod.fst)))
  · apply bind_mem
    intro core
    apply of_pure fun d v h => h.2.symm.trans h.1.2
    rintro rfl
    exact (retireLocked_triple).weaken (fun d v h => ⟨h.1.1, h.2 ▸ hwork v⟩)
      (fun _ _ _ h => h) fun _ h => h
  · intro _
    exact ret fun d v h => ⟨rfl, h⟩

lemma Op.execute_triple (op : Op) (g : Ghost) (core₀ : StoreCore) :
    ∃ outcomes, Triple (fun d core => core.Ok d g ∧ core = core₀) op.execute
      (fun r d core => r = outcomes ∧ core.Ok d (g.after core₀ op outcomes))
      (Disk.Ok · (g.after core₀ op outcomes)) := by
  cases op with
  | put intent => exact putBatch_triple g [intent]
  | putBatch intents => exact putBatch_triple g intents
  | submitGroups groups => exact ⟨_, commitGroupsLocked_triple⟩
  | prune upTo => exact ⟨[], retire_triple g (fun core => core.pendingIndex.pruneWork upTo)
      fun core => core.pendingIndex.retires_pruneWork⟩
  | removeSeq seq => exact ⟨[], retire_triple g (fun core => core.pendingIndex.removeWork [seq])
      fun core => core.pendingIndex.retires_removeWork⟩
  | removeSeqs seqs => exact ⟨[], retire_triple g (fun core => core.pendingIndex.removeWork seqs)
      fun core => core.pendingIndex.retires_removeWork⟩

structure System where
  disk : Disk := {}
  core : Option StoreCore := none
  ghost : Ghost := {}

inductive Step : System → System → Prop
  | run (op : Op) : Step ⟨d, some core, g⟩
      ⟨(op.execute d core).disk, some (op.execute d core).mem,
        g.after core op (op.execute d core).value⟩
  | crash : Step ⟨d, some core, g⟩ ⟨d, none, g⟩
  | crashInside (op : Op) (h : d' ∈ (op.execute d core).cuts) : Step ⟨d, some core, g⟩
      ⟨d', none, g.after core op (op.execute d core).value⟩
  | reopen (rotateThreshold : Nat) (h : (openWithRotate rotateThreshold d {}).value = .ok ()) :
      Step ⟨d, none, g⟩ ⟨(openWithRotate rotateThreshold d {}).disk,
        some (openWithRotate rotateThreshold d {}).mem, g⟩
  | crashInReopen (rotateThreshold : Nat) (h : d' ∈ (openWithRotate rotateThreshold d {}).cuts) :
      Step ⟨d, none, g⟩ ⟨d', none, g⟩

def System.Ok (s : System) : Prop :=
  match s.core with
  | none => s.disk.Ok s.ghost
  | some core => core.Ok s.disk s.ghost

lemma System.Ok.disk (h : System.Ok s) : s.disk.Ok s.ghost := by
  obtain ⟨d, core, g⟩ := s
  cases core with
  | none => exact h
  | some core => exact StoreCore.Ok.disk h

lemma Step.ok (hstep : Step s s') (h : s.Ok) : s'.Ok := by
  cases hstep with
  | @run d core g op =>
    obtain ⟨outcomes, htriple⟩ := op.execute_triple g core
    obtain ⟨_, hvalue, hok⟩ := htriple d core ⟨h, rfl⟩
    rw [hvalue]
    exact hok
  | crash => exact StoreCore.Ok.disk h
  | @crashInside d core d' g op hcut =>
    obtain ⟨outcomes, htriple⟩ := op.execute_triple g core
    obtain ⟨hcuts, hvalue, _⟩ := htriple d core ⟨h, rfl⟩
    rw [hvalue]
    exact hcuts d' hcut
  | @reopen d g rotateThreshold _ =>
    exact ((openWithRotate_triple) d {} h).2.2
  | @crashInReopen d d' g rotateThreshold hcut =>
    exact ((openWithRotate_triple) d {} h).1 d' hcut

lemma System.ok_empty : System.Ok {} where
  version := .inl rfl
  listed := nofun
  rows := by
    intro no seq v hv
    have hempty : (({} : Disk).keyspace no) = ∅ := rfl
    rw [hempty, getElem?_empty] at hv
    cases hv
  live := fun seq hseq => absurd hseq (Finset.notMem_empty seq)

lemma ok_of_reachable (h : Relation.ReflTransGen Step {} s) : s.Ok := by
  induction h with
  | refl => exact System.ok_empty
  | tail _ hstep ih => exact hstep.ok ih

/-- A reopen finds every live intent, and nothing that was not recorded. -/
theorem reopen_keeps_live {s : System} (h : Relation.ReflTransGen Step {} s)
    (rotateThreshold : Nat) :
    (openWithRotate rotateThreshold s.disk {}).value = .ok () ∧
      (∀ seq ∈ s.ghost.live, ∃ i ∈ (openWithRotate rotateThreshold s.disk {}).mem.pending,
        i.perspectiveSeq = seq) ∧
      (∀ i ∈ (openWithRotate rotateThreshold s.disk {}).mem.pending, i ∈ s.ghost.recorded ∧
        (i.perspectiveSeq ∈ s.ghost.live ∨ i.perspectiveSeq ∈ s.ghost.retired)) ∧
      ∀ seq ∈ s.ghost.live, isBelow s.disk.incorporatedBelow seq = false := by
  have hdisk := (ok_of_reachable h).disk
  obtain ⟨_, hvalue, hok⟩ := openWithRotate_triple s.disk {} hdisk
  refine ⟨hvalue, ?_, ?_, ?_⟩
  · intro seq hseq
    obtain ⟨⟨i, no⟩, hentry⟩ := SeqMap.mem_iff.1 (hok.live seq hseq)
    refine ⟨i, ?_, (hok.mirrors seq i no hentry).1⟩
    exact mem_map.2 ⟨(seq, i, no), mem_toList_iff_getElem?_eq_some.2 hentry, rfl⟩
  · intro i hi
    obtain ⟨⟨seq, i, no⟩, hentry, rfl⟩ := mem_map.1 hi
    rw [mem_toList_iff_getElem?_eq_some] at hentry
    obtain ⟨rfl, _, hrow, _⟩ := hok.mirrors seq i no hentry
    exact hok.rows no i.perspectiveSeq i.value hrow
  · intro seq hseq
    obtain ⟨_, _, _, _, _, hbelow⟩ := hdisk.live seq hseq
    exact hbelow

theorem reopen_keeps_live_put : let o := openWithRotate 1 {} {}
    let o' := (Op.put (plainIntent 5)).execute o.disk o.mem
    ∃ i ∈ (openWithRotate 1 o'.disk {}).mem.pending, i.perspectiveSeq = ⟨5, 0, 1⟩ :=
  (reopen_keeps_live (.tail (.single (.reopen 1 rfl)) (.run (.put (plainIntent 5)))) 1).2.1 _
    (by decide)

end Kiseki.Intent
