import Kiseki.Raft.LogStore

namespace Kiseki.Raft
open Crash Relation Std.ExtTreeMap Nat Triple Batch

def nextIndex : Option LogId → Nat
  | none => 0
  | some logId => logId.index + 1

def Consecutive [RaftEntry E] (n : Nat) : List E → Prop
  | [] => True
  | e :: es => indexOf e = n ∧ Consecutive (n + 1) es

variable {keys : List Nat}

section
variable [RaftEntry E] {d : LogDisk E} {es : List E} {e : E} {i n before after : Nat}

structure Contiguous (d : LogDisk E) (n : Nat) : Prop where
  start : nextIndex d.lastPurged ≤ n
  bound : n ≤ u64Max
  mem : ∀ i, i ∈ d.log ↔ nextIndex d.lastPurged ≤ i ∧ i < n
  index : ∀ i e, d.log[i]? = some e → indexOf e = i

lemma Contiguous.nextIndex_lastLogId (h : Contiguous d n) :
    nextIndex d.getLogState.lastLogId = n := by
  have hlast := LogMap.getLast?_keys d.log
  simp only [LogDisk.getLogState, LogDisk.lastIndex]
  cases hkeys : d.log.keys.getLast? with
  | none =>
    rw [hkeys] at hlast
    have hempty := (h.mem (nextIndex d.lastPurged)).not.1 (hlast _)
    have hstart := h.start
    simp only
    omega
  | some k =>
    rw [hkeys] at hlast
    obtain ⟨hk, hmax⟩ := hlast
    obtain ⟨e, he⟩ := LogMap.mem_iff.1 hk
    have hindex : indexOf e = k := h.index k e he
    obtain ⟨hlow, hlt⟩ := (h.mem k).1 hk
    have hlast' := hmax (n - 1) ((h.mem (n - 1)).2 (by omega))
    simp only [he, Option.map_some, nextIndex]
    change indexOf e + 1 = n
    omega

def Batch.Touches (i : Nat) : Batch E → Prop
  | .insert entries => ∃ e ∈ entries, indexOf e = i
  | .remove keys => i ∈ keys
  | _ => False

lemma getElem?_insert_untouched (h : ¬(insert es).Touches i) :
    ((insert es).apply d).log[i]? = d.log[i]? := by
  induction es generalizing d with
  | nil => rfl
  | cons e es ih =>
    have hrest : ¬(insert es).Touches i :=
      fun ⟨e', he', heq⟩ => h ⟨e', List.mem_cons_of_mem _ he', heq⟩
    have hne : indexOf e ≠ i := fun heq => h ⟨e, List.mem_cons_self, heq⟩
    refine (ih (d := (insert [e]).apply d) hrest).trans ?_
    exact LogMap.getElem?_insert.trans (if_neg hne)

section
variable (h : Consecutive n es)

include h

lemma Consecutive.untouched (hi : i < n) : ¬(insert es).Touches i := by
  induction es generalizing n with
  | nil => exact fun ⟨_, he, _⟩ => absurd he List.not_mem_nil
  | cons e es ih =>
    intro htouches
    obtain ⟨e', he', heq⟩ := htouches
    rcases List.mem_cons.1 he' with rfl | he'
    · have hindex := h.1
      omega
    · exact ih h.2 (lt_succ_of_lt hi) ⟨e', he', heq⟩

lemma Consecutive.getElem?_of_mem (he : e ∈ es) :
    ((insert es).apply d).log[indexOf e]? = some e := by
  induction es generalizing d n with
  | nil => exact absurd he List.not_mem_nil
  | cons e' es ih =>
    rcases List.mem_cons.1 he with rfl | he
    · have hlt : indexOf e < n + 1 := h.1 ▸ lt_succ_self n
      refine (getElem?_insert_untouched (d := (insert [e]).apply d)
        (h.2.untouched hlt)).trans ?_
      exact LogMap.getElem?_insert.trans (if_pos rfl)
    · exact ih (d := (insert [e']).apply d) h.2 he

lemma Consecutive.append {es' : List E}
    (h' : Consecutive (n + es.length) es') : Consecutive n (es ++ es') := by
  induction es generalizing n with
  | nil => exact h'
  | cons e es ih =>
    rw [List.length_cons, add_comm es.length, ← add_assoc] at h'
    exact ⟨h.1, ih h.2 h'⟩

lemma Consecutive.pairwise : es.Pairwise fun e e' => indexOf e < indexOf e' := by
  induction es generalizing n with
  | nil => exact .nil
  | cons e es ih =>
    refine .cons ?_ (ih h.2)
    intro e' he'
    by_contra hle
    exact h.2.untouched (Nat.lt_succ_of_le (h.1 ▸ Nat.le_of_not_lt hle)) ⟨e', he', rfl⟩

lemma Consecutive.getElem?_insert (hd : ∀ i, n ≤ i → d.log[i]? = none)
    (hi : n ≤ i) : ((insert es).apply d).log[i]? = es[i - n]? := by
  induction es generalizing d n with
  | nil => exact hd i hi
  | cons e es ih =>
    have hone (k : Nat) : ((insert [e]).apply d).log[k]? =
        if n = k then some e else d.log[k]? := by
      rw [← h.1]
      exact LogMap.getElem?_insert
    by_cases heq : i = n
    · have hlt : i < n + 1 := heq ▸ lt_succ_self n
      rw [heq, Nat.sub_self]
      refine (getElem?_insert_untouched (d := (insert [e]).apply d)
        (h.2.untouched (lt_succ_self n))).trans ?_
      rw [hone, if_pos rfl]
      rfl
    · have hlt : n + 1 ≤ i := lt_of_le_of_ne hi (Ne.symm heq)
      have hrest := ih (d := (insert [e]).apply d) h.2 (fun k hk => by
        rw [hone, if_neg (ne_of_lt hk)]
        exact hd k (le_of_succ_le hk)) hlt
      have hsub : i - n = i - (n + 1) + 1 := by omega
      rw [hsub]
      exact hrest

end

lemma mem_remove : i ∈ ((remove keys).apply d).log ↔ i ∈ d.log ∧ i ∉ keys := by
  simp only [apply, LogMap.mem_iff, LogMap.getElem?_eraseAll]
  by_cases hmem : i ∈ keys
  · rw [if_pos hmem]
    exact iff_of_false (fun ⟨_, h⟩ => nomatch h) fun h => h.2 hmem
  · rw [if_neg hmem]
    exact ⟨fun h => ⟨h, hmem⟩, fun h => h.1⟩

lemma getElem?_remove {keys : List Nat}
    (h : ((remove keys).apply d).log[i]? = some e) : d.log[i]? = some e := by
  simp only [apply, LogMap.getElem?_eraseAll] at h
  exact (Option.ite_none_left_eq_some.1 h).2

lemma getElem?_keysBefore (d : LogDisk E) (before i : Nat) :
    ((remove (d.keysBefore before)).apply d).log[i]? =
      if before ≤ i then d.log[i]? else none := by
  refine (LogMap.getElem?_eraseAll _).trans ?_
  by_cases hle : before ≤ i
  · have hnot : i ∉ d.keysBefore before :=
      fun hmem => not_lt.2 hle (LogDisk.mem_keysBefore.1 hmem).2
    rw [if_neg hnot, if_pos hle]
  · rw [if_neg hle]
    split
    · rfl
    · rename_i hnot
      rw [LogDisk.mem_keysBefore, not_and] at hnot
      exact getElem?_eq_none fun hmem => hnot hmem (Nat.lt_of_not_le hle)

section
variable (h : Contiguous d n)

include h

lemma Contiguous.insertOne (he : indexOf e = n) (hn : n + 1 ≤ u64Max) :
    Contiguous { d with log := d.log.insert (indexOf e) e } (n + 1) where
  start := le_succ_of_le h.start
  bound := hn
  mem := by
    intro i
    have hstart := h.start
    have hmem := h.mem i
    change _ ↔ nextIndex d.lastPurged ≤ i ∧ i < n + 1
    rw [LogMap.mem_iff] at hmem ⊢
    rw [LogMap.getElem?_insert]
    by_cases hi : indexOf e = i
    · rw [if_pos hi]
      exact iff_of_true ⟨e, rfl⟩ (by omega)
    · rw [if_neg hi, hmem]
      omega
  index := by
    intro i e' hi
    rw [LogMap.getElem?_insert] at hi
    by_cases heq : indexOf e = i
    · rw [if_pos heq] at hi
      rw [← Option.some.inj hi, heq]
    · rw [if_neg heq] at hi
      exact h.index i e' hi

lemma Contiguous.insert (hes : Consecutive n es) (hn : n + es.length ≤ u64Max) :
    Contiguous ((insert es).apply d) (n + es.length) := by
  induction es generalizing d n with
  | nil => exact h
  | cons e es ih =>
    rw [List.length_cons] at hn ⊢
    have hone := h.insertOne hes.1 (by omega)
    have hall := ih hone hes.2 (by omega)
    rw [add_assoc, add_comm 1] at hall
    exact hall

lemma Contiguous.removeSuffix {keys : List Nat}
    (hkeys : ∀ i, i ∈ d.log → (i ∈ keys ↔ before ≤ i)) :
    Contiguous ((remove keys).apply d) (max (nextIndex d.lastPurged) (min n before)) where
  start := le_max_left _ _
  bound := by
    have hstart := h.start
    have hbound := h.bound
    omega
  mem := by
    intro i
    rw [mem_remove]
    change _ ↔ nextIndex d.lastPurged ≤ i ∧ _
    have hmem := h.mem i
    constructor
    · intro hi
      have hnot := (hkeys i hi.1).not.1 hi.2
      have hin := hmem.1 hi.1
      omega
    · intro hi
      have hin : i ∈ d.log := hmem.2 (by omega)
      refine ⟨hin, fun hk => ?_⟩
      have hle := (hkeys i hin).1 hk
      omega
  index := fun i e he => h.index i e (getElem?_remove he)

lemma Contiguous.keysBefore_iff (i : Nat) (hi : i ∈ d.log) : i ∈ d.keysBefore u64Max ↔ 0 ≤ i := by
  have hlt := ((h.mem i).1 hi).2
  have hbound := h.bound
  rw [LogDisk.mem_keysBefore]
  exact iff_of_true ⟨hi, by omega⟩ (zero_le i)

lemma Contiguous.purge (p : LogId)
    (hforward : nextIndex d.lastPurged ≤ p.index + 1) (hp : p.index + 1 ≤ u64Max) :
    Contiguous ((setLastPurged p).apply
      ((remove (d.keysBefore (p.index + 1))).apply d)) (max n (p.index + 1)) where
  start := le_max_right _ _
  bound := Nat.max_le.2 ⟨h.bound, hp⟩
  mem := by
    intro i
    change i ∈ ((remove _).apply d).log ↔ p.index + 1 ≤ i ∧ _
    rw [mem_remove, LogDisk.mem_keysBefore, h.mem]
    omega
  index := fun i e he => h.index i e (getElem?_remove he)

end

end

inductive Op (E : Type) where
  | append (entries : List E)
  | truncateAfter (lastLogId : Option LogId)
  | purge (logId : LogId)
  | saveVote (vote : Vote)
  | saveCommitted (committed : Option LogId)

section
variable [RaftRecord E]

def Op.execute : Op E → Prog (LogDisk E) (EntryCache E) Unit
  | .append entries => Raft.append entries
  | .truncateAfter lastLogId => Raft.truncateAfter lastLogId
  | .purge logId => Raft.purge logId
  | .saveVote vote => Raft.saveVote vote
  | .saveCommitted committed => Raft.saveCommitted committed

def Op.Legal (d : LogDisk E) : Op E → Prop
  | .append entries => Consecutive (nextIndex d.getLogState.lastLogId) entries ∧
      nextIndex d.getLogState.lastLogId + entries.length ≤ u64Max
  | .purge logId => nextIndex d.lastPurged ≤ logId.index + 1 ∧ logId.index + 1 ≤ u64Max
  | _ => True

def Op.purged (d : LogDisk E) : Op E → Finset Nat
  | .purge logId => (d.keysBefore (logId.index + 1)).toFinset
  | _ => ∅

/-- No crash between the two commits of a purge. -/
def Op.CutAllowed (op : Op E) (d : LogDisk E) (cache : EntryCache E) (d' : LogDisk E) : Prop :=
  op.purged d = ∅ ∨ d' = (op.execute d cache).disk

/-- A store over time, with the indices its purges have removed. -/
structure System (E : Type) where
  disk : LogDisk E := {}
  cache : EntryCache E := ⟨defaultEntryCacheCap, []⟩
  removed : Finset Nat := ∅

inductive Step : System E → System E → Prop
  | run (op : Op E) (h : op.Legal d) : Step ⟨d, cache, removed⟩
      ⟨(op.execute d cache).disk, (op.execute d cache).mem, removed ∪ op.purged d⟩
  | crash : Step ⟨d, cache, removed⟩ ⟨d, ⟨defaultEntryCacheCap, []⟩, removed⟩
  | crashInside (op : Op E) (h : op.Legal d) (hcut : d' ∈ (op.execute d cache).cuts)
      (hallowed : op.CutAllowed d cache d') : Step ⟨d, cache, removed⟩
        ⟨d', ⟨defaultEntryCacheCap, []⟩, removed ∪ op.purged d⟩

variable {d d' : LogDisk E} {cache : EntryCache E} {removed : Finset Nat} {op : Op E}

def Good (d : LogDisk E) (removed : Finset Nat) : Prop :=
  (∃ n, Contiguous d n) ∧ ∀ i ∈ removed, i < nextIndex d.lastPurged

lemma removeKeys_triple {P : LogDisk E → Prop} (h : P d → P ((remove keys).apply d)) :
    Triple (fun d' _ => P d' ∧ d' = d) (removeKeys keys) (fun _ d' _ => P d') P := by
  apply Triple.ite
  · intro _
    exact ret fun d' v h => h.1
  · intro _
    apply commit
    intro d' v hp
    obtain ⟨hp, rfl⟩ := hp
    exact ⟨h hp, h hp⟩

lemma truncateAfter_triple (lastLogId : Option LogId) :
    Triple (fun d (_ : EntryCache E) => Good d removed) (truncateAfter lastLogId)
      (fun _ d _ => Good d removed) (Good · removed) := by
  apply bind (Q := fun _ d _ => Good d removed)
  · cases lastLogId with
    | none =>
      apply bind_disk
      intro d
      apply removeKeys_triple
      intro h
      obtain ⟨⟨n, hn⟩, hremoved⟩ := h
      exact ⟨⟨_, hn.removeSuffix hn.keysBefore_iff⟩, hremoved⟩
    | some logId =>
      apply bind_disk
      intro d
      apply removeKeys_triple
      intro h
      obtain ⟨⟨n, hn⟩, hremoved⟩ := h
      exact ⟨⟨_, hn.removeSuffix fun i hi => LogDisk.mem_keysAfter.trans (and_iff_right hi)⟩,
        hremoved⟩
  · intro _
    exact modify fun d v h => h

lemma append_triple (entries : List E) :
    Triple (fun d (_ : EntryCache E) => Good d removed ∧ (Op.append entries).Legal d)
      (append entries) (fun _ d _ => Good d removed) (Good · removed) := by
  apply bind (Q := fun _ d _ => Good d removed)
  · apply Triple.ite
    · intro _
      exact ret fun d v h => h.1
    · intro _
      apply commit
      intro d v h
      obtain ⟨⟨⟨n, hn⟩, hremoved⟩, hes, hlen⟩ := h
      rw [hn.nextIndex_lastLogId] at hes hlen
      have hgood : Good ((insert entries).apply d) removed :=
        ⟨⟨_, hn.insert hes hlen⟩, hremoved⟩
      exact ⟨hgood, hgood⟩
  · intro _
    exact modify fun d v h => h

omit [RaftRecord E] in
lemma mem_purged {p : LogId} (h : i ∈ (Op.purge p : Op E).purged d) : i < p.index + 1 :=
  (LogDisk.mem_keysBefore.1 (List.mem_toFinset.1 h)).2

variable {p : LogId}

lemma purge_good (h : Good d removed) (hlegal : (Op.purge p : Op E).Legal d) :
    Good ((setLastPurged p).apply
        ((remove (d.keysBefore (p.index + 1))).apply d))
      (removed ∪ (Op.purge p : Op E).purged d) := by
  obtain ⟨⟨n, hn⟩, hremoved⟩ := h
  obtain ⟨hforward, hp⟩ := hlegal
  refine ⟨⟨_, hn.purge p hforward hp⟩, ?_⟩
  intro i hi
  change i < p.index + 1
  rcases Finset.mem_union.1 hi with hi | hi
  · have hlt := hremoved i hi
    omega
  · exact mem_purged hi

lemma purge_triple :
    Triple (fun d' (_ : EntryCache E) => (Good d' removed ∧ (Op.purge p : Op E).Legal d') ∧ d' = d)
      (purge p) (fun _ d' _ => Good d' (removed ∪ (Op.purge p : Op E).purged d))
      (fun d' => (Op.purge p : Op E).purged d ≠ ∅ ∨
        Good d' (removed ∪ (Op.purge p : Op E).purged d)) := by
  let keys := d.keysBefore (p.index + 1)
  let middle := (remove keys).apply d
  apply bind (Q := fun _ d' _ => (Good d removed ∧ (Op.purge p : Op E).Legal d) ∧ d' = middle)
  · apply bind_disk
    intro d₀
    apply of_pure fun d' v h => h.2.symm.trans h.1.2
    intro heq
    rw [heq]
    apply Triple.ite
    · intro hnil
      apply ret
      intro d' v h
      obtain ⟨⟨h, rfl⟩, _⟩ := h
      refine ⟨h, ?_⟩
      change d' = (remove (d'.keysBefore (p.index + 1))).apply d'
      rw [hnil]
      rfl
    · intro hne
      apply commit
      intro d' v h
      obtain ⟨⟨h, rfl⟩, _⟩ := h
      exact ⟨⟨h, rfl⟩, .inl fun hempty => hne (List.toFinset_eq_empty_iff _ |>.1 hempty)⟩
  · intro _
    apply bind (Q := fun _ d' _ => Good d' (removed ∪ (Op.purge p : Op E).purged d))
    · apply commit
      intro d' v h
      obtain ⟨⟨hgood, hlegal⟩, rfl⟩ := h
      have hend := purge_good hgood hlegal
      exact ⟨hend, .inr hend⟩
    · intro _
      exact modify fun d v h => h

lemma setMeta_triple (b : Batch E)
    (hlog : ∀ d, (b.apply d).log = d.log) (hpurged : ∀ d, (b.apply d).lastPurged = d.lastPurged) :
    Triple (fun d (_ : EntryCache E) => Good d removed) (commitBatch b)
      (fun _ d _ => Good d removed) (Good · removed) := by
  apply commit
  intro d v h
  obtain ⟨⟨n, hn⟩, hremoved⟩ := h
  have hgood : Good (b.apply d) removed := by
    refine ⟨⟨n, ?_, hn.bound, ?_, ?_⟩, ?_⟩
    · rw [hpurged]
      exact hn.start
    · rw [hlog, hpurged]
      exact hn.mem
    · rw [hlog]
      exact hn.index
    · rw [hpurged]
      exact hremoved
  exact ⟨hgood, hgood⟩

lemma Op.triple_of_no_purge (hnone : op.purged d = ∅)
    (h : Triple (fun d (_ : EntryCache E) => Good d removed ∧ op.Legal d) op.execute
      (fun _ d _ => Good d removed) (Good · removed)) :
    Triple (fun d' (_ : EntryCache E) => (Good d' removed ∧ op.Legal d') ∧ d' = d) op.execute
      (fun _ d' _ => Good d' (removed ∪ op.purged d))
      (fun d' => op.purged d ≠ ∅ ∨ Good d' (removed ∪ op.purged d)) := by
  rw [hnone, Finset.union_empty]
  exact h.weaken (fun d' v h => h.1) (fun _ _ _ h => h) fun d' h => .inr h

lemma Op.execute_triple (op : Op E) (removed : Finset Nat) (d : LogDisk E) :
    Triple (fun d' (_ : EntryCache E) => (Good d' removed ∧ op.Legal d') ∧ d' = d) op.execute
      (fun _ d' _ => Good d' (removed ∪ op.purged d))
      (fun d' => op.purged d ≠ ∅ ∨ Good d' (removed ∪ op.purged d)) := by
  cases op with
  | append entries => exact triple_of_no_purge rfl (append_triple entries)
  | truncateAfter lastLogId =>
    apply triple_of_no_purge rfl
    exact (truncateAfter_triple lastLogId).weaken (fun d v h => h.1) (fun _ _ _ h => h)
      fun _ h => h
  | purge logId => exact purge_triple
  | saveVote vote =>
    apply triple_of_no_purge rfl
    exact (setMeta_triple (.setVote vote) (fun _ => rfl) fun _ => rfl).weaken
      (fun d v h => h.1) (fun _ _ _ h => h) fun _ h => h
  | saveCommitted committed =>
    apply triple_of_no_purge rfl
    exact (setMeta_triple (.setCommitted committed) (fun _ => rfl) fun _ => rfl).weaken
      (fun d v h => h.1) (fun _ _ _ h => h) fun _ h => h

lemma Step.good {s s' : System E} (hstep : Step s s') (h : Good s.disk s.removed) :
    Good s'.disk s'.removed := by
  cases hstep with
  | @run d cache removed op hlegal =>
    exact (op.execute_triple removed d d cache ⟨⟨h, hlegal⟩, rfl⟩).2
  | crash => exact h
  | @crashInside d cache d' removed op hlegal hcut hallowed =>
    obtain ⟨hcuts, hend⟩ := op.execute_triple removed d d cache ⟨⟨h, hlegal⟩, rfl⟩
    rcases hallowed with hnone | rfl
    · exact (hcuts d' hcut).resolve_left fun hne => hne hnone
    · exact hend

lemma good_empty : Good ({} : LogDisk E) ∅ := by
  refine ⟨⟨0, le_refl 0, zero_le _, ?_, ?_⟩, fun i hi => absurd hi (Finset.notMem_empty i)⟩
  · intro i
    exact iff_of_false not_mem_empty fun h => not_lt_zero i h.2
  · intro i e h
    change (∅ : LogMap E)[i]? = some e at h
    rw [getElem?_empty] at h
    cases h

lemma good_of_reachable {s : System E} (h : ReflTransGen Step {} s) : Good s.disk s.removed := by
  induction h with
  | refl => exact good_empty
  | tail _ hstep ih => exact hstep.good ih

/-- Without such a crash the log has no hole above the purge point. -/
theorem no_holes_after_crash {s : System E} (h : ReflTransGen Step {} s) :
    let state := s.disk.getLogState
    (∀ i, nextIndex state.lastPurgedLogId ≤ i → i < nextIndex state.lastLogId → i ∈ s.disk.log) ∧
      ∀ i ∈ s.removed, i < nextIndex state.lastLogId := by
  obtain ⟨⟨n, hn⟩, hremoved⟩ := good_of_reachable h
  simp only [hn.nextIndex_lastLogId]
  constructor
  · intro i hlow hlt
    exact (hn.mem i).2 ⟨hlow, hlt⟩
  · intro i hi
    exact lt_of_lt_of_le (hremoved i hi) hn.start

end

def threeAppended : LogDisk LogId :=
  (append [⟨1, 1, 0⟩, ⟨1, 1, 1⟩, ⟨1, 1, 2⟩] {} ⟨defaultEntryCacheCap, []⟩).disk

theorem no_holes_after_crash_purge :
    let d := (purge ⟨1, 1, 1⟩ threeAppended ⟨defaultEntryCacheCap, []⟩).disk
    let d' := (append [⟨1, 1, 3⟩] d ⟨defaultEntryCacheCap, []⟩).disk
    nextIndex d'.getLogState.lastPurgedLogId = 2 ∧ nextIndex d'.getLogState.lastLogId = 4 ∧
      2 ∈ d'.log := by
  refine ⟨rfl, rfl, ?_⟩
  have hrun : ReflTransGen Step ({} : System LogId) _ :=
    .tail (.tail (.tail (.single (.run (.append [⟨1, 1, 0⟩, ⟨1, 1, 1⟩, ⟨1, 1, 2⟩])
      ⟨⟨rfl, rfl, rfl, trivial⟩, by decide⟩)) (.run (.purge ⟨1, 1, 1⟩) ⟨by decide, by decide⟩))
      .crash) (.run (.append [⟨1, 1, 3⟩]) ⟨⟨rfl, trivial⟩, by decide⟩)
  exact (no_holes_after_crash hrun).1 2 (le_refl 2) (by decide)

/-- Cut between its commits, a purge leaves a log starting at 2. -/
theorem cut_purge_leaves_hole :
    ∃ d ∈ (purge ⟨1, 1, 1⟩ threeAppended ⟨defaultEntryCacheCap, []⟩).cuts,
      d.getLogState = ⟨none, some ⟨1, 1, 2⟩⟩ ∧ 0 ∉ d.log ∧ 1 ∉ d.log :=
  ⟨_, .head _, by decide, by decide, by decide⟩

end Kiseki.Raft
