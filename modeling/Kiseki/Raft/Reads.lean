import Kiseki.Raft.NoHoles
import Mathlib.Data.List.Sort

namespace Kiseki.Raft

open Std.ExtTreeMap Nat Prod
open List hiding keys mem_keys

def saturatingAdd (a b : Nat) : Nat := min (a + b) u64Max

section
variable [RaftRecord E]

def budgetLoop (byteBudget : Nat) :
    List (Nat × E) → List (Nat × E × Nat) → Nat → List (Nat × E × Nat)
  | [], out, _ => out
  | (key, val) :: rows, out, used =>
    let size := RaftRecord.encodedLen val
    if out ≠ [] ∧ saturatingAdd used size > byteBudget then out
    else if saturatingAdd used size > byteBudget then out ++ [(key, val, size)]
    else budgetLoop byteBudget rows (out ++ [(key, val, size)]) (saturatingAdd used size)

def LogDisk.rows (d : LogDisk E) (start stop : Nat) : List (Nat × E) :=
  d.log.toList.filter fun row => decide (start ≤ row.1 ∧ row.1 ≤ stop)

def LogDisk.rangeBudgeted (d : LogDisk E) (start stop byteBudget : Nat) : List (Nat × E × Nat) :=
  budgetLoop byteBudget (d.rows start stop) [] 0

/-- The cache lookups of `try_get_log_entries`, up to the first miss. -/
def lookupAll : List Nat → EntryCache E → Option (List E) × EntryCache E
  | [], cache => (some [], cache)
  | i :: is, cache =>
    match cache.get i with
    | (none, cache) => (none, cache)
    | (some hit, cache) => ((lookupAll is cache).1.map (hit.1 :: ·), (lookupAll is cache).2)

def walkBudgeted (budget : Nat) : List Nat → List E → Nat → EntryCache E → List E × EntryCache E
  | [], out, _, cache => (out, cache)
  | i :: is, out, used, cache =>
    match cache.get i with
    | (none, cache) => (out, cache)
    | (some hit, cache) =>
      if out ≠ [] ∧ saturatingAdd used hit.2 > budget then (out, cache)
      else if out = [] ∧ hit.2 > budget then (out ++ [hit.1], cache)
      else walkBudgeted budget is (out ++ [hit.1]) (saturatingAdd used hit.2) cache

def Stored (log : LogMap E) : Nat → List E → Prop
  | _, [] => True
  | i, e :: es => log[i]? = some e ∧ Stored log (i + 1) es

def totalLen (es : List E) : Nat := (es.map RaftRecord.encodedLen).sum

def Within (budget : Nat) (es : List E) : Prop := totalLen es ≤ budget ∨ es.length = 1

variable {log : LogMap E} {d : LogDisk E} {cache : EntryCache E} {es out : List E} {e : E}
  {i k m n used budget start stop : Nat}

omit [RaftRecord E] in
lemma Stored.take (h : Stored log i es) (m : Nat) : Stored log i (es.take m) := by
  induction es generalizing i m with
  | nil =>
    rw [take_nil]
    trivial
  | cons e es ih =>
    cases m with
    | zero => trivial
    | succ m => exact ⟨h.1, ih h.2 m⟩

omit [RaftRecord E] in
lemma Stored.of_rows {rows : List (Nat × E)} (hkeys : rows.map Prod.fst = List.range' i m)
    (h : ∀ row ∈ rows, log[row.1]? = some row.2) : Stored log i (rows.map Prod.snd) := by
  induction rows generalizing i m with
  | nil => trivial
  | cons row rows ih =>
    cases m with
    | zero => cases hkeys
    | succ m =>
      rw [map_cons, range'_succ] at hkeys
      obtain ⟨hkey, hkeys⟩ := cons.inj hkeys
      refine ⟨?_, ih hkeys fun row' hrow => h row' (mem_cons_of_mem _ hrow)⟩
      rw [← hkey]
      exact h row mem_cons_self

lemma totalLen_append_singleton : totalLen (es ++ [e]) = totalLen es + RaftRecord.encodedLen e := by
  simp only [totalLen, map_append, List.sum_append, map_cons, map_nil, sum_singleton]

lemma saturatingAdd_eq (hbudget : budget < u64Max) (h : ¬saturatingAdd used k > budget) :
    saturatingAdd used k = used + k := by
  rw [saturatingAdd] at h ⊢
  omega

omit [RaftRecord E] in
lemma LogMap.keys_filter (log : LogMap E) (p : Nat → Bool) (k n : Nat)
    (h : ∀ i, i ∈ log ∧ p i = true ↔ k ≤ i ∧ i < k + n) :
    (log.toList.filter fun row => p row.1).map Prod.fst = List.range' k n := by
  have hrows : (log.toList.filter fun row => p row.1).map fst = log.keys.filter p := by
    rw [← map_fst_toList_eq_keys, filter_map]
    rfl
  have hsorted : log.keys.Pairwise (· < ·) :=
    ordered_keys.imp fun hlt => Nat.compare_eq_lt.1 hlt
  rw [hrows]
  apply (hsorted.filter _).eq_of_mem_iff (pairwise_lt_range' 1)
  intro i
  rw [mem_filter, mem_keys, mem_range'_1]
  exact h i

lemma Contiguous.keys_rows (h : Contiguous d n) (hstart : nextIndex d.lastPurged ≤ start) :
    (d.rows start stop).map Prod.fst = List.range' start (min n (stop + 1) - start) := by
  apply LogMap.keys_filter d.log fun i => decide (start ≤ i ∧ i ≤ stop)
  intro i
  rw [h.mem, decide_eq_true_iff]
  omega

lemma Contiguous.stored_rows (h : Contiguous d n) (hstart : nextIndex d.lastPurged ≤ start)
    (stop : Nat) : Stored d.log start ((d.rows start stop).map Prod.snd) := by
  apply Stored.of_rows (h.keys_rows hstart)
  intro row hrow
  exact mem_toList_iff_getElem?_eq_some.1 (mem_filter.1 hrow).1

def sizedRow (row : Nat × E) : Nat × E × Nat := (row.1, row.2, RaftRecord.encodedLen row.2)

lemma budgetLoop_eq (rows : List (Nat × E)) (out : List (Nat × E × Nat)) (used : Nat) :
    ∃ m, budgetLoop budget rows out used = out ++ (rows.take m).map sizedRow := by
  induction rows generalizing out used with
  | nil => exact ⟨0, (append_nil out).symm⟩
  | cons row rows ih =>
    rw [budgetLoop]
    split
    · exact ⟨0, (append_nil out).symm⟩
    · split
      · exact ⟨1, rfl⟩
      · obtain ⟨m, hm⟩ := ih (out ++ [sizedRow row]) (saturatingAdd used _)
        refine ⟨m + 1, hm.trans ?_⟩
        rw [append_assoc]
        rfl

lemma budgetLoop_ne_nil (row : Nat × E) (rows : List (Nat × E)) :
    budgetLoop budget (row :: rows) [] used ≠ [] := by
  rw [budgetLoop]
  rw [if_neg fun h => h.1 rfl]
  split
  · exact cons_ne_nil _ _
  · obtain ⟨m, hm⟩ := budgetLoop_eq rows ([] ++ [sizedRow row])
      (saturatingAdd used (RaftRecord.encodedLen row.2))
    exact fun h => cons_ne_nil _ _ (hm.symm.trans h)

lemma budgetLoop_within (hbudget : budget < u64Max) (rows : List (Nat × E))
    (out : List (Nat × E × Nat)) (hused : used = totalLen (out.map fun p => p.2.1))
    (hle : used ≤ budget) :
    Within budget ((budgetLoop budget rows out used).map fun p => p.2.1) := by
  induction rows generalizing out used with
  | nil => exact .inl (hused ▸ hle)
  | cons row rows ih =>
    rw [budgetLoop]
    split
    · exact .inl (hused ▸ hle)
    · rename_i hcont
      split
      · rename_i hover
        have hnil : out = [] := Decidable.byContradiction fun hne => hcont ⟨hne, hover⟩
        rw [hnil]
        exact .inr rfl
      · rename_i hfits
        have hsum := saturatingAdd_eq hbudget hfits
        apply ih
        · rw [hsum, map_append, map_singleton, totalLen_append_singleton, hused]
        · exact Nat.le_of_not_lt hfits

lemma LogDisk.rangeBudgeted_sized (h : p ∈ d.rangeBudgeted start stop budget) :
    p.2.2 = RaftRecord.encodedLen p.2.1 := by
  obtain ⟨m, hm⟩ := budgetLoop_eq (d.rows start stop) [] 0
  rw [rangeBudgeted, hm, nil_append] at h
  obtain ⟨row, _, rfl⟩ := mem_map.1 h
  rfl

lemma Contiguous.stored_rangeBudgeted (h : Contiguous d n)
    (hstart : nextIndex d.lastPurged ≤ start) (stop budget : Nat) :
    Stored d.log start ((d.rangeBudgeted start stop budget).map fun p => p.2.1) := by
  obtain ⟨m, hm⟩ := budgetLoop_eq (d.rows start stop) [] 0
  rw [LogDisk.rangeBudgeted, hm, List.nil_append, List.map_map]
  have hstored := (h.stored_rows hstart stop).take m
  rw [← map_take] at hstored
  exact hstored

lemma LogDisk.rangeBudgeted_ne_nil (hmem : start ∈ d.log) (hle : start ≤ stop) :
    d.rangeBudgeted start stop budget ≠ [] := by
  obtain ⟨e, he⟩ := LogMap.mem_iff.1 hmem
  have hrow : (start, e) ∈ d.rows start stop :=
    mem_filter.2 ⟨mem_toList_iff_getElem?_eq_some.2 he,
      decide_eq_true ⟨le_refl start, hle⟩⟩
  rw [rangeBudgeted]
  cases hrows : d.rows start stop with
  | nil =>
    rw [hrows] at hrow
    exact absurd hrow not_mem_nil
  | cons row rows => exact budgetLoop_ne_nil row rows

/-- Above a floor, the entry of the log with its length. -/
def Mirrors (cache : EntryCache E) (log : LogMap E) (floor : Nat) : Prop :=
  ∀ p ∈ cache.entries, p.2.2 = RaftRecord.encodedLen p.2.1 ∧
    (log[p.1]? = some p.2.1 ∨ p.1 < floor)

variable {floor : Nat}

lemma Mirrors.get (h : Mirrors cache log floor) (i : Nat) : Mirrors (cache.get i).2 log floor :=
  fun p hp => h p (Lru.Cache.mem_get hp)

lemma Mirrors.of_hit (h : Mirrors cache log floor) (hi : floor ≤ i)
    (hit : (cache.get i).1 = some v) : v.2 = RaftRecord.encodedLen v.1 ∧ log[i]? = some v.1 := by
  obtain ⟨hsize, hlog⟩ := h (i, v) (Lru.Cache.mem_of_get hit)
  exact ⟨hsize, hlog.resolve_right (not_lt.2 hi)⟩

lemma Mirrors.insert (h : Mirrors cache d.log floor) (hd : Contiguous d n)
    (hes : Consecutive n es) : Mirrors cache ((Batch.insert es).apply d).log floor := by
  intro p hp
  obtain ⟨hsize, hcur⟩ := h p hp
  refine ⟨hsize, hcur.imp_left fun hcur => ?_⟩
  have hlt : p.1 < n := ((hd.mem p.1).1 (LogMap.mem_iff.2 ⟨_, hcur⟩)).2
  exact (getElem?_insert_untouched (hes.untouched hlt)).trans hcur

lemma Mirrors.putAll (h : Mirrors cache log floor) {ps : List (Nat × E × Nat)}
    (hps : ∀ p ∈ ps, p.2.2 = RaftRecord.encodedLen p.2.1 ∧
      (log[p.1]? = some p.2.1 ∨ p.1 < floor)) : Mirrors (cache.putAll ps) log floor := by
  intro p hp
  rcases Lru.Cache.mem_putAll hp with hp | hp
  · exact hps p hp
  · exact h p hp

lemma Mirrors.keysBefore (h : Mirrors cache d.log floor) {before : Nat} (hle : floor ≤ before) :
    Mirrors cache ((Batch.remove (d.keysBefore before)).apply d).log before := by
  intro p hp
  obtain ⟨hsize, hcur⟩ := h p hp
  refine ⟨hsize, ?_⟩
  rw [getElem?_keysBefore]
  by_cases hp : before ≤ p.1
  · rw [if_pos hp]
    exact .inl (hcur.resolve_right fun hlt => not_lt.2 (le_trans hle hp) hlt)
  · exact .inr (Nat.lt_of_not_le hp)

section
variable (h : Mirrors cache log floor)

include h

lemma Mirrors.lookupAll (is : List Nat) : Mirrors (Raft.lookupAll is cache).2 log floor := by
  induction is generalizing cache with
  | nil => exact h
  | cons i is ih =>
    have hget := h.get i
    rw [Raft.lookupAll]
    split
    · rename_i heq
      rw [heq] at hget
      exact hget
    · rename_i heq
      rw [heq] at hget
      exact ih hget

lemma Mirrors.stored_lookupAll (hi : floor ≤ i)
    (hout : (Raft.lookupAll (List.range' i m) cache).1 = some out) : Stored log i out := by
  induction m generalizing cache i out with
  | zero =>
    obtain rfl := Option.some.inj hout
    trivial
  | succ m ih =>
    have hget := h.get i
    rw [range'_succ, Raft.lookupAll] at hout
    split at hout
    · cases hout
    · rename_i hit cache' heq
      rw [heq] at hget
      obtain ⟨es, hes, rfl⟩ := Option.map_eq_some_iff.1 hout
      exact ⟨(h.of_hit hi (congrArg fst heq)).2, ih hget (le_succ_of_le hi) hes⟩

lemma Mirrors.walkBudgeted (is : List Nat) :
    Mirrors (Raft.walkBudgeted budget is out used cache).2 log floor := by
  induction is generalizing cache out used with
  | nil => exact h
  | cons i is ih =>
    have hget := h.get i
    rw [Raft.walkBudgeted]
    split
    · rename_i heq
      rw [heq] at hget
      exact hget
    · rename_i heq
      rw [heq] at hget
      split
      · exact hget
      · split
        · exact hget
        · exact ih hget

lemma Mirrors.stored_walkBudgeted (hi : floor ≤ i) (budget m : Nat) (out : List E) (used : Nat) :
    ∃ more, (Raft.walkBudgeted budget (List.range' i m) out used cache).1 = out ++ more ∧
      Stored log i more := by
  induction m generalizing cache i out used with
  | zero => exact ⟨[], (append_nil out).symm, trivial⟩
  | succ m ih =>
    have hget := h.get i
    rw [range'_succ, Raft.walkBudgeted]
    split
    · exact ⟨[], (append_nil out).symm, trivial⟩
    · rename_i hit cache' heq
      rw [heq] at hget
      have hlog := (h.of_hit hi (congrArg fst heq)).2
      split
      · exact ⟨[], (append_nil out).symm, trivial⟩
      · split
        · exact ⟨[hit.1], rfl, hlog, trivial⟩
        · obtain ⟨more, hmore, hstored⟩ :=
            ih hget (le_succ_of_le hi) (out ++ [hit.1]) (saturatingAdd used hit.2)
          refine ⟨hit.1 :: more, hmore.trans ?_, hlog, hstored⟩
          rw [append_assoc]
          rfl

lemma Mirrors.within_walkBudgeted (hbudget : budget < u64Max)
    (is : List Nat) (hused : used = totalLen out) (hle : used ≤ budget) :
    Within budget (Raft.walkBudgeted budget is out used cache).1 := by
  induction is generalizing cache out used with
  | nil => exact .inl (hused ▸ hle)
  | cons i is ih =>
    have hget := h.get i
    rw [Raft.walkBudgeted]
    split
    · exact .inl (hused ▸ hle)
    · rename_i hit cache' heq
      rw [heq] at hget
      have hsize := (h (i, hit) (Lru.Cache.mem_of_get (congrArg fst heq))).1
      split
      · exact .inl (hused ▸ hle)
      · rename_i hcont
        split
        · rename_i hover
          rw [hover.1]
          exact .inr rfl
        · rename_i hfits
          have hnot : ¬saturatingAdd used hit.2 > budget := by
            intro hgt
            have hnil : out = [] := Decidable.byContradiction fun hne => hcont ⟨hne, hgt⟩
            apply hfits ⟨hnil, ?_⟩
            rw [hused, hnil] at hgt
            exact lt_of_lt_of_le hgt (le_trans (min_le_left _ _) (zero_add _).le)
          have hsum := saturatingAdd_eq hbudget hnot
          apply ih hget
          · rw [hsum, totalLen_append_singleton, hused, hsize]
          · exact Nat.le_of_not_lt hnot

end

end

end Kiseki.Raft
