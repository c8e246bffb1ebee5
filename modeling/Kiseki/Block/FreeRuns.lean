import Kiseki.Block.Allocator
import Mathlib.Algebra.BigOperators.Ring.Finset

namespace Kiseki.Block
open Runs List Nat Extent FreeList Finset

namespace FreeList
variable {m : FreeList} {p p' : Nat → Prop} {s t l n k v block offset bound : Nat}

lemma getElem?_insert : (m.insert s v)[t]? = if s = t then some v else m[t]? := by
  rw [Std.ExtTreeMap.getElem?_insert]
  simp only [Std.LawfulEqCmp.compare_eq_iff_eq]

lemma getElem?_erase : (m.erase s)[t]? = if s = t then none else m[t]? := by
  rw [Std.ExtTreeMap.getElem?_erase]
  simp only [Std.LawfulEqCmp.compare_eq_iff_eq]

lemma mem_toList : (s, l) ∈ m.toList ↔ m[s]? = some l :=
  Std.ExtTreeMap.mem_toList_iff_getElem?_eq_some

lemma sorted_toList (m : FreeList) : m.toList.Pairwise fun r r' => r.1 < r'.1 := by
  apply m.ordered_keys_toList.imp
  intro r r' h
  exact Nat.compare_eq_lt.1 h

lemma entryBelow_eq_some (h : m.entryBelow block = some (s, l)) :
    m[s]? = some l ∧ s < block ∧ ∀ t k, m[t]? = some k → t < block → t ≤ s := by
  obtain ⟨before, hsplit⟩ := getLast?_eq_some_iff.1 h
  have hmem : ∀ r, r ∈ before ++ [(s, l)] ↔ r ∈ m.toList ∧ r.1 < block := by
    intro r
    rw [← hsplit, mem_filter, decide_eq_true_eq]
  have hsorted := m.sorted_toList.filter fun entry => decide (entry.1 < block)
  rw [hsplit] at hsorted
  obtain ⟨hin, hlt⟩ := (hmem (s, l)).1 (mem_append_right _ mem_cons_self)
  apply And.intro (mem_toList.1 hin)
  apply And.intro hlt
  intro t k ht htlt
  rcases mem_append.1 ((hmem (t, k)).2 ⟨mem_toList.2 ht, htlt⟩) with hbefore | hlast
  · exact ((pairwise_append.1 hsorted).2.2 (t, k) hbefore (s, l) mem_cons_self).le
  · obtain ⟨rfl, rfl⟩ := Prod.mk.inj (List.mem_singleton.1 hlast)
    exact le_rfl

lemma entryBelow_eq_none (h : m.entryBelow block = none) (ht : m[t]? = some k) : ¬t < block := by
  intro hlt
  have hnil := getLast?_eq_none_iff.1 h
  have hin : (t, k) ∈ m.toList.filter fun entry => decide (entry.1 < block) :=
    mem_filter.2 ⟨mem_toList.2 ht, decide_eq_true hlt⟩
  rw [hnil] at hin
  exact absurd hin not_mem_nil

lemma bestFit_eq_some (h : m.bestFit n = some (s, l)) :
    m[s]? = some l ∧ n ≤ l ∧ ∀ t k : Nat, m[t]? = some k → n ≤ k → l ≤ k := by
  obtain ⟨hin, hle⟩ := mem_filter.1 (argmin_mem (Option.mem_def.2 h))
  apply And.intro (mem_toList.1 hin)
  apply And.intro (of_decide_eq_true hle)
  intro t k ht hk
  exact le_of_mem_argmin (mem_filter.2 ⟨mem_toList.2 ht, decide_eq_true hk⟩) (Option.mem_def.2 h)

lemma bestFit_eq_none : m.bestFit n = none ↔ ∀ t k : Nat, m[t]? = some k → k < n := by
  rw [bestFit, argmin_eq_none, filter_eq_nil_iff]
  constructor
  · intro h t k ht
    have hnot := h (t, k) (mem_toList.2 ht)
    rw [decide_eq_true_eq] at hnot
    exact Nat.lt_of_not_le hnot
  · intro h r hr
    have hlt := h r.1 r.2 (mem_toList.1 hr)
    rw [decide_eq_true_eq]
    exact Nat.not_le_of_lt hlt

lemma getElem?_coalesceNext (hs : m[s]? = some l) :
    (m.coalesceNext s)[t]? =
      if t = s then some (l + m[s + l]?.getD 0) else if t = s + l then none else m[t]? := by
  rw [coalesceNext, hs]
  dsimp only
  cases hnext : m[s + l]? with
  | none =>
    dsimp only
    by_cases hts : t = s
    · rw [if_pos hts, hts, hs]
      rfl
    · rw [if_neg hts]
      by_cases htn : t = s + l
      · rw [if_pos htn, htn, hnext]
      · rw [if_neg htn]
  | some next =>
    dsimp only
    rw [getElem?_insert, getElem?_erase]
    by_cases hts : t = s
    · rw [if_pos hts, if_pos hts.symm]
      rfl
    · rw [if_neg hts, if_neg (Ne.symm hts)]
      by_cases htn : t = s + l
      · rw [if_pos htn, if_pos htn.symm]
      · rw [if_neg htn, if_neg (Ne.symm htn)]

lemma lists_split (h : Lists (fun t => m[t]?) p) (hbound : ∀ i, p i → i < bound)
    (hs : m[s]? = some l) (hn : 0 < n) (hle : n ≤ l)
    (hp : ∀ i, p' i ↔ p i ∧ ¬(s ≤ i ∧ i < s + n)) :
    Lists (fun t => (m.split s l n)[t]?) p' := by
  apply h.take hbound ((h s l).1 hs) hn hle hp
  intro t
  rw [split]
  by_cases hlt : n < l
  · rw [if_pos hlt, getElem?_insert, getElem?_erase]
    by_cases hts : t = s
    · rw [if_pos hts, if_neg (by omega), if_pos hts.symm]
    · rw [if_neg hts]
      by_cases htn : t = s + n
      · rw [if_pos htn.symm, if_pos ⟨htn, hlt⟩]
      · rw [if_neg (Ne.symm htn), if_neg (Ne.symm hts), if_neg fun h => htn h.1]
  · rw [if_neg hlt, getElem?_erase]
    by_cases hts : t = s
    · rw [if_pos hts, if_pos hts.symm]
    · rw [if_neg hts, if_neg (Ne.symm hts), if_neg fun h => hlt h.2]

lemma lists_coalesce (h : Lists (fun t => m[t]?) p) (hbound : ∀ i, p i → i < bound)
    (hgap : ∀ i, s ≤ i → i < s + n → ¬p i) (hn : 0 < n)
    (hp : ∀ i, p' i ↔ p i ∨ s ≤ i ∧ i < s + n) :
    Lists (fun t => (coalesce (m.insert s n) s)[t]?) p' := by
  have hs := hgap s le_rfl (by omega)
  have hms : m[s]? = none := h.eq_none hs
  have hnext : StartsAt p (s + n) (m[s + n]?.getD 0) := by
    apply h.startsAt hbound
    intro i hi
    exact hgap i (by omega) (by omega)
  have hstop : (m.insert s n)[s + n]? = m[s + n]? := by
    rw [getElem?_insert, if_neg (by omega)]
  -- without a neighbour on the left the new run keeps its start
  have halone (hprev : ∀ t k, m[t]? = some k → t + k ≠ s) :
      Lists (fun t => (coalesceNext (m.insert s n) s)[t]?) p' := by
    apply h.give hbound hgap hn (h.endsAt_zero hbound hs hprev) hnext hp
    intro t
    have hself : (m.insert s n)[s]? = some n := by rw [getElem?_insert, if_pos rfl]
    rw [getElem?_coalesceNext hself, hstop, Nat.sub_zero, Nat.zero_add]
    by_cases hts : t = s
    · rw [if_pos hts, if_pos hts]
    · rw [if_neg hts, if_neg hts, getElem?_insert, if_neg (Ne.symm hts)]
  have hbelow : ∀ t k, m[t]? = some k → t + k = s → (m.insert s n)[t]? = some k ∧ t < s := by
    intro t k ht hend
    have hpos := ((h t k).1 ht).pos
    rw [getElem?_insert, if_neg (by omega)]
    exact ⟨ht, by omega⟩
  rw [coalesce]
  split
  · rename_i hnone
    apply halone
    intro t k ht hend
    obtain ⟨hin, hlt⟩ := hbelow t k ht hend
    exact entryBelow_eq_none hnone hin hlt
  · rename_i q ql hsome
    obtain ⟨hq, hqs, hlast⟩ := entryBelow_eq_some hsome
    rw [getElem?_insert, if_neg (by omega)] at hq
    have hrun := (h q ql).1 hq
    split
    · -- the run on the left takes the new one in
      rename_i hend
      apply h.give hbound hgap hn (hrun.endsAt hend) hnext hp
      intro t
      have hcur : (m.insert s n)[s]?.getD 0 = n := by rw [getElem?_insert, if_pos rfl]; rfl
      have hlen : q + (ql + n) = s + n := by omega
      dsimp only
      rw [hcur]
      have hself : (((m.insert s n).erase s).insert q (ql + n))[q]? = some (ql + n) := by
        rw [getElem?_insert, if_pos rfl]
      have hmerged : (((m.insert s n).erase s).insert q (ql + n))[s + n]? = m[s + n]? := by
        rw [getElem?_insert, if_neg (by omega), getElem?_erase, if_neg (by omega), hstop]
      rw [getElem?_coalesceNext hself, hlen, hmerged, show s - ql = q by omega]
      by_cases htq : t = q
      · rw [if_pos htq, if_pos htq]
      · rw [if_neg htq, if_neg htq]
        by_cases htn : t = s + n
        · rw [if_pos htn, if_pos htn]
        · rw [if_neg htn, if_neg htn, getElem?_insert, if_neg (Ne.symm htq), getElem?_erase]
          by_cases hts : s = t
          · rw [if_pos hts, ← hts, hms]
          · rw [if_neg hts, getElem?_insert, if_neg hts]
    · rename_i hend
      apply halone
      intro t k ht htend
      obtain ⟨hin, hlt⟩ := hbelow t k ht htend
      have hle := hlast t k hin hlt
      obtain ⟨rfl, rfl⟩ := ((h t k).1 ht).eq_of_mem hrun (i := q) hle (by omega) le_rfl
        (Nat.lt_add_of_pos_right hrun.pos)
      exact hend htend

end FreeList

structure Scan.Upto (st : Scan) (bitmap : Bytes) (block : Nat) : Prop where
  lists : Lists (fun t => (st.close block)[t]?) fun i => i < block ∧ getBit bitmap i = false
  closed : st.runStart = none → ∀ i, i + 1 = block → getBit bitmap i = true
  started : ∀ s, st.runStart = some s → s < block

variable {bitmap : Bytes}

lemma Scan.upto_zero : Scan.Upto {} bitmap 0 where
  lists := by
    intro t k
    apply iff_of_false
    · change ¬(∅ : FreeList)[t]? = some k
      rw [Std.ExtTreeMap.getElem?_empty]
      intro h
      cases h
    · intro h
      exact absurd (h.all t le_rfl (Nat.lt_add_of_pos_right h.pos)).1 (Nat.not_lt_zero t)
  closed := by
    intro _ i hi
    omega
  started := by
    intro s h
    cases h

lemma free_succ {block : Nat} (hfree : getBit bitmap block = false) (i : Nat) :
    (i < block + 1 ∧ getBit bitmap i = false) ↔
      (i < block ∧ getBit bitmap i = false) ∨ block ≤ i ∧ i < block + 1 := by
  rw [Nat.lt_succ_iff_lt_or_eq, or_and_right]
  refine or_congr_right ⟨by omega, fun hi => ?_⟩
  obtain rfl : i = block := by omega
  exact ⟨rfl, hfree⟩

section
variable {st : Scan} {block : Nat} (h : st.Upto bitmap block)

include h

lemma Scan.Upto.step_used (hbit : getBit bitmap block = true) :
    Upto { freeList := st.close block, runStart := none } bitmap (block + 1) := by
  have hsame : (fun i => i < block + 1 ∧ getBit bitmap i = false) =
      fun i => i < block ∧ getBit bitmap i = false := by
    funext i
    rw [Nat.lt_succ_iff_lt_or_eq, or_and_right, eq_iff_iff, or_iff_left]
    rintro ⟨rfl, hi⟩
    exact absurd (hi.symm.trans hbit) Bool.false_ne_true
  constructor
  · rw [hsame]
    exact h.lists
  · intro _ i hi
    obtain rfl : i = block := by omega
    exact hbit
  · intro s hs
    cases hs

/-- A run starts at a free block. -/
lemma Scan.Upto.step_open (hfree : getBit bitmap block = false) (hstart : st.runStart = none) :
    Upto { st with runStart := some block } bitmap (block + 1) := by
  have hlists := h.lists
  rw [Scan.close, hstart] at hlists
  constructor
  · apply hlists.give (fun _ hi => hi.1) (by omega) zero_lt_one _ (startsAt_zero (by omega))
      (free_succ hfree)
    · intro t
      change (st.freeList.insert block (block + 1 - block))[t]? = _
      rw [getElem?_insert, Nat.sub_zero, Nat.add_sub_cancel_left]
      by_cases ht : t = block
      · rw [if_pos ht, if_pos ht.symm]
        rfl
      · rw [if_neg ht, if_neg (Ne.symm ht)]
        by_cases htn : t = block + 1
        · rw [if_pos htn, htn]
          apply hlists.eq_none
          intro hin
          omega
        · rw [if_neg htn]
    · apply endsAt_zero
      intro i hi hin
      rw [h.closed hstart i hi] at hin
      cases hin.2
  · intro hnone
    cases hnone
  · intro s hs
    obtain rfl := Option.some.inj hs
    exact lt_succ_self block

/-- The run that is open takes a free block in. -/
lemma Scan.Upto.step_extend {start : Nat} (hfree : getBit bitmap block = false)
    (hstart : st.runStart = some start) :
    Upto { st with runStart := some start } bitmap (block + 1) := by
  have hlt := h.started start hstart
  have hlists := h.lists
  rw [Scan.close, hstart] at hlists
  have hrun : MaximalRun (fun i => i < block ∧ getBit bitmap i = false) start (block - start) := by
    apply (hlists start (block - start)).1
    dsimp only
    rw [getElem?_insert, if_pos rfl]
  constructor
  · apply hlists.give (fun _ hi => hi.1) (by omega) zero_lt_one (hrun.endsAt (by omega))
      (startsAt_zero (by omega)) (free_succ hfree)
    intro t
    change (st.freeList.insert start (block + 1 - start))[t]? = _
    rw [getElem?_insert, getElem?_insert,
      show block - (block - start) = start by omega,
      show block - start + 1 + 0 = block + 1 - start by omega]
    by_cases ht : t = start
    · rw [if_pos ht, if_pos ht.symm]
    · rw [if_neg ht, if_neg (Ne.symm ht), if_neg (Ne.symm ht)]
      by_cases htn : t = block + 1
      · rw [if_pos htn, htn]
        have hnone := hlists.eq_none (s := block + 1) (by omega)
        rwa [getElem?_insert, if_neg (by omega)] at hnone
      · rw [if_neg htn]
  · intro hnone
    cases hnone
  · intro s hs
    obtain rfl := Option.some.inj hs
    exact lt_succ_of_lt hlt

lemma Scan.Upto.step : (st.step bitmap block).Upto bitmap (block + 1) := by
  rw [Scan.step]
  by_cases hbit : getBit bitmap block = true
  · rw [if_pos hbit]
    exact h.step_used hbit
  · rw [if_neg hbit]
    have hfree : getBit bitmap block = false := Bool.eq_false_iff.2 hbit
    cases hstart : st.runStart with
    | none => exact h.step_open hfree hstart
    | some start => exact h.step_extend hfree hstart

end

lemma lists_rebuildFreeList (totalBlocks : Nat) :
    Lists (fun t => (rebuildFreeList bitmap totalBlocks)[t]?)
      fun i => i < totalBlocks ∧ getBit bitmap i = false := by
  have hscan : Scan.Upto ((List.range totalBlocks).foldl (Scan.step bitmap) {}) bitmap
      totalBlocks := by
    induction totalBlocks with
    | zero => exact Scan.upto_zero
    | succ n ih =>
      rw [range_succ, foldl_append]
      exact ih.step
  exact hscan.lists

def Extent.ofBlocks (blockSize start count : Nat) : Extent :=
  ⟨start * blockSize, count * blockSize⟩

def Extent.Covers (e : Extent) (byte : Nat) : Prop := e.offset ≤ byte ∧ byte < e.stop

section
variable {bs s n s' n' i : Nat}

lemma Extent.stop_ofBlocks : (ofBlocks bs s n).stop = (s + n) * bs :=
  (add_mul s n bs).symm

lemma Extent.covers_ofBlocks (hbs : 0 < bs) :
    (ofBlocks bs s n).Covers (i * bs) ↔ s ≤ i ∧ i < s + n := by
  rw [Covers, stop_ofBlocks]
  exact and_congr (Nat.mul_le_mul_right_iff hbs) (Nat.mul_lt_mul_right hbs)

lemma Extent.disjoint_ofBlocks (hbs : 0 < bs) :
    (ofBlocks bs s n).Disjoint (ofBlocks bs s' n') ↔ s + n ≤ s' ∨ s' + n' ≤ s := by
  rw [Disjoint, stop_ofBlocks, stop_ofBlocks]
  exact or_congr (Nat.mul_le_mul_right_iff hbs) (Nat.mul_le_mul_right_iff hbs)

lemma le_divCeil_mul (size : Nat) (hbs : 0 < bs) : size ≤ divCeil size bs * bs := by
  rw [divCeil]
  have hdiv := div_add_mod (size + bs - 1) bs
  have hmod := mod_lt (size + bs - 1) hbs
  rw [mul_comm] at hdiv
  omega

end

namespace BitmapAllocator

inductive Step : BitmapAllocator × Finset Extent → BitmapAllocator × Finset Extent → Prop
  | alloc (size : Nat) (hok : a.alloc size = .ok (e, a')) : Step (a, live) (a', insert e live)
  | free (he : e ∈ live) (hok : a.free e = .ok a') : Step (a, live) (a', live.erase e)

section
variable {a a' : BitmapAllocator} {live : Finset Extent} {e : Extent} {size s n l i : Nat}

structure Live (a : BitmapAllocator) (live : Finset Extent) : Prop where
  exact : a.Exact
  room : ∀ i, i < a.totalBlocks → i / 8 < a.bitmap.length
  aligned : ∀ e ∈ live, ∃ s n, 0 < n ∧ e = .ofBlocks a.blockSize s n ∧ s + n ≤ a.totalBlocks
  disjoint : ∀ e ∈ live, ∀ e' ∈ live, e ≠ e' → e.Disjoint e'
  bits : ∀ i, i < a.totalBlocks →
    (getBit a.bitmap i = true ↔ ∃ e ∈ live, e.Covers (i * a.blockSize))

lemma free_lt (h : a.Free i) : i < a.totalBlocks := h.1

lemma Exact.fromBitmap_eq (h : a.Exact) :
    fromBitmap a.bitmap a.totalBlocks a.blockSize a.blockSize_pos = a := by
  have hlist : rebuildFreeList a.bitmap a.totalBlocks = a.freeList := by
    apply Std.ExtTreeMap.ext_getElem?
    intro t
    exact congrFun ((lists_rebuildFreeList a.totalBlocks).ext h) t
  rw [fromBitmap, hlist]

lemma getBit_replicate_zero (hi : i / 8 < n) : getBit (List.replicate n 0) i = false := by
  have hzero : bitAt 0 (i % 8) = false := by
    rw [bitAt_eq_testBit (mod_lt _ (by decide))]
    exact zero_testBit _
  rw [getBit, getElem?_replicate_of_lt hi]
  exact hzero

lemma live_new {totalBlocks blockSize : Nat} (h : 0 < blockSize) :
    (new totalBlocks blockSize h).Live ∅ := by
  have hroom : ∀ i, i < totalBlocks → i / 8 < divCeil totalBlocks 8 := by
    intro i hi
    rw [divCeil]
    omega
  constructor
  · exact lists_rebuildFreeList _
  · intro i hi
    change i / 8 < (replicate (divCeil totalBlocks 8) (0 : UInt8)).length
    rw [length_replicate]
    exact hroom i hi
  · intro e he
    exact absurd he (notMem_empty e)
  · intro e he
    exact absurd he (notMem_empty e)
  · intro i hi
    apply iff_of_false
    · change ¬getBit (replicate (divCeil totalBlocks 8) 0) i = true
      rw [getBit_replicate_zero (hroom i hi)]
      intro hbit
      cases hbit
    · intro hex
      obtain ⟨e, he, _⟩ := hex
      exact absurd he (notMem_empty e)

lemma alloc_ok (hok : a.alloc size = .ok (e, a')) :
    ∃ s l, a.freeList[s]? = some l ∧ 0 < divCeil size a.blockSize ∧
      divCeil size a.blockSize ≤ l ∧ e = .ofBlocks a.blockSize s (divCeil size a.blockSize) ∧
      a' = { a with
        freeList := a.freeList.split s l (divCeil size a.blockSize)
        bitmap := setBits true a.bitmap s (divCeil size a.blockSize) } := by
  rw [alloc] at hok
  split at hok
  · cases hok
  · rename_i hzero
    split at hok
    · cases hok
    · split at hok
      · cases hok
      · rename_i s l hfit
        cases hok
        obtain ⟨hentry, hle, _⟩ := bestFit_eq_some hfit
        exact ⟨s, l, hentry, Nat.pos_of_ne_zero hzero, hle, rfl, rfl⟩

lemma Live.alloc (h : a.Live live) (hok : a.alloc size = .ok (e, a')) :
    a'.Live (insert e live) ∧ (∀ e' ∈ live, e.Disjoint e') ∧ size ≤ e.length := by
  obtain ⟨s, l, hentry, hpos, hle, rfl, rfl⟩ := alloc_ok hok
  generalize hneed : divCeil size a.blockSize = n at hpos hle
  have hbs := a.blockSize_pos
  have hrun := (h.exact s l).1 hentry
  have hfree : ∀ i, s ≤ i → i < s + n → a.Free i := fun i hi hlt => hrun.all i hi (by omega)
  have hin : s + n ≤ a.totalBlocks := by
    have := (hfree (s + n - 1) (by omega) (by omega)).1
    omega
  have hbit : ∀ j, getBit (setBits true a.bitmap s n) j =
      if s ≤ j ∧ j < s + n then true else getBit a.bitmap j := by
    intro j
    exact getBit_setBits fun i hi hlt => h.room i (hfree i hi hlt).1
  have hnew : ∀ e' ∈ live, (ofBlocks a.blockSize s n).Disjoint e' := by
    intro e' he'
    obtain ⟨s', n', hpos', rfl, hin'⟩ := h.aligned e' he'
    rw [disjoint_ofBlocks hbs]
    by_contra hmeet
    -- a block of both would be free and allocated
    have hfree' := hfree (max s s') (by omega) (by omega)
    have hset := (h.bits _ hfree'.1).2 ⟨_, he', (covers_ofBlocks hbs).2 ⟨by omega, by omega⟩⟩
    rw [hfree'.2] at hset
    cases hset
  apply And.intro
  · constructor
    · apply lists_split h.exact (fun _ => free_lt) hentry hpos hle
      intro i
      simp only [Free, hbit]
      by_cases hcut : s ≤ i ∧ i < s + n
      · rw [if_pos hcut]
        apply iff_of_false
        · intro hi
          cases hi.2
        · intro hi
          exact hi.2 hcut
      · rw [if_neg hcut]
        exact ⟨fun hi => ⟨hi, hcut⟩, fun hi => hi.1⟩
    · intro i hi
      change i / 8 < (setBits true a.bitmap s n).length
      rw [length_setBits]
      exact h.room i hi
    · intro e' he'
      rcases mem_insert.1 he' with rfl | he'
      · exact ⟨s, n, hpos, rfl, hin⟩
      · exact h.aligned e' he'
    · intro e₁ he₁ e₂ he₂ hne
      rcases mem_insert.1 he₁ with rfl | he₁
      · rcases mem_insert.1 he₂ with rfl | he₂
        · exact absurd rfl hne
        · exact hnew e₂ he₂
      · rcases mem_insert.1 he₂ with rfl | he₂
        · exact (hnew e₁ he₁).symm
        · exact h.disjoint e₁ he₁ e₂ he₂ hne
    · intro i hi
      change getBit (setBits true a.bitmap s n) i = true ↔ _
      rw [hbit]
      simp only [mem_insert, exists_eq_or_imp, covers_ofBlocks hbs]
      by_cases hcut : s ≤ i ∧ i < s + n
      · rw [if_pos hcut]
        exact iff_of_true rfl (.inl hcut)
      · rw [if_neg hcut, h.bits i hi]
        exact ⟨.inr, fun hor => hor.resolve_left hcut⟩
  · exact ⟨hnew, hneed ▸ le_divCeil_mul size hbs⟩

lemma free_eq (hs : s + n ≤ a.totalBlocks) :
    a.free (.ofBlocks a.blockSize s n) = .ok { a with
      bitmap := setBits false a.bitmap s n
      freeList := coalesce (a.freeList.insert s n) s } := by
  have hstart : (ofBlocks a.blockSize s n).offset / a.blockSize = s :=
    Nat.mul_div_cancel s a.blockSize_pos
  have hcount : (ofBlocks a.blockSize s n).length / a.blockSize = n :=
    Nat.mul_div_cancel n a.blockSize_pos
  rw [free, hstart, hcount, if_neg (Nat.not_lt_of_le hs)]

lemma Exact.give (h : a.Exact) (hroom : ∀ i, i < a.totalBlocks → i / 8 < a.bitmap.length)
    (hpos : 0 < n) (hin : s + n ≤ a.totalBlocks)
    (hset : ∀ i, s ≤ i → i < s + n → getBit a.bitmap i = true) :
    Exact { a with
      bitmap := setBits false a.bitmap s n
      freeList := coalesce (a.freeList.insert s n) s } := by
  apply lists_coalesce h (fun i hi => hi.1) _ hpos
  · intro i
    simp only [Free, getBit_setBits fun i hi (hlt : i < s + n) => hroom i (by omega)]
    by_cases hcut : s ≤ i ∧ i < s + n
    · rw [if_pos hcut]
      exact iff_of_true ⟨by omega, rfl⟩ (.inr hcut)
    · rw [if_neg hcut]
      exact ⟨.inl, fun hor => hor.resolve_right hcut⟩
  · intro i hi hlt hfree
    rw [Free, hset i hi hlt] at hfree
    cases hfree.2

lemma Live.free (h : a.Live live) (he : e ∈ live) :
    ∃ a', a.free e = .ok a' ∧ a'.Live (live.erase e) ∧ a'.totalBlocks = a.totalBlocks ∧
      a'.blockSize = a.blockSize := by
  obtain ⟨s, n, hpos, rfl, hin⟩ := h.aligned e he
  have hbs := a.blockSize_pos
  have hbit : ∀ j, getBit (setBits false a.bitmap s n) j =
      if s ≤ j ∧ j < s + n then false else getBit a.bitmap j := by
    intro j
    exact getBit_setBits fun i hi hlt => h.room i (by omega)
  refine ⟨_, free_eq hin, ?_, rfl, rfl⟩
  constructor
  · apply h.exact.give h.room hpos hin
    intro i hi hlt
    exact (h.bits i (by omega)).2 ⟨_, he, (covers_ofBlocks hbs).2 ⟨hi, hlt⟩⟩
  · intro i hi
    change i / 8 < (setBits false a.bitmap s n).length
    rw [length_setBits]
    exact h.room i hi
  · intro e' he'
    exact h.aligned e' (mem_of_mem_erase he')
  · intro e₁ he₁ e₂ he₂
    exact h.disjoint e₁ (mem_of_mem_erase he₁) e₂ (mem_of_mem_erase he₂)
  · intro i hi
    change getBit (setBits false a.bitmap s n) i = true ↔ _
    rw [hbit]
    by_cases hcut : s ≤ i ∧ i < s + n
    · rw [if_pos hcut]
      apply iff_of_false
      · intro hbit
        cases hbit
      · intro hex
        obtain ⟨e', he', hcover⟩ := hex
        obtain ⟨hne, he'⟩ := mem_erase.1 he'
        obtain ⟨s', n', _, rfl, _⟩ := h.aligned e' he'
        rw [covers_ofBlocks hbs] at hcover
        have := (disjoint_ofBlocks hbs).1 (h.disjoint _ he' _ he hne)
        omega
    · rw [if_neg hcut, h.bits i hi]
      constructor
      · intro hex
        obtain ⟨e', he', hcover⟩ := hex
        refine ⟨e', mem_erase.2 ⟨?_, he'⟩, hcover⟩
        intro heq
        rw [heq, covers_ofBlocks hbs] at hcover
        exact hcut hcover
      · intro hex
        obtain ⟨e', he', hcover⟩ := hex
        exact ⟨e', mem_of_mem_erase he', hcover⟩

def Allocated (a : BitmapAllocator) (e : Extent) : Prop :=
  ∃ s n, 0 < n ∧ e = ofBlocks a.blockSize s n ∧ s + n ≤ a.totalBlocks ∧
    ∀ i, s ≤ i → i < s + n → getBit a.bitmap i = true

/-- An unallocated extent is rejected only beyond the device's end. -/
theorem invalid_free_rejected_iff (a : BitmapAllocator) (e : Extent) :
    ((¬a.Allocated e → ∃ err, a.free e = .error err) ↔
      a.Allocated e ∨ a.totalBlocks < e.offset / a.blockSize + e.length / a.blockSize) ∧
    (a.Exact → (∀ i, i < a.totalBlocks → i / 8 < a.bitmap.length) → a.Allocated e →
      ∃ a', a.free e = .ok a' ∧ a'.Exact) := by
  constructor
  · rw [← or_iff_not_imp_left]
    apply or_congr_right
    rw [BitmapAllocator.free]
    split
    · next hbeyond => exact iff_of_true ⟨_, rfl⟩ hbeyond
    · next hinside => exact iff_of_false (fun ⟨_, herr⟩ => nomatch herr) hinside
  · rintro h hroom ⟨s, n, hpos, rfl, hin, hset⟩
    exact ⟨_, free_eq hin, h.give hroom hpos hin hset⟩

/-- The free of a free block puts it on the free list once more. -/
theorem free_block_listed_twice : ∃ a a' : BitmapAllocator, a = new 4 1 (by decide) ∧
    ¬a.Allocated ⟨1, 1⟩ ∧ a.free ⟨1, 1⟩ = .ok a' ∧ a'.freeList.toList = [(0, 4), (1, 1)] := by
  refine ⟨_, _, rfl, ?_, rfl, by decide +kernel⟩
  rintro ⟨s, n, hpos, he, _, hset⟩
  obtain ⟨hs, hn⟩ : 1 = s * 1 ∧ 1 = n * 1 := Extent.mk.inj he
  have hfree : getBit (new 4 1 (by decide)).bitmap 1 = false := by decide
  rw [hset 1 (by omega) (by omega)] at hfree
  cases hfree

lemma Exact.freeBlocks_eq (h : a.Exact) :
    a.freeBlocks = ((Finset.range a.totalBlocks).filter a.Free).card := by
  have hnodup : a.freeList.toList.Nodup := by
    apply a.freeList.sorted_toList.imp
    intro r r' hlt heq
    exact absurd (heq ▸ hlt) (lt_irrefl _)
  have hruns : ∀ s l, (s, l) ∈ a.freeList.toList.toFinset ↔ MaximalRun a.Free s l := by
    intro s l
    rw [mem_toFinset, FreeList.mem_toList]
    exact h s l
  rw [← sum_len (fun i hi => free_lt hi) hruns, sum_toFinset _ hnodup]
  rfl

lemma Live.usedBytes_eq (h : a.Live live) : a.usedBytes = ∑ e ∈ live, e.length := by
  have hbs := a.blockSize_pos
  have hcover : (Finset.range a.totalBlocks).filter (¬a.Free ·) =
      live.biUnion fun e =>
        Finset.Ico (e.offset / a.blockSize) (e.offset / a.blockSize + e.length / a.blockSize) := by
    ext i
    simp only [Finset.mem_filter, Finset.mem_range, Finset.mem_biUnion, Finset.mem_Ico]
    constructor
    · intro hi
      have hset : getBit a.bitmap i = true := by
        by_contra hclear
        exact hi.2 ⟨hi.1, Bool.eq_false_iff.2 hclear⟩
      obtain ⟨e, he, hcover⟩ := (h.bits i hi.1).1 hset
      obtain ⟨s, n, _, rfl, _⟩ := h.aligned e he
      refine ⟨_, he, ?_⟩
      rw [ofBlocks, Nat.mul_div_cancel _ hbs, Nat.mul_div_cancel _ hbs]
      exact (covers_ofBlocks hbs).1 hcover
    · intro hex
      obtain ⟨e, he, hi⟩ := hex
      obtain ⟨s, n, _, rfl, hin⟩ := h.aligned e he
      rw [ofBlocks, Nat.mul_div_cancel _ hbs, Nat.mul_div_cancel _ hbs] at hi
      have hlt : i < a.totalBlocks := by omega
      apply And.intro hlt
      intro hfree
      have hset := (h.bits i hlt).2 ⟨_, he, (covers_ofBlocks hbs).2 hi⟩
      rw [hfree.2] at hset
      cases hset
  have hdisjoint : (live : Set Extent).PairwiseDisjoint fun e =>
      Finset.Ico (e.offset / a.blockSize) (e.offset / a.blockSize + e.length / a.blockSize) := by
    intro e he e' he' hne
    obtain ⟨s, n, _, rfl, _⟩ := h.aligned e he
    obtain ⟨s', n', _, rfl, _⟩ := h.aligned e' he'
    have hapart := (disjoint_ofBlocks hbs).1 (h.disjoint _ he _ he' hne)
    apply Finset.disjoint_left.2
    intro i hi hi'
    simp only [ofBlocks, Nat.mul_div_cancel _ hbs, mem_Ico] at hi hi'
    omega
  have hcount : a.totalBlocks - a.freeBlocks = ∑ e ∈ live, e.length / a.blockSize := by
    have hsplit := card_filter_add_card_filter_not (s := range a.totalBlocks) a.Free
    rw [card_range, ← h.exact.freeBlocks_eq, hcover, card_biUnion hdisjoint] at hsplit
    simp only [Nat.card_Ico, Nat.add_sub_cancel_left] at hsplit
    omega
  rw [usedBytes, hcount, sum_mul]
  apply sum_congr rfl
  intro e he
  obtain ⟨s, n, _, rfl, _⟩ := h.aligned e he
  rw [ofBlocks, Nat.mul_div_cancel _ hbs]

lemma Exact.alloc_full (h : a.Exact) :
    (∃ requested available, a.alloc size = .error (.deviceFull requested available)) ↔
      0 < divCeil size a.blockSize ∧ divCeil size a.blockSize ≤ a.maxExtentBlocks ∧
        ∀ s l, MaximalRun a.Free s l → l < divCeil size a.blockSize := by
  have hruns : a.freeList.bestFit (divCeil size a.blockSize) = none ↔
      ∀ s l, MaximalRun a.Free s l → l < divCeil size a.blockSize := by
    rw [bestFit_eq_none]
    exact forall₂_congr fun s l => imp_congr_left (h s l)
  rw [← hruns, alloc]
  by_cases hzero : divCeil size a.blockSize = 0
  · rw [if_pos hzero]
    apply iff_of_false
    · intro hex
      obtain ⟨_, _, herr⟩ := hex
      cases herr
    · omega
  · rw [if_neg hzero]
    by_cases hcap : divCeil size a.blockSize > a.maxExtentBlocks
    · rw [if_pos hcap]
      apply iff_of_false
      · intro hex
        obtain ⟨_, _, herr⟩ := hex
        cases herr
      · omega
    · rw [if_neg hcap]
      cases hfit : a.freeList.bestFit (divCeil size a.blockSize) with
      | none => exact iff_of_true ⟨_, _, rfl⟩ ⟨by omega, by omega, rfl⟩
      | some r =>
        apply iff_of_false
        · intro hex
          obtain ⟨_, _, herr⟩ := hex
          cases herr
        · intro hand
          cases hand.2.2

lemma Exact.apart (h : a.Exact) : a.freeList.toList.Pairwise fun r r' => r.1 + r.2 < r'.1 := by
  apply a.freeList.sorted_toList.imp_of_mem
  intro r r' hr hr' hlt
  have hrun := (h r.1 r.2).1 (mem_toList.1 hr)
  have hrun' := (h r'.1 r'.2).1 (mem_toList.1 hr')
  have hfirst := hrun'.all r'.1 le_rfl (Nat.lt_add_of_pos_right hrun'.pos)
  by_contra hle
  rcases Nat.lt_or_eq_of_le (Nat.le_of_not_lt hle) with hin | htouch
  · exact absurd (hrun.eq_of_mem hrun' hlt.le hin le_rfl (Nat.lt_add_of_pos_right hrun'.pos)).1
      hlt.ne
  · exact hrun.right (htouch ▸ hfirst)

lemma Live.step {st st' : BitmapAllocator × Finset Extent} (h : st.1.Live st.2)
    (hstep : Step st st') :
    st'.1.Live st'.2 ∧ st'.1.totalBlocks = st.1.totalBlocks ∧ st'.1.blockSize = st.1.blockSize := by
  cases hstep with
  | alloc size hok =>
    have hlive := (h.alloc hok).1
    obtain ⟨s, l, _, _, _, _, rfl⟩ := alloc_ok hok
    exact ⟨hlive, rfl, rfl⟩
  | free he hok =>
    obtain ⟨a'', hok', hlive, htotal, hsize⟩ := h.free he
    obtain rfl := Except.ok.inj (hok.symm.trans hok')
    exact ⟨hlive, htotal, hsize⟩

lemma Live.run {st st' : BitmapAllocator × Finset Extent} (h : st.1.Live st.2)
    (hrun : Relation.ReflTransGen Step st st') :
    st'.1.Live st'.2 ∧ st'.1.totalBlocks = st.1.totalBlocks ∧ st'.1.blockSize = st.1.blockSize := by
  induction hrun with
  | refl => exact ⟨h, rfl, rfl⟩
  | tail _ hstep ih =>
    obtain ⟨hlive, htotal, hsize⟩ := ih
    obtain ⟨hlive', htotal', hsize'⟩ := hlive.step hstep
    exact ⟨hlive', htotal'.trans htotal, hsize'.trans hsize⟩

/-- The free list is the ordered list of maximal free runs. -/
theorem free_list_exact {totalBlocks blockSize : Nat} {hbs : 0 < blockSize}
    (hrun : Relation.ReflTransGen Step (new totalBlocks blockSize hbs, ∅) (a, live)) :
    (∀ s l, (s, l) ∈ a.freeList.toList ↔ MaximalRun a.Free s l) ∧
      (a.freeList.toList.Pairwise fun r r' => r.1 + r.2 < r'.1) ∧
      fromBitmap a.bitmap totalBlocks blockSize hbs = a ∧
      (∀ e ∈ live, ∀ e' ∈ live, e ≠ e' → e.Disjoint e') ∧
      (∀ e ∈ live, 0 < e.length ∧ e.stop ≤ totalBlocks * blockSize ∧ ∃ a', a.free e = .ok a') ∧
      a.usedBytes = ∑ e ∈ live, e.length ∧
      (∀ size e a', a.alloc size = .ok (e, a') → size ≤ e.length) ∧
      ∀ size, (∃ requested available,
          a.alloc size = .error (.deviceFull requested available)) ↔
        0 < divCeil size blockSize ∧ divCeil size blockSize ≤ a.maxExtentBlocks ∧
          ∀ s l, MaximalRun a.Free s l → l < divCeil size blockSize := by
  obtain ⟨h, htotal, hsize⟩ := (live_new hbs).run hrun
  change a.Live live at h
  obtain rfl : totalBlocks = a.totalBlocks := htotal.symm
  obtain rfl : blockSize = a.blockSize := hsize.symm
  apply And.intro
  · intro s l
    rw [FreeList.mem_toList]
    exact h.exact s l
  apply And.intro h.exact.apart
  apply And.intro h.exact.fromBitmap_eq
  apply And.intro h.disjoint
  apply And.intro
  · intro e he
    obtain ⟨a', hok, _⟩ := h.free he
    obtain ⟨s, n, hpos, rfl, hin⟩ := h.aligned e he
    refine ⟨Nat.mul_pos hpos hbs, ?_, a', hok⟩
    rw [stop_ofBlocks]
    exact mul_le_mul_right _ hin
  apply And.intro h.usedBytes_eq
  apply And.intro
  · intro size e a' hok
    exact (h.alloc hok).2.2
  · intro size
    exact h.exact.alloc_full

end

theorem free_list_exact_oneExtent :
    ∃ e a, (new 4 4096 (by decide)).alloc 5000 = .ok (e, a) ∧ a.usedBytes = 8192 := by
  have hfirst : ((new 4 4096 (by decide)).alloc 5000).map Prod.fst = .ok ⟨0, 8192⟩ := by decide
  cases hok : (new 4 4096 (by decide)).alloc 5000 with
  | error err =>
    rw [hok] at hfirst
    cases hfirst
  | ok r =>
    rw [hok] at hfirst
    have hextent : r.1 = ⟨0, 8192⟩ := Except.ok.inj hfirst
    have hused := (free_list_exact (.single (.alloc 5000 hok))).2.2.2.2.2.1
    refine ⟨r.1, r.2, rfl, hused.trans ?_⟩
    rw [hextent]
    rfl

/-- A request over the per-extent cap is not reported as full. -/
theorem oversize_request_not_full :
    ¬((∃ requested available, (new 1 4096 (by decide)).alloc (20 * 1024 * 1024) =
        .error (.deviceFull requested available)) ↔
      ∀ s l, MaximalRun (new 1 4096 (by decide)).Free s l →
        l < divCeil (20 * 1024 * 1024) 4096) := by
  intro hiff
  have hshort : ∀ s l, MaximalRun (new 1 4096 (by decide)).Free s l →
      l < divCeil (20 * 1024 * 1024) 4096 := by
    intro s l hrun
    have hlist : (new 1 4096 (by decide)).freeList.toList = [(0, 1)] := by decide
    have hentry := mem_toList.2 (((live_new (by decide)).exact s l).2 hrun)
    rw [hlist, List.mem_singleton, Prod.mk.injEq] at hentry
    rw [hentry.2]
    decide
  obtain ⟨requested, available, hfull⟩ := hiff.2 hshort
  cases hfull

end BitmapAllocator

end Kiseki.Block
