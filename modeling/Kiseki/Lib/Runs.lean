import Mathlib.Algebra.BigOperators.Group.Finset.Basic
import Mathlib.Order.Interval.Finset.Nat

/-! Maximal runs of positions that have a property. -/

namespace Runs

open Finset Nat

structure MaximalRun (p : Nat → Prop) (start len : Nat) : Prop where
  pos : 0 < len
  all : ∀ i, start ≤ i → i < start + len → p i
  left : ∀ i, i + 1 = start → ¬p i
  right : ¬p (start + len)

def Lists (table : Nat → Option Nat) (p : Nat → Prop) : Prop :=
  ∀ start len, table start = some len ↔ MaximalRun p start len

structure EndsAt (p : Nat → Prop) (stop len : Nat) : Prop where
  le : len ≤ stop
  all : ∀ i, stop - len ≤ i → i < stop → p i
  left : ∀ i, i + 1 = stop - len → ¬p i

structure StartsAt (p : Nat → Prop) (start len : Nat) : Prop where
  all : ∀ i, start ≤ i → i < start + len → p i
  right : ¬p (start + len)

section
variable {p p' : Nat → Prop} {table table' : Nat → Option Nat} {s l t k n i prev next bound : Nat}

lemma Lists.ext (h : Lists table p) (h' : Lists table' p) : table = table' := by
  funext start
  apply Option.ext
  intro len
  rw [h, h']

lemma Lists.eq_none (h : Lists table p) (hs : ¬p s) : table s = none := by
  apply Option.eq_none_iff_forall_ne_some.2
  intro len hlen
  have hrun := (h s len).1 hlen
  exact hs (hrun.all s le_rfl (Nat.lt_add_of_pos_right hrun.pos))

lemma MaximalRun.start_le (h : MaximalRun p s l) (hs : s ≤ i)
    (hall : ∀ j, t ≤ j → j ≤ i → p j) : s ≤ t := by
  by_contra hlt
  exact h.left (s - 1) (by omega) (hall (s - 1) (by omega) (by omega))

lemma MaximalRun.eq_of_mem (h : MaximalRun p s l) (h' : MaximalRun p t k) (hs : s ≤ i)
    (hl : i < s + l) (ht : t ≤ i) (hk : i < t + k) : s = t ∧ l = k := by
  have hst : s = t := by
    apply le_antisymm
    · exact h.start_le hs fun j hj hji => h'.all j hj (by omega)
    · exact h'.start_le ht fun j hj hji => h.all j hj (by omega)
  subst hst
  apply And.intro rfl
  rcases lt_trichotomy l k with hlt | heq | hgt
  · exact absurd (h'.all (s + l) (by omega) (by omega)) h.right
  · exact heq
  · exact absurd (h.all (s + k) (by omega) (by omega)) h'.right

lemma MaximalRun.endsAt (h : MaximalRun p t l) (hend : t + l = s) : EndsAt p s l where
  le := by omega
  all := fun i hi hlt => h.all i (by omega) (by omega)
  left := fun i hi => h.left i (by omega)

lemma MaximalRun.startsAt (h : MaximalRun p s l) : StartsAt p s l := ⟨h.all, h.right⟩

lemma endsAt_zero (h : ∀ i, i + 1 = s → ¬p i) : EndsAt p s 0 where
  le := zero_le s
  all := fun i hi hlt => absurd hi (by omega)
  left := h

lemma startsAt_zero (h : ¬p s) : StartsAt p s 0 where
  all := fun i hi hlt => absurd hi (by omega)
  right := h

lemma exists_maximalRun (hbound : ∀ i, p i → i < bound) (hi : p i) :
    ∃ s l, MaximalRun p s l ∧ s ≤ i ∧ i < s + l := by
  classical
  have hstart : ∃ s, s ≤ i ∧ ∀ j, s ≤ j → j ≤ i → p j :=
    ⟨i, le_rfl, fun j hj hji => Nat.le_antisymm hji hj ▸ hi⟩
  have hstop : ∃ e, i < e ∧ ¬p e := by
    by_cases hp : p (max bound (i + 1))
    · have := hbound _ hp
      omega
    · exact ⟨_, by omega, hp⟩
  obtain ⟨hsi, hall⟩ := Nat.find_spec hstart
  obtain ⟨hie, hend⟩ := Nat.find_spec hstop
  have hbelow : ∀ j, i ≤ j → j < Nat.find hstop → p j := by
    intro j hij hj
    by_contra hnot
    rcases Nat.lt_or_eq_of_le hij with hlt | heq
    · exact Nat.find_min hstop hj ⟨hlt, hnot⟩
    · exact hnot (heq ▸ hi)
  refine ⟨Nat.find hstart, Nat.find hstop - Nat.find hstart, ⟨by omega, ?_, ?_, ?_⟩, hsi, by omega⟩
  · intro j hj hlt
    rcases Nat.le_total j i with hji | hij
    · exact hall j hj hji
    · exact hbelow j hij (by omega)
  · intro j hj hpj
    apply Nat.find_min hstart (m := j) (by omega)
    apply And.intro (by omega)
    intro j' hj' hle
    rcases Nat.lt_or_eq_of_le hj' with hlt | heq
    · exact hall j' (by omega) hle
    · exact heq ▸ hpj
  · rw [Nat.add_sub_cancel' (by omega)]
    exact hend

lemma Lists.startsAt (h : Lists table p) (hbound : ∀ i, p i → i < bound)
    (hleft : ∀ i, i + 1 = s → ¬p i) : StartsAt p s ((table s).getD 0) := by
  by_cases hs : p s
  · obtain ⟨t, k, hrun, hts, hstk⟩ := exists_maximalRun hbound hs
    have hst : t = s := by
      by_contra hne
      exact hleft (s - 1) (by omega) (hrun.all (s - 1) (by omega) (by omega))
    subst hst
    rw [(h t k).2 hrun]
    exact hrun.startsAt
  · rw [h.eq_none hs]
    exact startsAt_zero hs

lemma Lists.endsAt_zero (h : Lists table p) (hbound : ∀ i, p i → i < bound) (hs : ¬p s)
    (hnone : ∀ t k, table t = some k → t + k ≠ s) : EndsAt p s 0 := by
  apply Runs.endsAt_zero
  intro i hi hpi
  obtain ⟨t, k, hrun, hti, hik⟩ := exists_maximalRun hbound hpi
  apply hnone t k ((h t k).2 hrun)
  by_contra hne
  exact hs (hrun.all s (by omega) (by omega))

/-- A table of maximal runs that covers the property lists all of them. -/
lemma lists_of_cover (hsound : ∀ t k, table t = some k → MaximalRun p t k)
    (hcover : ∀ i, p i → ∃ t k, table t = some k ∧ t ≤ i ∧ i < t + k) : Lists table p := by
  intro t k
  apply Iff.intro (hsound t k)
  intro hrun
  have hlt : t < t + k := Nat.lt_add_of_pos_right hrun.pos
  obtain ⟨t', k', htable, hle, hlt'⟩ := hcover t (hrun.all t le_rfl hlt)
  obtain ⟨rfl, rfl⟩ := hrun.eq_of_mem (hsound t' k' htable) le_rfl hlt hle hlt'
  exact htable

lemma MaximalRun.rest (h : MaximalRun p s l) (hn : 0 < n) (hlt : n < l)
    (hp : ∀ i, p' i ↔ p i ∧ ¬(s ≤ i ∧ i < s + n)) : MaximalRun p' (s + n) (l - n) where
  pos := by omega
  all := fun i hi hil => (hp i).2 ⟨h.all i (by omega) (by omega), by omega⟩
  left := fun i hi hpi => ((hp i).1 hpi).2 (by omega)
  right := by
    rw [show s + n + (l - n) = s + l by omega]
    exact fun hpi => h.right ((hp _).1 hpi).1

lemma Lists.take (h : Lists table p) (hbound : ∀ i, p i → i < bound) (hrun : MaximalRun p s l)
    (hn : 0 < n) (hle : n ≤ l) (hp : ∀ i, p' i ↔ p i ∧ ¬(s ≤ i ∧ i < s + n))
    (htable : ∀ t, table' t = if t = s then none else
      if t = s + n ∧ n < l then some (l - n) else table t) : Lists table' p' := by
  apply lists_of_cover
  · intro t k ht
    rw [htable] at ht
    split_ifs at ht with hts hrest
    · obtain rfl := Option.some.inj ht
      rw [hrest.1]
      exact hrun.rest hn hrest.2 hp
    · have hrun' := (h t k).1 ht
      refine ⟨hrun'.pos, fun i hi hik => (hp i).2 ⟨hrun'.all i hi hik, fun hcut => hts ?_⟩,
        fun i hi hpi => hrun'.left i hi ((hp i).1 hpi).1, fun hpi => hrun'.right ((hp _).1 hpi).1⟩
      exact (hrun'.eq_of_mem hrun hi hik (by omega) (by omega)).1
  · intro i hi
    obtain ⟨hpi, hout⟩ := (hp i).1 hi
    obtain ⟨t, k, hrun', hti, hik⟩ := exists_maximalRun hbound hpi
    by_cases hin : s ≤ i ∧ i < s + l
    · refine ⟨s + n, l - n, ?_, by omega, by omega⟩
      rw [htable, if_neg (by omega), if_pos ⟨rfl, by omega⟩]
    · have hout' : ¬(s ≤ t ∧ t < s + l) := by
        intro hmem
        obtain ⟨rfl, rfl⟩ := hrun'.eq_of_mem hrun (i := t) le_rfl (by omega) hmem.1 hmem.2
        exact hin ⟨hti, hik⟩
      refine ⟨t, k, ?_, hti, hik⟩
      rw [htable, if_neg (by omega), if_neg (by omega)]
      exact (h t k).2 hrun'

lemma merged_run (hprev : EndsAt p s prev) (hnext : StartsAt p (s + n) next) (hn : 0 < n)
    (hp : ∀ i, p' i ↔ p i ∨ s ≤ i ∧ i < s + n) :
    MaximalRun p' (s - prev) (prev + n + next) := by
  have hle := hprev.le
  constructor
  · omega
  · intro i hi hlt
    rw [hp]
    by_cases hlow : i < s
    · exact .inl (hprev.all i hi hlow)
    · by_cases hin : i < s + n
      · exact .inr (by omega)
      · exact .inl (hnext.all i (by omega) (by omega))
  · intro i hi hpi
    rcases (hp i).1 hpi with hpi | hin
    · exact hprev.left i hi hpi
    · omega
  · rw [show s - prev + (prev + n + next) = s + n + next by omega, hp]
    rintro (hpi | hin)
    · exact hnext.right hpi
    · omega

lemma Lists.give (h : Lists table p) (hbound : ∀ i, p i → i < bound)
    (hgap : ∀ i, s ≤ i → i < s + n → ¬p i) (hn : 0 < n)
    (hprev : EndsAt p s prev) (hnext : StartsAt p (s + n) next)
    (hp : ∀ i, p' i ↔ p i ∨ s ≤ i ∧ i < s + n)
    (htable : ∀ t, table' t = if t = s - prev then some (prev + n + next) else
      if t = s + n then none else table t) : Lists table' p' := by
  have hs := hgap s le_rfl (by omega)
  have hle := hprev.le
  apply lists_of_cover
  · intro t k ht
    rw [htable] at ht
    split_ifs at ht with hstart hstop
    · obtain rfl := Option.some.inj ht
      exact hstart ▸ merged_run hprev hnext hn hp
    · have hrun := (h t k).1 ht
      have hpos := hrun.pos
      refine ⟨hpos, fun i hi hik => (hp i).2 (.inl (hrun.all i hi hik)), fun i hi hpi => ?_,
        fun hpi => ?_⟩
      · rcases (hp i).1 hpi with hpi | hin
        · exact hrun.left i hi hpi
        · exact hgap t (by omega) (by omega) (hrun.all t le_rfl (by omega))
      · rcases (hp _).1 hpi with hpi | hin
        · exact hrun.right hpi
        · have hlast := hrun.all (t + k - 1) (by omega) (by omega)
          by_cases hend : t + k = s
          · have hback := hrun.start_le (t := s - prev) (i := s - 1) (by omega)
              fun j hj hjs => hprev.all j hj (by omega)
            exact hprev.left (s - prev - 1) (by omega) (hrun.all _ (by omega) (by omega))
          · exact hgap (t + k - 1) (by omega) (by omega) hlast
  · intro i hi
    by_cases hin : s - prev ≤ i ∧ i < s + n + next
    · refine ⟨s - prev, prev + n + next, ?_, hin.1, by omega⟩
      rw [htable, if_pos rfl]
    · have hpi : p i := ((hp i).1 hi).resolve_right (by omega)
      obtain ⟨t, k, hrun, hti, hik⟩ := exists_maximalRun hbound hpi
      refine ⟨t, k, ?_, hti, hik⟩
      rw [htable, if_neg fun ht => hs (hrun.all s (by omega) (by omega)),
        if_neg fun ht => hnext.right (hrun.all _ (by omega) (by omega))]
      exact (h t k).2 hrun

lemma sum_len [DecidablePred p] {runs : Finset (Nat × Nat)} (hbound : ∀ i, p i → i < bound)
    (hruns : ∀ s l, (s, l) ∈ runs ↔ MaximalRun p s l) :
    ∑ r ∈ runs, r.2 = ((Finset.range bound).filter p).card := by
  have hcover : (range bound).filter p =
      runs.biUnion fun r => Finset.Ico r.1 (r.1 + r.2) := by
    ext i
    simp only [mem_filter, mem_range, mem_biUnion, mem_Ico]
    constructor
    · intro h
      obtain ⟨s, l, hrun, hs, hl⟩ := exists_maximalRun hbound h.2
      exact ⟨(s, l), (hruns s l).2 hrun, hs, hl⟩
    · intro h
      obtain ⟨r, hr, hs, hl⟩ := h
      have hpi := ((hruns r.1 r.2).1 hr).all i hs hl
      exact ⟨hbound i hpi, hpi⟩
  have hdisjoint : (runs : Set (Nat × Nat)).PairwiseDisjoint
      fun r => Finset.Ico r.1 (r.1 + r.2) := by
    intro r hr r' hr' hne
    apply disjoint_left.2
    intro i hi hi'
    rw [mem_Ico] at hi hi'
    obtain ⟨hs, hl⟩ := ((hruns r.1 r.2).1 hr).eq_of_mem ((hruns r'.1 r'.2).1 hr') hi.1 hi.2 hi'.1
      hi'.2
    exact hne (Prod.ext hs hl)
  rw [hcover, card_biUnion hdisjoint]
  apply sum_congr rfl
  intro r _
  rw [Nat.card_Ico, Nat.add_sub_cancel_left]

end

end Runs
