import Kiseki.Common
import Mathlib.Data.List.Sort

namespace Kiseki.Fabric

open List

def ranksBefore (a b : UInt64 × NodeId) : Bool :=
  b.1 < a.1 || a.1 = b.1 && a.2 ≤ b.2

def pickPlacement (score : NodeId → UInt64) (nodes : List NodeId) (targetCopies : Nat) :
    List NodeId :=
  if nodes.isEmpty ∨ targetCopies = 0 then []
  else
    (((nodes.map fun n => (score n, n)).mergeSort ranksBefore).take
      (min targetCopies nodes.length)).map Prod.snd

section Ranking

lemma ranksBefore_iff {a b : UInt64 × NodeId} : ranksBefore a b ↔
    b.1.toNat < a.1.toNat ∨ a.1.toNat = b.1.toNat ∧ a.2.toNat ≤ b.2.toNat := by
  simp only [ranksBefore, Bool.or_eq_true, Bool.and_eq_true, decide_eq_true_eq,
    UInt64.lt_iff_toNat_lt, UInt64.le_iff_toNat_le, UInt64.toNat_inj]

lemma ranksBefore_trans (a b c : UInt64 × NodeId) (hab : ranksBefore a b)
    (hbc : ranksBefore b c) : ranksBefore a c := by
  rw [ranksBefore_iff] at hab hbc ⊢
  omega

lemma ranksBefore_total (a b : UInt64 × NodeId) : ranksBefore a b || ranksBefore b a := by
  rw [Bool.or_eq_true, ranksBefore_iff, ranksBefore_iff]
  omega

lemma ranksBefore_antisymm {a b : UInt64 × NodeId} (hab : ranksBefore a b)
    (hba : ranksBefore b a) : a = b := by
  rw [ranksBefore_iff] at hab hba
  exact Prod.ext (UInt64.toNat_inj.1 (by omega)) (UInt64.toNat_inj.1 (by omega))

variable {score : NodeId → UInt64} {nodes nodes' : List NodeId} {x : NodeId}

def ranked (score : NodeId → UInt64) (nodes : List NodeId) : List NodeId :=
  ((nodes.map fun n => (score n, n)).mergeSort ranksBefore).map Prod.snd

lemma pickPlacement_eq (c : Nat) : pickPlacement score nodes c = (ranked score nodes).take c := by
  rw [pickPlacement, ranked, ← map_take]
  split
  · rename_i h
    rcases h with h | h
    · rw [isEmpty_iff.1 h, map_nil, mergeSort_nil, take_nil, map_nil]
    · rw [h, take_zero, map_nil]
  · rw [← take_take, take_of_length_le (i := nodes.length) (by simp)]

lemma ranked_perm : (ranked score nodes).Perm nodes := by
  have hperm := (mergeSort_perm (nodes.map fun n => (score n, n)) ranksBefore).map Prod.snd
  rw [map_map] at hperm
  exact hperm.trans (Perm.of_eq (map_id nodes))

lemma pairwise_ranked : (ranked score nodes).Pairwise fun a b =>
    ranksBefore (score a, a) (score b, b) := by
  have hsorted := pairwise_mergeSort ranksBefore_trans ranksBefore_total
      (nodes.map fun n => (score n, n))
  apply pairwise_map.2 (hsorted.imp_of_mem _)
  intro a b ha hb hab
  obtain ⟨n, _, rfl⟩ := mem_map.1 (mem_mergeSort.1 ha)
  obtain ⟨n', _, rfl⟩ := mem_map.1 (mem_mergeSort.1 hb)
  exact hab

lemma eq_ranked {ranking : List NodeId} (hperm : ranking.Perm nodes)
    (hsorted : ranking.Pairwise fun a b => ranksBefore (score a, a) (score b, b)) :
    ranked score nodes = ranking := by
  apply (ranked_perm.trans hperm.symm).eq_of_pairwise _ pairwise_ranked hsorted
  intro a b _ _ hab hba
  exact congrArg Prod.snd (ranksBefore_antisymm hab hba)

lemma ranked_erase : ranked score (nodes.erase x) = (ranked score nodes).erase x :=
  eq_ranked (ranked_perm.erase x) (pairwise_ranked.sublist erase_sublist)

end Ranking

section Lists
variable {α : Type} [DecidableEq α] {x : α} {l : List α} {c : Nat}

lemma take_erase_of_notMem (hx : x ∈ l) (h : x ∉ l.take c) : (l.erase x).take c = l.take c := by
  have hlen : c ≤ l.length := by
    by_contra hlt
    exact h (by rwa [take_of_length_le (Nat.le_of_not_le hlt)])
  conv_lhs => rw [← take_append_drop c l, erase_append_right _ h]
  exact take_left' (length_take_of_le hlen)

lemma take_erase_of_mem (h : x ∈ l.take c) :
    (l.erase x).take c = (l.take c).erase x ++ (l.drop c).take 1 := by
  have hpos := length_pos_of_mem h
  conv_lhs => rw [← take_append_drop c l, erase_append_left _ h, take_append]
  rw [length_erase_of_mem h]
  rw [length_take] at hpos ⊢
  congr 1
  · apply take_of_length_le
    rw [length_erase_of_mem h, length_take]
    omega
  · rcases Nat.le_total c l.length with hle | hle
    · rw [Nat.min_eq_left hle] at hpos ⊢
      congr 1
      omega
    · rw [drop_of_length_le hle, take_nil, take_nil]

end Lists

/-- If a node goes, the others move up and one comes in. -/
theorem placement_minimally_disruptive (score : NodeId → UInt64) (nodes : List NodeId) (c : Nat)
    (hnodup : nodes.Nodup) :
    (pickPlacement score nodes c).length = min c nodes.length ∧
    (pickPlacement score nodes c).Nodup ∧ pickPlacement score nodes c ⊆ nodes ∧
    (∀ nodes', nodes'.Perm nodes → pickPlacement score nodes' c = pickPlacement score nodes c) ∧
    ∀ x ∈ nodes,
      (x ∉ pickPlacement score nodes c →
        pickPlacement score (nodes.erase x) c = pickPlacement score nodes c) ∧
      (x ∈ pickPlacement score nodes c →
        ∃ last, last.length ≤ 1 ∧ (∀ n ∈ last, n ∉ pickPlacement score nodes c) ∧
          pickPlacement score (nodes.erase x) c = (pickPlacement score nodes c).erase x ++
            last) := by
  have hranked : (ranked score nodes).Nodup := ranked_perm.nodup_iff.2 hnodup
  simp only [pickPlacement_eq]
  refine ⟨?_, hranked.sublist (take_sublist _ _), ?_, ?_, ?_⟩
  · rw [length_take, ranked_perm.length_eq]
  · intro n hn
    exact ranked_perm.subset (mem_of_mem_take hn)
  · intro nodes' hperm
    rw [eq_ranked (ranked_perm.trans hperm.symm) pairwise_ranked]
  · intro x hx
    rw [ranked_erase]
    constructor
    · exact take_erase_of_notMem (ranked_perm.mem_iff.2 hx)
    · intro hmem
      refine ⟨_, length_take_le _ _, ?_, take_erase_of_mem hmem⟩
      intro n hn
      rw [← take_append_drop c (ranked score nodes)] at hranked
      exact fun htake => disjoint_of_nodup_append hranked htake (mem_of_mem_take hn)

theorem placement_minimally_disruptive_three : [3, 1, 2].Nodup ∧
    (pickPlacement (fun n => n % 2) [3, 1, 2] 2).length = 2 :=
  ⟨by decide, (placement_minimally_disruptive (fun n => n % 2) [3, 1, 2] 2 (by decide)).1⟩

end Kiseki.Fabric
