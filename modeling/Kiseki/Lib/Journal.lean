import Mathlib.Data.List.Basic

/-- A journal of atomic batches, of which a prefix is durable. -/
structure Journal (B : Type) where
  batches : List B := []
  durable : Nat := 0
  durable_le : durable ≤ batches.length := by exact Nat.zero_le _

namespace Journal

open List
variable {B D : Type} {j : Journal B} {apply : D → B → D} {init : D} {P Q : D → Prop} {b : B}
  {n mark pos : Nat}

section
variable (j : Journal B)

def write (b : B) : Journal B where
  batches := j.batches ++ [b]
  durable := j.durable
  durable_le := by
    rw [List.length_append]
    exact Nat.le_add_right_of_le j.durable_le

def persist (mark : Nat) : Journal B where
  batches := j.batches
  durable := max j.durable (min mark j.batches.length)
  durable_le := Nat.max_le.2 ⟨j.durable_le, Nat.min_le_right _ _⟩

def syncAll : Journal B := j.persist j.batches.length

def Survives (n : Nat) : Prop := j.durable ≤ n ∧ n ≤ j.batches.length

def cut (n : Nat) : Journal B where
  batches := j.batches.take n
  durable := (j.batches.take n).length
  durable_le := Nat.le_refl _

end

def recover (apply : D → B → D) (init : D) (j : Journal B) (n : Nat) : D :=
  (j.batches.take n).foldl apply init

def Always (apply : D → B → D) (init : D) (P : D → Prop) (j : Journal B) : Prop :=
  ∀ n, j.Survives n → P (j.recover apply init n)

section
variable (h : Always apply init P j)

include h

lemma Always.mono (hpq : ∀ d, P d → Q d) : Always apply init Q j :=
  fun n hn => hpq _ (h n hn)

lemma Always.write (hold : ∀ d, P d → Q d)
    (hnew : ∀ d, P d → Q (apply d b)) : Always apply init Q (j.write b) := by
  intro n hn
  obtain ⟨hlow, hle⟩ := hn
  change n ≤ (j.batches ++ [b]).length at hle
  change Q (((j.batches ++ [b]).take n).foldl apply init)
  by_cases hin : n ≤ j.batches.length
  · rw [take_append_of_le_length hin]
    exact hold _ (h n ⟨hlow, hin⟩)
  · have hall : (j.batches ++ [b]).length ≤ n := by
      rw [length_append, length_singleton]
      omega
    rw [take_of_length_le hall, foldl_append]
    have hlast := h j.batches.length ⟨j.durable_le, Nat.le_refl _⟩
    rw [recover, take_length] at hlast
    exact hnew _ hlast

lemma Always.persist (mark : Nat) : Always apply init P (j.persist mark) :=
  fun n hn => h n ⟨Nat.le_trans (Nat.le_max_left _ _) hn.1, hn.2⟩

lemma Always.cut (hn : j.Survives n) : Always apply init P (j.cut n) := by
  intro m hm
  obtain ⟨hlow, hle⟩ := hm
  change (j.batches.take n).length ≤ m at hlow
  have hsame := h n hn
  rw [recover] at hsame ⊢
  change P (((j.batches.take n).take m).foldl apply init)
  rw [take_of_length_le hlow]
  exact hsame

end

lemma always_of_durable (hpos : pos ≤ j.durable) (hat : P (j.recover apply init pos))
    (hlater : ∀ b ∈ j.batches.drop pos, ∀ d, P d → P (apply d b)) : Always apply init P j := by
  intro n hn
  have hle : pos ≤ n := Nat.le_trans hpos hn.1
  have hsplit : j.batches.take n = j.batches.take pos ++ (j.batches.drop pos).take (n - pos) := by
    rw [← take_add, Nat.add_sub_cancel' hle]
  rw [recover, hsplit, foldl_append]
  exact foldlRecOn _ _ hat fun d hd b hb => hlater b (mem_of_mem_take hb) d hd

lemma le_durable_persist (hle : pos ≤ mark) (hpos : pos ≤ j.batches.length) :
    pos ≤ (j.persist mark).durable :=
  Nat.le_trans (Nat.le_min.2 ⟨hle, hpos⟩) (Nat.le_max_right _ _)

end Journal
