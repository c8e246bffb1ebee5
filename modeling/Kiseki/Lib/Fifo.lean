import Mathlib.Data.List.Infix
import Mathlib.Data.List.Nodup

namespace Fifo

open List

/-- Drop from the front while the predicate holds. -/
def dropFront (bad : Nat → α → Bool) : List α → List α
  | [] => []
  | x :: rest => if bad (rest.length + 1) x then dropFront bad rest else x :: rest

def dropped (bad : Nat → α → Bool) : List α → List α
  | [] => []
  | x :: rest => if bad (rest.length + 1) x then x :: dropped bad rest else []

lemma dropped_append_dropFront (bad : Nat → α → Bool) (l : List α) :
    dropped bad l ++ dropFront bad l = l := by
  induction l with
  | nil => rfl
  | cons x rest ih =>
    by_cases h : bad (rest.length + 1) x
    · simp only [dropped, dropFront, if_pos h, cons_append, ih]
    · simp only [dropped, dropFront, if_neg h, nil_append]

lemma dropFront_suffix (bad : Nat → α → Bool) (l : List α) : dropFront bad l <:+ l :=
  ⟨_, dropped_append_dropFront bad l⟩

lemma length_dropFront_le {bad : Nat → α → Bool} {cap : Nat}
    (h : ∀ n x, cap < n → bad n x = true) (l : List α) : (dropFront bad l).length ≤ cap := by
  induction l with
  | nil => exact Nat.zero_le _
  | cons x rest ih =>
    by_cases hb : bad (rest.length + 1) x
    · simpa only [dropFront, if_pos hb] using ih
    · have hle : ¬cap < rest.length + 1 := fun hlt => hb (h _ _ hlt)
      simp only [dropFront, if_neg hb, length_cons]
      omega

lemma suffix_dropFront {bad : Nat → α → Bool} {suf : List α} (pre : List α)
    (h : ∀ n x, n ≤ suf.length → x ∈ suf → bad n x = false) :
    suf <:+ dropFront bad (pre ++ suf) := by
  induction pre with
  | nil =>
    cases suf with
    | nil => exact nil_suffix
    | cons x rest =>
      have hx : ¬bad (rest.length + 1) x = true := by
        rw [h (rest.length + 1) x (by simp) (by simp)]
        exact Bool.false_ne_true
      rw [nil_append, dropFront, if_neg hx]
  | cons y pre ih =>
    rw [cons_append, dropFront]
    split
    · exact ih
    · exact (suffix_append pre suf).trans (suffix_cons y _)

def lastN (n : Nat) (l : List α) : List α := l.drop (l.length - n)

lemma suffix_lastN {n : Nat} {w l : List α} (hw : w <:+ l) (hn : w.length ≤ n) :
    w <:+ lastN n l := by
  obtain ⟨pre, rfl⟩ := hw
  rw [lastN, length_append]
  rw [drop_append_of_le_length (by omega)]
  exact suffix_append _ _

end Fifo
