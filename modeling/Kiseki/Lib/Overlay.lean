import Mathlib.Data.List.GetD

/-! Writes at offsets of a list, with a filler for the gaps they leave. -/

namespace Kiseki.Overlay

open List

section
variable {α : Type u} (filler : α)

def resize (n : Nat) (xs : List α) : List α := xs ++ List.replicate (n - xs.length) filler

/-- Overwrite from an offset on; without data too, grow to it. -/
def splice (offset : Nat) (data xs : List α) : List α :=
  let grown := resize filler (offset + data.length) xs
  grown.take offset ++ data ++ grown.drop (offset + data.length)

def pwrite (xs : List α) (w : Nat × List α) : List α :=
  if w.2 = [] then xs else splice filler w.1 w.2 xs

def pwrites (ws : List (Nat × List α)) (xs : List α) : List α := ws.foldl (pwrite filler) xs

end

def slice (xs : List α) (offset n : Nat) : List α := (xs.drop offset).take n

def Covers (ws : List (Nat × List α)) (i : Nat) : Prop :=
  ∃ w ∈ ws, w.1 ≤ i ∧ i < w.1 + w.2.length

def reach : List (Nat × List α) → Nat
  | [] => 0
  | w :: ws => if w.2 = [] then reach ws else max (w.1 + w.2.length) (reach ws)

section
variable {α : Type u} {filler : α}

lemma getD_resize (n i : Nat) (xs : List α) :
    (resize filler n xs).getD i filler = xs.getD i filler := by
  rw [resize]
  rcases Nat.lt_or_ge i xs.length with hlt | hge
  · rw [getD_append _ _ _ _ hlt]
  · rw [getD_append_right _ _ _ _ hge, getD_eq_default _ _ hge,
      getD_eq_getElem?_getD, getElem?_getD_replicate_default_eq]

lemma length_resize (n : Nat) (xs : List α) : (resize filler n xs).length = max xs.length n := by
  rw [resize, length_append, length_replicate]
  omega

variable {data xs : List α}

lemma length_splice (offset : Nat) :
    (splice filler offset data xs).length = max xs.length (offset + data.length) := by
  rw [splice, length_append, length_append, length_take, length_drop, length_resize]
  omega

lemma getD_splice (offset i : Nat) :
    (splice filler offset data xs).getD i filler =
      if offset ≤ i ∧ i < offset + data.length then data.getD (i - offset) filler
      else xs.getD i filler := by
  have hlen : (resize filler (offset + data.length) xs).length =
      max xs.length (offset + data.length) :=
    length_resize _ _
  have htake : ((resize filler (offset + data.length) xs).take offset).length = offset := by
    rw [length_take, hlen]
    omega
  rw [splice, append_assoc]
  rcases Nat.lt_or_ge i offset with hlt | hge
  · rw [if_neg (by omega), getD_append _ _ _ _ (by omega),
      ← getD_resize (offset + data.length) i xs]
    simp only [getD_eq_getElem?_getD, getElem?_take_of_lt hlt]
  · rw [getD_append_right _ _ _ _ (by omega), htake]
    rcases Nat.lt_or_ge i (offset + data.length) with hin | hout
    · rw [if_pos ⟨hge, hin⟩, getD_append _ _ _ _ (by omega)]
    · rw [if_neg (by omega), getD_append_right _ _ _ _ (by omega),
        ← getD_resize (offset + data.length) i xs]
      simp only [getD_eq_getElem?_getD, getElem?_drop]
      congr 2
      omega

lemma ext_getD {xs ys : List α} (hlen : xs.length = ys.length)
    (h : ∀ i, xs.getD i filler = ys.getD i filler) : xs = ys := by
  apply ext_getElem hlen
  intro i hi hi'
  have hat := h i
  rw [getD_eq_getElem _ _ hi, getD_eq_getElem _ _ hi'] at hat
  exact hat

lemma splice_nil {xs : List α} (h : offset ≤ xs.length) : splice filler offset [] xs = xs := by
  apply ext_getD
  · rw [length_splice, length_nil]
    omega
  · intro i
    rw [getD_splice, if_neg (by rw [length_nil]; omega)]

variable {w : Nat × List α}

lemma getD_pwrite :
    (pwrite filler xs w).getD i filler =
      if w.1 ≤ i ∧ i < w.1 + w.2.length then w.2.getD (i - w.1) filler else xs.getD i filler := by
  rw [pwrite]
  split
  · rename_i hnil
    rw [hnil, length_nil, if_neg (by omega)]
  · exact getD_splice _ _

lemma getD_pwrites_of_not_covers {xs : List α} (h : ¬Covers ws i) :
    (pwrites filler ws xs).getD i filler = xs.getD i filler := by
  induction ws generalizing xs with
  | nil => rfl
  | cons w ws ih =>
    have hrest : ¬Covers ws i := by
      intro hcover
      obtain ⟨w', hmem, hin⟩ := hcover
      exact h ⟨w', mem_cons_of_mem _ hmem, hin⟩
    refine (ih hrest).trans ?_
    rw [getD_pwrite, if_neg]
    intro hin
    exact h ⟨w, mem_cons_self, hin⟩

lemma length_slice {xs : List α} (h : offset + n ≤ xs.length) : (slice xs offset n).length = n := by
  rw [slice, length_take, length_drop]
  omega

lemma slice_eq_of_getD {xs data : List α} (h : offset + data.length ≤ xs.length)
    (hat : ∀ i, i < data.length → xs.getD (offset + i) filler = data.getD i filler) :
    slice xs offset data.length = data := by
  apply ext_getElem (length_slice h)
  intro i hi hi'
  have hat := hat i hi'
  rw [getD_eq_getElem _ _ hi', getD_eq_getElem _ _ (by omega)] at hat
  rw [← hat]
  simp only [slice, getElem_take, getElem_drop]

lemma slice_congr {xs ys : List α} (h : offset + n ≤ xs.length) (h' : offset + n ≤ ys.length)
    (hat : ∀ i, offset ≤ i → i < offset + n → xs.getD i filler = ys.getD i filler) :
    slice xs offset n = slice ys offset n := by
  have hlen := length_slice h'
  have hdata : slice xs offset (slice ys offset n).length = slice ys offset n := by
    apply slice_eq_of_getD (by omega)
    intro i hi
    rw [hat _ (by omega) (by omega), getD_eq_getElem _ _ hi,
      getD_eq_getElem _ _ (by omega)]
    simp only [slice, getElem_take, getElem_drop]
  rw [hlen] at hdata
  exact hdata

lemma slice_pwrites (filler : α) (before after : List (Nat × List α)) (w : Nat × List α)
    (xs : List α)
    (hafter : ∀ i, w.1 ≤ i → i < w.1 + w.2.length → ¬Covers after i)
    (hlen : w.1 + w.2.length ≤ (pwrites filler (before ++ w :: after) xs).length) :
    slice (pwrites filler (before ++ w :: after) xs) w.1 w.2.length = w.2 := by
  apply slice_eq_of_getD hlen
  intro i hi
  have hsplit : pwrites filler (before ++ w :: after) xs =
      pwrites filler after (pwrite filler (pwrites filler before xs) w) := by
    rw [pwrites, foldl_append]
    rfl
  rw [hsplit, getD_pwrites_of_not_covers (hafter _ (by omega) (by omega)), getD_pwrite,
    if_pos ⟨by omega, by omega⟩, Nat.add_sub_cancel_left]

variable {ws : List (Nat × List α)}

lemma length_pwrites (xs : List α) :
    (pwrites filler ws xs).length = max xs.length (reach ws) := by
  induction ws generalizing xs with
  | nil => exact (Nat.max_eq_left (Nat.zero_le _)).symm
  | cons w ws ih =>
    rw [pwrites, foldl_cons]
    refine (ih _).trans ?_
    rw [pwrite, reach]
    split
    · rfl
    · rw [length_splice, Nat.max_assoc]

lemma getD_pwrites_congr {xs ys : List α}
    (h : ∀ i, Covers ws i ∨ xs.getD i filler = ys.getD i filler) (i : Nat) :
    (pwrites filler ws xs).getD i filler = (pwrites filler ws ys).getD i filler := by
  induction ws generalizing xs ys with
  | nil =>
    rcases h i with ⟨_, hmem, _⟩ | heq
    · cases hmem
    · exact heq
  | cons w ws ih =>
    apply ih
    intro j
    rcases h j with ⟨w', hmem, hlo, hhi⟩ | heq
    · rcases mem_cons.1 hmem with rfl | hmem
      · right
        rw [getD_pwrite, getD_pwrite, if_pos ⟨hlo, hhi⟩, if_pos ⟨hlo, hhi⟩]
      · exact .inl ⟨w', hmem, hlo, hhi⟩
    · right
      rw [getD_pwrite, getD_pwrite, heq]

lemma lt_reach (h : Covers ws i) : i < reach ws := by
  induction ws with
  | nil =>
    obtain ⟨_, hmem, _⟩ := h
    cases hmem
  | cons w ws ih =>
    obtain ⟨w', hmem, hlo, hhi⟩ := h
    rw [reach]
    rcases mem_cons.1 hmem with rfl | hmem
    · have hdata : w'.2 ≠ [] := by
        intro hnil
        rw [hnil, length_nil] at hhi
        omega
      rw [if_neg hdata]
      exact Nat.lt_of_lt_of_le hhi (Nat.le_max_left _ _)
    · have hlt := ih ⟨w', hmem, hlo, hhi⟩
      split
      · exact hlt
      · exact Nat.lt_of_lt_of_le hlt (Nat.le_max_right _ _)

lemma reach_le (h : ∀ i, Covers ws i → i < n) : reach ws ≤ n := by
  induction ws with
  | nil => exact Nat.zero_le n
  | cons w ws ih =>
    have hrest : reach ws ≤ n := by
      apply ih
      intro i hcover
      obtain ⟨w', hmem, hin⟩ := hcover
      exact h i ⟨w', mem_cons_of_mem _ hmem, hin⟩
    rw [reach]
    split
    · exact hrest
    · rename_i hdata
      have hpos : 0 < w.2.length := length_pos_iff.2 hdata
      have hlast := h (w.1 + w.2.length - 1) ⟨w, mem_cons_self, by omega, by omega⟩
      omega

lemma pwrites_of_covers {xs : List α} (h : ∀ i, i < xs.length → Covers ws i) :
    pwrites filler ws xs = pwrites filler ws [] := by
  apply ext_getD
  · rw [length_pwrites, length_pwrites, length_nil]
    cases hlen : xs.length with
    | zero => rfl
    | succ n =>
      have := lt_reach (h n (by omega))
      omega
  · apply getD_pwrites_congr
    intro i
    rcases Nat.lt_or_ge i xs.length with hlt | hge
    · exact .inl (h i hlt)
    · right
      rw [getD_eq_default _ _ hge]
      rfl

end

end Kiseki.Overlay
