import Mathlib.Algebra.BigOperators.Group.List.Basic
import Mathlib.Algebra.Ring.Nat

namespace Kiseki.Segments

open List Nat

variable {α β : Type*} {start stop : Nat}

lemma extract_append (xs ys : List α) :
    (xs ++ ys).extract start stop =
      xs.extract start stop ++ ys.extract (start - xs.length) (stop - xs.length) := by
  simp only [extract_eq_take_drop, drop_append, take_append, length_drop]
  congr 2
  omega

lemma extract_outside (xs : List α) {pos start stop : Nat}
    (h : pos + xs.length ≤ start ∨ stop ≤ pos) : xs.extract (start - pos) (stop - pos) = [] := by
  rw [extract_eq_take_drop, take_eq_nil_iff, drop_eq_nil_iff]
  omega

lemma extract_min_length {xs : List α} :
    xs.extract start (min stop xs.length) = xs.extract start stop := by
  rw [extract_eq_take_drop, extract_eq_take_drop, take_eq_take_iff, length_drop]
  omega

/-- What a window takes from segments at the given positions. -/
def window (start stop : Nat) (segs : List (List α × Nat)) : List α :=
  segs.flatMap fun seg => seg.1.extract (start - seg.2) (stop - seg.2)

def placed (pos : Nat) : List (List α) → List (List α × Nat)
  | [] => []
  | seg :: segs => (seg, pos) :: placed (pos + seg.length) segs

/-- The segments at the positions of a grid, from one of its cells on. -/
def onGrid (n cell : Nat) (segs : List β) : List (β × Nat) :=
  (segs.zipIdx cell).map fun seg => (seg.1, seg.2 * n)

def Filled (n : Nat) (segs : List (List α)) : Prop :=
  segs.Pairwise fun seg later => later ≠ [] → seg.length = n

section window
variable {start stop : Nat}

lemma window_cons (seg : List α × Nat) (segs : List (List α × Nat)) :
    window start stop (seg :: segs) =
      seg.1.extract (start - seg.2) (stop - seg.2) ++ window start stop segs := rfl

lemma window_placed (pos : Nat) (segs : List (List α)) :
    window start stop (placed pos segs) =
      segs.flatten.extract (start - pos) (stop - pos) := by
  induction segs generalizing pos with
  | nil => simp [placed, window, extract_eq_take_drop]
  | cons seg segs ih =>
    rw [placed, window_cons, ih, flatten_cons, extract_append, Nat.sub_sub, Nat.sub_sub]

lemma window_eq_nil {segs : List (List α × Nat)}
    (h : ∀ seg ∈ segs, seg.2 + seg.1.length ≤ start ∨ stop ≤ seg.2) :
    window start stop segs = [] := by
  rw [window, flatMap_eq_nil_iff]
  exact fun seg hseg => extract_outside seg.1 (h seg hseg)

lemma window_append (segs segs' : List (List α × Nat)) :
    window start stop (segs ++ segs') = window start stop segs ++ window start stop segs' :=
  flatMap_append

lemma window_drop_take {segs : List (List α × Nat)} (skip count : Nat)
    (hbefore : ∀ seg ∈ segs.take skip, seg.2 + seg.1.length ≤ start)
    (hbehind : ∀ seg ∈ segs.drop (skip + count), stop ≤ seg.2) :
    window start stop ((segs.drop skip).take count) = window start stop segs := by
  have hsplit : segs = segs.take skip ++ ((segs.drop skip).take count ++
      segs.drop (skip + count)) := by
    rw [← drop_drop, take_append_drop, take_append_drop]
  conv_rhs => rw [hsplit]
  rw [window_append, window_append, window_eq_nil fun seg hseg => .inl (hbefore seg hseg),
    window_eq_nil fun seg hseg => .inr (hbehind seg hseg), nil_append, append_nil]

lemma length_window_le (start stop : Nat) (segs : List (List α × Nat)) :
    (window start stop segs).length ≤ (segs.map fun seg => seg.1.length).sum := by
  induction segs with
  | nil => exact le_refl 0
  | cons seg segs ih =>
    rw [window_cons, length_append, map_cons, sum_cons]
    apply Nat.add_le_add _ ih
    rw [extract_eq_take_drop, length_take, length_drop]
    omega

lemma le_of_length_window {segs : List (List α × Nat)}
    (h : (window 0 stop segs).length = (segs.map fun seg => seg.1.length).sum) :
    ∀ seg ∈ segs, seg.1.length ≤ stop - seg.2 := by
  induction segs with
  | nil => exact fun _ hseg => (nomatch hseg)
  | cons seg segs ih =>
    rw [window_cons, length_append, map_cons, sum_cons, Nat.zero_sub,
      extract_eq_take_drop, drop_zero, length_take] at h
    have hrest := length_window_le 0 stop segs
    intro seg' hseg'
    rcases mem_cons.1 hseg' with rfl | hseg'
    · omega
    · exact ih (by omega) seg' hseg'

end window

section grid
variable {n cell : Nat} {segs : List (List α)}

lemma onGrid_cons (seg : β) (segs : List β) :
    onGrid n cell (seg :: segs) = (seg, cell * n) :: onGrid n (cell + 1) segs := rfl

lemma onGrid_map (f : β → γ) (segs : List β) :
    onGrid n cell (segs.map f) = (onGrid n cell segs).map fun seg => (f seg.1, seg.2) := by
  induction segs generalizing cell with
  | nil => rfl
  | cons seg segs ih => rw [map_cons, onGrid_cons, ih, onGrid_cons, map_cons]

lemma map_length_onGrid : (onGrid n cell segs).map (fun seg => seg.1.length) =
    segs.map List.length := by
  induction segs generalizing cell with
  | nil => rfl
  | cons seg segs ih => rw [onGrid_cons, map_cons, map_cons, ih]

lemma mem_onGrid {seg : List α × Nat} (h : seg ∈ onGrid n cell segs) : seg.1 ∈ segs := by
  obtain ⟨⟨x, i⟩, hx, rfl⟩ := mem_map.1 h
  rw [(mem_zipIdx hx).2.2]
  exact getElem_mem _

lemma window_onGrid_of_empty {start stop : Nat} (h : ∀ seg ∈ segs, seg = []) :
    window start stop (onGrid n cell segs) = [] := by
  rw [window, flatMap_eq_nil_iff]
  intro seg hseg
  rw [h seg.1 (mem_onGrid hseg), extract_eq_take_drop, drop_nil, take_nil]

lemma window_onGrid (h : Filled n segs) :
    window start stop (onGrid n cell segs) =
      segs.flatten.extract (start - cell * n) (stop - cell * n) := by
  rw [← window_placed]
  induction segs generalizing cell with
  | nil => rfl
  | cons seg segs ih =>
    obtain ⟨hseg, hsegs⟩ := pairwise_cons.1 h
    rw [onGrid_cons, placed, window_cons, window_cons]
    congr 1
    by_cases hempty : ∀ later ∈ segs, later = []
    · rw [window_onGrid_of_empty hempty, window_placed, flatten_eq_nil_iff.2 hempty,
        extract_eq_take_drop, drop_nil, take_nil]
    · obtain ⟨later, hlater, hne⟩ := by simpa only [not_forall] using hempty
      rw [ih hsegs, hseg later hlater hne, succ_mul]

lemma filled_of_fits (before cell total : Nat) (hlen : ∀ seg ∈ segs, seg.length ≤ n)
    (hbefore : before ≤ cell * n) (htotal : total = before + (segs.map List.length).sum)
    (hfits : ∀ seg ∈ onGrid n cell segs, seg.1 ≠ [] → seg.2 + seg.1.length ≤ total) :
    Filled n segs ∧ ((∃ seg ∈ segs, seg ≠ []) → before = cell * n) := by
  induction segs generalizing before cell with
  | nil => exact ⟨List.Pairwise.nil, fun ⟨_, hseg, _⟩ => (nomatch hseg)⟩
  | cons seg segs ih =>
    rw [map_cons, sum_cons] at htotal
    obtain ⟨hseg, hsegs⟩ := forall_mem_cons.1 hlen
    obtain ⟨hhead, htail⟩ := forall_mem_cons.1 hfits
    have hnext : before + seg.length ≤ (cell + 1) * n := by
      rw [succ_mul]
      exact Nat.add_le_add hbefore hseg
    obtain ⟨hfilled, hcell⟩ := ih (before + seg.length) (cell + 1) hsegs hnext (by omega) htail
    rw [succ_mul] at hcell
    by_cases hempty : ∀ later ∈ segs, later = []
    · have hzero : (segs.map length).sum = 0 := by
        apply sum_eq_zero
        intro len hmem
        obtain ⟨later, hlater, rfl⟩ := mem_map.1 hmem
        rw [hempty later hlater, length_nil]
      refine ⟨pairwise_cons.2 ⟨fun later hlater hne => absurd (hempty later hlater) hne,
        hfilled⟩, ?_⟩
      rintro ⟨seg', hseg', hne⟩
      rcases mem_cons.1 hseg' with rfl | hseg'
      · have := hhead hne
        dsimp only at this
        omega
      · exact absurd (hempty seg' hseg') hne
    · obtain ⟨later, hlater, hne⟩ := by simpa only [not_forall] using hempty
      have hfull := hcell ⟨later, hlater, hne⟩
      refine ⟨pairwise_cons.2 ⟨fun _ _ _ => by omega, hfilled⟩, fun _ => by omega⟩

lemma window_onGrid_all_iff (hlen : ∀ seg ∈ segs, seg.length ≤ n) :
    window 0 segs.flatten.length (onGrid n 0 segs) = segs.flatten ↔ Filled n segs := by
  constructor
  · intro hall
    have hsum : segs.flatten.length = (segs.map length).sum := length_flatten
    have hle := le_of_length_window (by rw [hall, map_length_onGrid, hsum])
    apply (filled_of_fits 0 0 _ hlen (zero_le _) (hsum.trans (zero_add _).symm) _).1
    intro seg hseg hne
    have hpos := length_pos_iff.2 hne
    have := hle seg hseg
    omega
  · intro hfilled
    rw [window_onGrid hfilled, Nat.zero_mul, Nat.sub_zero, Nat.sub_zero,
      extract_eq_take_drop, drop_zero, Nat.sub_zero, take_length]

lemma getElem?_onGrid (i : Nat) :
    (onGrid n 0 segs)[i]? = segs[i]?.map fun seg => (seg, i * n) := by
  simp only [onGrid, getElem?_map, getElem?_zipIdx, zero_add, Option.map_map]
  rfl

lemma window_grid_cells (hn : 0 < n) (hlen : ∀ seg ∈ segs, seg.length ≤ n)
    {start stop : Nat} (hlt : start < stop) :
    window start stop (((onGrid n 0 segs).drop (start / n)).take
      (min ((stop - 1) / n) (segs.length - 1) - start / n + 1)) =
        window start stop (onGrid n 0 segs) := by
  apply window_drop_take
  · intro seg hseg
    obtain ⟨i, hget⟩ := mem_iff_getElem?.1 hseg
    rw [getElem?_take, Option.ite_none_right_eq_some, getElem?_onGrid,
      Option.map_eq_some_iff] at hget
    obtain ⟨hi, data, hdata, rfl⟩ := hget
    have hcell : (i + 1) * n ≤ start :=
      le_trans (mul_le_mul_right n hi) (div_mul_le_self start n)
    rw [succ_mul] at hcell
    have := hlen data (mem_of_getElem? hdata)
    dsimp only
    omega
  · intro seg hseg
    obtain ⟨i, hget⟩ := mem_iff_getElem?.1 hseg
    rw [getElem?_drop, getElem?_onGrid, Option.map_eq_some_iff] at hget
    obtain ⟨data, hdata, rfl⟩ := hget
    obtain ⟨hbound, _⟩ := List.getElem?_eq_some_iff.1 hdata
    have hcells : (stop - 1) / n + 1 ≤
        start / n + (min ((stop - 1) / n) (segs.length - 1) - start / n + 1) + i := by
      have : start / n ≤ (stop - 1) / n := Nat.div_le_div_right (by omega)
      omega
    have hstop : stop ≤ ((stop - 1) / n + 1) * n := by
      have := lt_div_mul_add (a := stop - 1) hn
      rw [succ_mul]
      omega
    exact le_trans hstop (mul_le_mul_right n hcells)

end grid

def pieces (n : Nat) (xs : List α) : List (List α) :=
  (List.range ((xs.length + n - 1) / n)).map fun i => (xs.drop (i * n)).take n

section pieces
variable {n : Nat} {xs : List α}

lemma lt_cells_iff (hn : 0 < n) (i len : Nat) : i < (len + n - 1) / n ↔ i * n < len := by
  rw [← succ_le_iff, le_div_iff_mul_le hn, succ_mul]
  omega

lemma flatten_cells (n k : Nat) :
    ((List.range k).map fun i => (xs.drop (i * n)).take n).flatten = xs.take (k * n) := by
  induction k with
  | zero => simp
  | succ k ih =>
    rw [range_succ, map_append, flatten_append, ih, succ_mul, take_add]
    simp

lemma flatten_pieces (hn : 0 < n) (xs : List α) : (pieces n xs).flatten = xs := by
  rw [pieces, flatten_cells, take_of_length_le]
  have := (lt_cells_iff hn ((xs.length + n - 1) / n) xs.length).not.1 (lt_irrefl _)
  omega

lemma mem_pieces (hn : 0 < n) {piece : List α} :
    piece ∈ pieces n xs ↔ ∃ i, i * n < xs.length ∧ (xs.drop (i * n)).take n = piece := by
  simp only [pieces, mem_map, mem_range, lt_cells_iff hn]

lemma length_le_of_mem_pieces {piece : List α} (h : piece ∈ pieces n xs) : piece.length ≤ n := by
  obtain ⟨i, _, rfl⟩ := mem_map.1 h
  exact length_take_le n _

lemma ne_nil_of_mem_pieces (hn : 0 < n) {piece : List α} (h : piece ∈ pieces n xs) :
    piece ≠ [] := by
  obtain ⟨i, hi, rfl⟩ := (mem_pieces hn).1 h
  rw [← length_pos_iff, length_take, length_drop]
  omega

lemma pieces_ne_nil (hn : 0 < n) (h : xs ≠ []) : pieces n xs ≠ [] := by
  intro hnil
  exact h (by rw [← flatten_pieces hn xs, hnil, flatten_nil])

lemma filled_pieces (hn : 0 < n) : Filled n (pieces n xs) := by
  rw [Filled, pieces, pairwise_map]
  apply (pairwise_lt_range).imp_of_mem
  intro i j _ hj hij _
  rw [mem_range, lt_cells_iff hn] at hj
  have : (i + 1) * n ≤ j * n := mul_le_mul_right n hij
  rw [succ_mul] at this
  rw [length_take, length_drop]
  omega

lemma full_pieces_iff (hn : 0 < n) :
    (∀ piece ∈ pieces n xs, piece.length = n) ↔ n ∣ xs.length := by
  constructor
  · intro h
    have hsum : ((pieces n xs).map length).sum = (pieces n xs).length * n := by
      rw [map_congr_left h, map_const', sum_replicate_nat]
    rw [← flatten_pieces hn xs, length_flatten, hsum]
    exact dvd_mul_left n _
  · rintro ⟨k, hk⟩ piece hpiece
    obtain ⟨i, hi, rfl⟩ := (mem_pieces hn).1 hpiece
    rw [hk, mul_comm n k] at hi
    have : (i + 1) * n ≤ k * n := Nat.mul_le_mul_right n (Nat.lt_of_mul_lt_mul_right hi)
    rw [succ_mul] at this
    rw [length_take, length_drop, hk, mul_comm n k]
    omega

end pieces

end Kiseki.Segments
