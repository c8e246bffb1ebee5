import Kiseki.Lib.Segments
import Mathlib.Data.List.Nodup

/-! Systematic erasure codes: data is cut into shards of one size, parity shards are added, and any
set of slots that is large enough gives all shards back. -/

namespace Erasure

open List Option

/-- A coder, by the numbers of data and parity shards. -/
structure Coder (α : Type u) where
  accepts : Nat → Nat → Bool
  parity : Nat → Nat → List (List α) → Option (List (List α))
  reconstruct : Nat → Nat → List (Option (List α)) → Option (List (Option (List α)))

structure Agrees (slots : List (Option β)) (shards : List β) : Prop where
  length : slots.length = shards.length
  filled : ∀ (i : Nat) (b : β), slots[i]? = some (some b) → shards[i]? = some b

/-- As many slots as data shards are completed to all shards. -/
structure Coder.Lawful (coder : Coder α) : Prop where
  parity_length {k m : Nat} {data extra : List (List α)} :
    coder.parity k m data = some extra → extra.length = m
  parity_size {k m n : Nat} {data extra : List (List α)} : (∀ part ∈ data, part.length = n) →
    coder.parity k m data = some extra → ∀ part ∈ extra, part.length = n
  reconstruct {k m n : Nat} {data extra : List (List α)} {slots : List (Option (List α))} :
    coder.accepts k m → data.length = k → 0 < n → (∀ part ∈ data, part.length = n) →
    coder.parity k m data = some extra → Agrees slots (data ++ extra) →
    k ≤ slots.countP Option.isSome →
    coder.reconstruct k m slots = some ((data ++ extra).map some)

structure Coder.Codes (coder : Coder α) (k m : Nat) : Prop where
  accepts : coder.accepts k m
  parity {n : Nat} {data : List (List α)} : data.length = k → 0 < n →
    (∀ part ∈ data, part.length = n) → ∃ extra, coder.parity k m data = some extra

section Shards

def shard (filler : α) (n : Nat) (data : List α) (i : Nat) : List α :=
  let part := (data.drop (i * n)).take n
  part ++ List.replicate (n - part.length) filler

def shards (filler : α) (n k : Nat) (data : List α) : List (List α) :=
  (List.range k).map (shard filler n data)

@[simp]
lemma length_shards (filler : α) {n k : Nat} {data : List α} :
    (shards filler n k data).length = k := by
  rw [shards, length_map, length_range]

variable {filler : α}

lemma length_shard (n : Nat) (data : List α) (i : Nat) : (shard filler n data i).length = n := by
  rw [shard, length_append, length_replicate]
  have hle : ((data.drop (i * n)).take n).length ≤ n := length_take_le _ _
  omega

lemma length_of_mem_shards {filler : α} (h : part ∈ shards filler n k data) :
    part.length = n := by
  obtain ⟨i, _, rfl⟩ := mem_map.1 h
  exact length_shard n data i

lemma shard_eq {n pad i : Nat} {data : List α} (h : i * n + n ≤ data.length + pad) :
    shard filler n data i = ((data ++ List.replicate pad filler).drop (i * n)).take n := by
  rw [shard, drop_append, take_append, drop_replicate, take_replicate, length_take, length_drop]
  congr 2
  omega

lemma flatten_shards {n k : Nat} {data : List α} (h : data.length ≤ k * n) :
    (shards filler n k data).flatten =
      data ++ List.replicate (k * n - data.length) filler := by
  have hcut : shards filler n k data = (range k).map fun i =>
      ((data ++ replicate (k * n - data.length) filler).drop (i * n)).take n := by
    apply map_congr_left
    intro i hi
    apply shard_eq
    have hle : (i + 1) * n ≤ k * n := Nat.mul_le_mul_right n (mem_range.1 hi)
    rw [Nat.succ_mul] at hle
    omega
  rw [hcut, Kiseki.Segments.flatten_cells, take_of_length_le]
  rw [length_append, length_replicate]
  omega

end Shards

section Slots
variable {β : Type v} {slots : List (Option β)} {full : List β} {responses : List (Nat × β)}

/-- Numbered responses in their slots; a later one replaces an earlier one. -/
def fill (slots : List (Option β)) (responses : List (Nat × β)) : List (Option β) :=
  responses.foldl
    (fun slots r => if r.1 < slots.length then slots.set r.1 (some r.2) else slots) slots

@[simp]
lemma agrees_replicate : Agrees (List.replicate full.length none) full := by
  apply Agrees.mk length_replicate
  intro i b h
  rw [getElem?_replicate] at h
  split at h
  · cases h
  · cases h

lemma Agrees.set (h : Agrees slots full)
    (hi : full[i]? = some b) : Agrees (slots.set i (some b)) full := by
  apply Agrees.mk (length_set.trans h.length)
  intro j b' hj
  by_cases hne : i = j
  · subst hne
    rw [getElem?_set_self'] at hj
    cases hslot : slots[i]? with
    | none =>
      rw [hslot] at hj
      cases hj
    | some _ =>
      rw [hslot] at hj
      cases hj
      exact hi
  · rw [getElem?_set_ne hne] at hj
    exact h.filled j b' hj

lemma Agrees.fill (h : Agrees slots full) (hresponses : ∀ r ∈ responses, full[r.1]? = some r.2) :
    Agrees (fill slots responses) full := by
  induction responses generalizing slots with
  | nil => exact h
  | cons r rest ih =>
    rw [Erasure.fill, foldl_cons]
    have hrest : ∀ r' ∈ rest, full[r'.1]? = some r'.2 := fun r' hr' =>
      hresponses r' (mem_cons_of_mem r hr')
    split
    · exact ih (h.set (hresponses r mem_cons_self)) hrest
    · exact ih h hrest

lemma countP_fill (hnodup : (responses.map Prod.fst).Nodup)
    (hempty : ∀ r ∈ responses, slots[r.1]? = some none) :
    (fill slots responses).countP Option.isSome =
      slots.countP Option.isSome + responses.length := by
  induction responses generalizing slots with
  | nil => rfl
  | cons r rest ih =>
    obtain ⟨hr, hrest⟩ := nodup_cons.1 hnodup
    obtain ⟨hlt, hnone⟩ := List.getElem?_eq_some_iff.1 (hempty r List.mem_cons_self)
    have hempty' : ∀ r' ∈ rest, (slots.set r.1 (some r.2))[r'.1]? = some none := by
      intro r' hr'
      have hne : r.1 ≠ r'.1 := by
        intro heq
        exact hr (heq ▸ mem_map_of_mem hr')
      rw [getElem?_set_ne hne]
      exact hempty r' (mem_cons_of_mem r hr')
    rw [fill, foldl_cons, if_pos hlt]
    have hset : (slots.set r.1 (some r.2)).countP isSome =
        slots.countP isSome + 1 := by
      rw [countP_set hlt, hnone]
      simp
    have hfill := ih hrest hempty'
    rw [hset] at hfill
    rw [length_cons]
    exact hfill.trans (by omega)

end Slots

section Mirror

def firstFilled (slots : List (Option β)) : Option β :=
  slots.findSome? id

lemma Agrees.firstFilled {slots : List (Option β)} (h : Agrees slots (List.replicate total b))
    (hpresent : 0 < slots.countP Option.isSome) : firstFilled slots = some b := by
  obtain ⟨slot, hslot, hsome⟩ := countP_pos_iff.1 hpresent
  have hfirst : (Erasure.firstFilled slots).isSome := by
    rw [Erasure.firstFilled, findSome?_isSome_iff]
    exact ⟨slot, hslot, hsome⟩
  obtain ⟨b', hb'⟩ := isSome_iff_exists.1 hfirst
  obtain ⟨slot', hmem, hslot'⟩ := exists_of_findSome?_eq_some hb'
  obtain ⟨i, hi⟩ := mem_iff_getElem?.1 hmem
  have hshard := h.filled i b' (hi.trans (congrArg some hslot'))
  rw [getElem?_replicate] at hshard
  split at hshard
  · cases hshard
    exact hb'
  · cases hshard

/-- The code with one data shard, of which each parity shard is a copy. -/
def mirror (α : Type u) : Coder α where
  accepts k m := k = 1 && 0 < m
  parity _ m data := data.head?.map (List.replicate m)
  reconstruct k m slots :=
    (firstFilled slots).map fun shard => List.replicate (k + m) (some shard)

lemma mirror_lawful {α : Type u} : (mirror α).Lawful := by
  apply Coder.Lawful.mk
  · intro k m data extra h
    obtain ⟨part, _, rfl⟩ := map_eq_some_iff.1 h
    exact length_replicate
  · intro k m n data extra hsize h part' hpart'
    obtain ⟨part, hpart, rfl⟩ := map_eq_some_iff.1 h
    rw [eq_of_mem_replicate hpart']
    exact hsize part (mem_of_mem_head? hpart)
  · intro k m n data extra slots haccepts hlength hn hsize h hagrees hpresent
    have hk : k = 1 := of_decide_eq_true (Bool.and_eq_true_iff.1 haccepts).1
    subst hk
    obtain ⟨shard, hdata⟩ := length_eq_one_iff.1 hlength
    subst hdata
    cases h
    have hall : [shard] ++ replicate m shard = replicate (1 + m) shard := by
      rw [Nat.add_comm, replicate_succ]
      rfl
    rw [hall] at hagrees ⊢
    change (firstFilled slots).map _ = _
    rw [hagrees.firstFilled hpresent, map_some, map_replicate]

lemma mirror_codes (α : Type u) (hm : 0 < m) : (mirror α).Codes 1 m where
  accepts := decide_eq_true hm
  parity := by
    intro n data hlength _ _
    obtain ⟨shard, rfl⟩ := length_eq_one_iff.1 hlength
    exact ⟨_, rfl⟩

end Mirror

end Erasure
