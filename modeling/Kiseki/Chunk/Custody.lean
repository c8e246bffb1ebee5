import Kiseki.Chunk.Store

namespace Kiseki.Chunk

open Crash Kiseki.Block Function List

/-- A stored chunk, a stored fragment, or the running call. -/
inductive Owner where
  | chunk (id : ChunkId)
  | fragment (key : FragmentKey)
  | pending
deriving DecidableEq

section Reads
variable [DeviceBackend D] {device device' : D}

lemma readExtents_congr {extents : List Extent}
    (h : ∀ e ∈ extents, DeviceBackend.read device' e = DeviceBackend.read device e) :
    readExtents device' extents = readExtents device extents := by
  induction extents with
  | nil => rfl
  | cons e extents ih =>
    rw [readExtents, readExtents, h e mem_cons_self,
      ih fun e he => h e (mem_cons_of_mem _ he)]

lemma readExtents_cons {extents : List Extent} {data : Bytes}
    (h : readExtents device (e :: extents) = .ok data) :
    ∃ part rest, DeviceBackend.read device e = .ok part ∧ readExtents device extents = .ok rest ∧
      data = part ++ rest := by
  rw [readExtents] at h
  cases hpart : DeviceBackend.read device e with
  | error err =>
    rw [hpart] at h
    cases h
  | ok part =>
    cases hrest : readExtents device extents with
    | error err =>
      rw [hpart, hrest] at h
      cases h
    | ok rest =>
      rw [hpart, hrest] at h
      cases h
      exact ⟨part, rest, rfl, rfl, rfl⟩

lemma readExtents_concat {extents : List Extent} {data part : Bytes}
    (h : readExtents device extents = .ok data) (he : DeviceBackend.read device e = .ok part) :
    readExtents device (extents ++ [e]) = .ok (data ++ part) := by
  induction extents generalizing data with
  | nil =>
    cases h
    rw [nil_append, readExtents, he, readExtents]
    simp only [append_nil, nil_append]
  | cons first extents ih =>
    obtain ⟨head, rest, hhead, hrest, rfl⟩ := readExtents_cons h
    rw [cons_append, readExtents, hhead, ih hrest, append_assoc]

end Reads

lemma Extent.length_eq_zero_of_disjoint_self {e : Extent} (h : e.Disjoint e) : e.length = 0 := by
  simp only [Extent.Disjoint, Extent.stop] at h
  omega

/-- Each extent is allocated for one owner, who reads its own bytes back. -/
structure Kept [DeviceBackend D] [LawfulBackend D] (device : D) (live : Finset Extent)
    (t : Owner → List Extent) (c : Owner → Bytes) : Prop where
  holds : LawfulBackend.Holds device live
  owned : ∀ o e, e ∈ t o → e ∈ live
  nodup : ∀ o, (t o).Nodup
  apart : ∀ o o' e, e ∈ t o → e ∈ t o' → o = o'
  reads : ∀ o, readExtents device (t o) = .ok (c o)

namespace Kept
variable {D : Type} [DeviceBackend D] [LawfulBackend D] {device device' : D} {live : Finset Extent}
  {t : Owner → List Extent} {c : Owner → Bytes}

section
variable (h : Kept device live t c)

include h

lemma disjoint {o o' : Owner} {i j : Nat} {e e' : Extent}
    (he : (t o)[i]? = some e) (he' : (t o')[j]? = some e') (hne : (o, i) ≠ (o', j)) :
    e.Disjoint e' := by
  have hmem := mem_of_getElem? he
  have hmem' := mem_of_getElem? he'
  apply LawfulBackend.apart h.holds (h.owned o e hmem) (h.owned o' e' hmem')
  rintro rfl
  obtain rfl := h.apart o o' e hmem hmem'
  apply hne
  obtain ⟨hi, hei⟩ := List.getElem?_eq_some_iff.1 he
  obtain ⟨hj, hej⟩ := List.getElem?_eq_some_iff.1 he'
  rw [(h.nodup o).getElem_inj_iff.1 (hei.trans hej.symm)]

lemma assign {o : Owner} {extents : List Extent} {data : Bytes}
    (hlive : ∀ e ∈ extents, e ∈ live) (hnodup : extents.Nodup)
    (hothers : ∀ e ∈ extents, ∀ o', o' ≠ o → e ∉ t o')
    (hreads : readExtents device extents = .ok data) :
    Kept device live (update t o extents) (update c o data) := by
  refine ⟨h.holds, ?_, ?_, ?_, ?_⟩
  · intro o' e he
    by_cases ho : o' = o
    · rw [ho, update_self] at he
      exact hlive e he
    · rw [update_of_ne ho] at he
      exact h.owned o' e he
  · intro o'
    by_cases ho : o' = o
    · rw [ho, update_self]
      exact hnodup
    · rw [update_of_ne ho]
      exact h.nodup o'
  · intro o₁ o₂ e h₁ h₂
    by_cases ho₁ : o₁ = o
    · by_cases ho₂ : o₂ = o
      · exact ho₁.trans ho₂.symm
      · rw [ho₁, update_self] at h₁
        rw [update_of_ne ho₂] at h₂
        exact absurd h₂ (hothers e h₁ o₂ ho₂)
    · rw [update_of_ne ho₁] at h₁
      by_cases ho₂ : o₂ = o
      · rw [ho₂, update_self] at h₂
        exact absurd h₁ (hothers e h₂ o₁ ho₁)
      · rw [update_of_ne ho₂] at h₂
        exact h.apart o₁ o₂ e h₁ h₂
  · intro o'
    by_cases ho : o' = o
    · rw [ho, update_self, update_self]
      exact hreads
    · rw [update_of_ne ho, update_of_ne ho]
      exact h.reads o'

lemma forget (o : Owner) : Kept device live (update t o []) (update c o []) :=
  h.assign (fun _ he => absurd he not_mem_nil) nodup_nil
    (fun _ he => absurd he not_mem_nil) rfl

lemma settle (o : Owner) :
    Kept device live (update (update t .pending []) o (t .pending))
      (update (update c .pending []) o (c .pending)) := by
  apply (h.forget .pending).assign (h.owned .pending) (h.nodup .pending) ?_ (h.reads .pending)
  intro e he o' _ he'
  by_cases hp : o' = .pending
  · rw [hp, update_self] at he'
    cases he'
  · rw [update_of_ne hp] at he'
    exact hp (h.apart o' .pending e he' he)

lemma behead {o : Owner} (ho : t o = e :: extents) :
    ∃ data, Kept device live (update t o extents) (update c o data) ∧
      ∀ o', e ∉ update t o extents o' := by
  have hreads := h.reads o
  have hnodup := h.nodup o
  rw [ho] at hreads hnodup
  obtain ⟨part, data, _, hdata, _⟩ := readExtents_cons hreads
  obtain ⟨hnot, hnodup⟩ := nodup_cons.1 hnodup
  have hmem : ∀ e' ∈ extents, e' ∈ t o := by
    intro e' he'
    rw [ho]
    exact mem_cons_of_mem _ he'
  refine ⟨data, h.assign (fun e' he' => h.owned o e' (hmem e' he')) hnodup ?_ hdata, ?_⟩
  · intro e' he' o' hne ho'
    exact hne (h.apart o' o e' ho' (hmem e' he'))
  · intro o' he
    by_cases hoo : o' = o
    · rw [hoo, update_self] at he
      exact hnot he
    · rw [update_of_ne hoo] at he
      exact hoo (h.apart o' o e he (ho ▸ mem_cons_self))

lemma alloc (hok : DeviceBackend.allocInTier device size tier = .ok (e, device')) :
    Kept device' (insert e live) t c ∧ (∀ o, e ∉ t o) ∧ size + overhead ≤ e.length := by
  obtain ⟨hholds, hapart, hsize, hagree⟩ := LawfulBackend.allocInTier h.holds hok
  have hfresh : e ∉ live := by
    intro hmem
    have hzero := Extent.length_eq_zero_of_disjoint_self (hapart e hmem)
    have hpos := (LawfulBackend.inside h.holds hmem).1
    omega
  have hreads : ∀ o, readExtents device' (t o) = .ok (c o) := by
    intro o
    rw [← h.reads o]
    exact readExtents_congr fun e' he' => hagree.data e' (h.owned o e' he')
  exact ⟨⟨hholds, fun o e' he' => Finset.mem_insert_of_mem (h.owned o e' he'), h.nodup, h.apart,
    hreads⟩, fun o he => hfresh (h.owned o e he), hsize⟩

lemma write (he : e ∈ live) (hfree : ∀ o, e ∉ t o) (hfits : e.Fits data) :
    ∃ device', DeviceBackend.write device e data = .ok device' ∧
      Kept device' live (update t .pending (t .pending ++ [e]))
        (update c .pending (c .pending ++ data)) := by
  obtain ⟨device', hok, hholds, hread, hagree⟩ := LawfulBackend.write h.holds he hfits
  have hsame : ∀ o, readExtents device' (t o) = .ok (c o) := by
    intro o
    rw [← h.reads o]
    apply readExtents_congr
    intro e' he'
    apply hagree.data e' (Finset.mem_erase.2 ⟨?_, h.owned o e' he'⟩)
    intro heq
    exact hfree o (heq ▸ he')
  have hkept : Kept device' live t c := ⟨hholds, h.owned, h.nodup, h.apart, hsame⟩
  have hmem : ∀ e' ∈ t .pending ++ [e], e' ∈ t .pending ∨ e' = e := by
    intro e' he'
    exact (mem_append.1 he').imp_right mem_singleton.1
  refine ⟨device', hok, hkept.assign ?_ ?_ ?_ (readExtents_concat (hsame .pending) hread)⟩
  · intro e' he'
    rcases hmem e' he' with he' | rfl
    · exact h.owned .pending e' he'
    · exact he
  · apply nodup_append.2 ⟨h.nodup .pending, nodup_singleton e, ?_⟩
    intro e' he' e'' he'' heq
    rw [mem_singleton.1 he''] at heq
    exact hfree .pending (heq ▸ he')
  · intro e' he' o' hne ho'
    rcases hmem e' he' with he' | rfl
    · exact hne (h.apart o' .pending e' ho' he')
    · exact hfree o' ho'

lemma free (he : e ∈ live) (hfree : ∀ o, e ∉ t o) :
    ∃ device', DeviceBackend.free device e = .ok device' ∧ Kept device' (live.erase e) t c := by
  obtain ⟨device', hok, hholds, hagree⟩ := LawfulBackend.free h.holds he
  have hmem : ∀ o e', e' ∈ t o → e' ∈ live.erase e := by
    intro o e' he'
    apply Finset.mem_erase.2 ⟨?_, h.owned o e' he'⟩
    intro heq
    exact hfree o (heq ▸ he')
  refine ⟨device', hok, hholds, hmem, h.nodup, h.apart, ?_⟩
  intro o
  rw [← h.reads o]
  exact readExtents_congr fun e' he' => hagree.data e' (hmem o e' he')

end

end Kept

end Kiseki.Chunk
