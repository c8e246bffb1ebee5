import Mathlib.Data.Finmap

namespace Maps

open Option

variable {α : Type u} {β : Type v} [DecidableEq α]

def retain (p : α → β → Bool) (m : Finmap fun _ : α => β) : Finmap fun _ : α => β where
  entries := m.entries.filter fun e => p e.1 e.2
  nodupKeys := by
    have hle := Multiset.map_le_map (f := Sigma.fst)
      (Multiset.filter_le (fun e : Sigma fun _ : α => β => p e.1 e.2 = true) m.entries)
    exact Multiset.nodup_keys.1 (Multiset.nodup_of_le hle (Multiset.nodup_keys.2 m.nodupKeys))

section
variable (m : Finmap fun _ : α => β) (k j : α) {b : β}

lemma lookup_insert : (m.insert k b).lookup j = if j = k then some b else m.lookup j := by
  split
  · next h => rw [h, Finmap.lookup_insert]
  · next h => exact Finmap.lookup_insert_of_ne _ h

lemma lookup_insert_some :
    (m.insert k b).lookup j = if some k = some j then some b else m.lookup j := by
  simp only [lookup_insert, some.injEq, eq_comm]

lemma lookup_erase : (m.erase k).lookup j = if j = k then none else m.lookup j := by
  split
  · next h => rw [h, Finmap.lookup_erase]
  · next h => exact Finmap.lookup_erase_ne h

end

section
variable {m : Finmap fun _ : α => β} {k j : α} {b c : β}

lemma of_lookup_insert (h : (m.insert k b).lookup j = some c) :
    j = k ∧ c = b ∨ j ≠ k ∧ m.lookup j = some c := by
  rw [lookup_insert] at h
  split at h
  · next hj => exact .inl ⟨hj, (some.inj h).symm⟩
  · next hj => exact .inr ⟨hj, h⟩

lemma lookup_erase_held [DecidableEq β] (h : m.lookup k = some b) :
    (m.erase k).lookup j =
      if some k = some j ∧ m.lookup j = some b then none else m.lookup j := by
  rw [lookup_erase]
  grind

lemma of_lookup_erase (h : (m.erase k).lookup j = some c) : j ≠ k ∧ m.lookup j = some c := by
  rw [lookup_erase, ite_none_left_eq_some] at h
  exact h

lemma forall_insert {P : α → β → Prop} (hm : ∀ j c, m.lookup j = some c → P j c) (hk : P k b) :
    ∀ j c, (m.insert k b).lookup j = some c → P j c := by
  intro j c h
  obtain ⟨rfl, rfl⟩ | ⟨_, h⟩ := of_lookup_insert h
  · exact hk
  · exact hm j c h

end

lemma lookup_retain (p : α → β → Bool) (m : Finmap fun _ : α => β) (k : α) :
    (retain p m).lookup k = (m.lookup k).filter (p k) := by
  apply ext
  intro b
  rw [← mem_def, ← mem_def, Finmap.mem_lookup_iff, mem_def,
    filter_eq_some_iff, ← mem_def, Finmap.mem_lookup_iff]
  exact Multiset.mem_filter

def mapValues (f : β → γ) (m : Finmap fun _ : α => β) : Finmap fun _ : α => γ where
  entries := m.entries.map fun e => ⟨e.1, f e.2⟩
  nodupKeys := by
    apply Multiset.nodup_keys.1
    have hkeys : (m.entries.map fun e => (⟨e.1, f e.2⟩ : Sigma fun _ : α => γ)).keys =
        m.entries.keys := Multiset.map_map _ _ _
    rw [hkeys]
    exact Multiset.nodup_keys.2 m.nodupKeys

@[simp]
lemma lookup_mapValues (f : β → γ) (m : Finmap fun _ : α => β) {k : α} :
    (mapValues f m).lookup k = (m.lookup k).map f := by
  apply ext
  intro c
  rw [← mem_def, Finmap.mem_lookup_iff, map_eq_some_iff]
  constructor
  · intro h
    obtain ⟨e, he, heq⟩ := Multiset.mem_map.1 h
    cases heq
    exact ⟨e.2, Finmap.mem_lookup_iff.2 he, rfl⟩
  · rintro ⟨b, hb, rfl⟩
    exact Multiset.mem_map.2 ⟨⟨k, b⟩, Finmap.mem_lookup_iff.1 hb, rfl⟩

end Maps
