import Kiseki.Log.Types

namespace Kiseki.Log.ConsumerWatermarks

open Finmap Option

def register (w : ConsumerWatermarks) (consumer : String) (position : Nat) : ConsumerWatermarks :=
  match w.lookup consumer with
  | some _ => w
  | none => w.insert consumer position

variable {w : ConsumerWatermarks} {consumer other : String}

lemma lookup_advance_self (w : ConsumerWatermarks) (consumer : String) (position : Nat) :
    (w.advance consumer position).lookup consumer =
      some (max position ((w.lookup consumer).getD 0)) := by
  rw [advance]
  split
  · rename_i entry hentry
    rw [hentry, getD_some]
    split
    · rw [lookup_insert, Nat.max_eq_left (Nat.le_of_lt ‹_›)]
    · rw [hentry, Nat.max_eq_right (Nat.le_of_not_lt ‹_›)]
  · rename_i hnone
    rw [hnone, lookup_insert, getD_none, Nat.max_zero]

variable {position : Nat}

lemma lookup_advance_of_ne (h : other ≠ consumer) :
    (w.advance consumer position).lookup other = w.lookup other := by
  rw [advance]
  split
  · split
    · exact lookup_insert_of_ne _ h
    · rfl
  · exact lookup_insert_of_ne _ h

lemma mem_values {p : Nat} :
    p ∈ (w.entries.map Sigma.snd).toFinset ↔ ∃ consumer, w.lookup consumer = some p := by
  rw [Multiset.mem_toFinset, Multiset.mem_map]
  constructor
  · rintro ⟨⟨consumer, q⟩, hmem, rfl⟩
    exact ⟨consumer, mem_lookup_iff.2 hmem⟩
  · rintro ⟨consumer, hlookup⟩
    exact ⟨⟨consumer, p⟩, mem_lookup_iff.1 hlookup, rfl⟩

lemma exists_of_gcBoundary (h : w.gcBoundary = some boundary) :
    ∃ consumer, w.lookup consumer = some boundary :=
  mem_values.1 (Finset.mem_of_min h)

lemma gcBoundary_le (h : w.lookup consumer = some p) :
    ∃ boundary, w.gcBoundary = some boundary ∧ boundary ≤ p := by
  have hmem := mem_values.2 ⟨consumer, h⟩
  obtain ⟨boundary, hboundary⟩ := Finset.min_of_mem hmem
  exact ⟨boundary, hboundary, Finset.min_le_of_eq hmem hboundary⟩

lemma gcBoundary_advance (w : ConsumerWatermarks) (consumer : String) (position : Nat) :
    ∃ boundary, (w.advance consumer position).gcBoundary = some boundary := by
  obtain ⟨boundary, hboundary, _⟩ := gcBoundary_le (w.lookup_advance_self consumer position)
  exact ⟨boundary, hboundary⟩

lemma of_gcBoundary_advance_le {P : Prop} {position bound : Nat}
    (hold : w.gcBoundary.getD 0 ≤ bound → P) (hnew : consumer ∉ w → position ≤ bound → P)
    (h : (w.advance consumer position).gcBoundary.getD 0 ≤ bound) : P := by
  obtain ⟨boundary, hboundary⟩ := w.gcBoundary_advance consumer position
  rw [hboundary, getD_some] at h
  have hbelow : ∀ other p, w.lookup other = some p → p ≤ bound → P := by
    intro other p hp hle
    obtain ⟨least, hleast, hlep⟩ := gcBoundary_le hp
    apply hold
    rw [hleast]
    exact hlep.trans hle
  obtain ⟨other, hother⟩ := exists_of_gcBoundary hboundary
  by_cases hself : other = consumer
  · rw [hself, lookup_advance_self] at hother
    have hmax := some.inj hother
    cases hlookup : w.lookup consumer with
    | none =>
      apply hnew (lookup_eq_none.1 hlookup)
      omega
    | some p =>
      rw [hlookup, getD_some] at hmax
      exact hbelow consumer p hlookup (by omega)
  · rw [lookup_advance_of_ne hself] at hother
    exact hbelow other boundary hother h

lemma register_of_mem (h : consumer ∈ w) : w.register consumer position = w := by
  obtain ⟨p, hp⟩ := mem_iff.1 h
  rw [register, hp]

lemma register_of_not_mem (h : consumer ∉ w) :
    w.register consumer position = w.advance consumer position := by
  rw [register, advance, lookup_eq_none.2 h]

end Kiseki.Log.ConsumerWatermarks
