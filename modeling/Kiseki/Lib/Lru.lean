import Mathlib.Data.List.Basic

namespace Lru

open List

structure Cache (K V : Type) where
  cap : Nat
  entries : List (K × V) := []

namespace Cache
variable {K V : Type} [DecidableEq K] {c : Cache K V} {p : K × V} {k : K} {v : V}

section
variable (c : Cache K V)

def get (k : K) : Option V × Cache K V :=
  match c.entries.find? fun p => decide (p.1 = k) with
  | none => (none, c)
  | some p => (some p.2, { c with entries := p :: c.entries.filter fun q => decide (q.1 ≠ k) })

def put (k : K) (v : V) : Cache K V :=
  { c with entries := ((k, v) :: c.entries.filter fun q => decide (q.1 ≠ k)).take c.cap }

def putAll (ps : List (K × V)) : Cache K V :=
  ps.foldl (fun c p => c.put p.1 p.2) c

def clear : Cache K V := { c with entries := [] }

def drop (q : K → Bool) : Cache K V :=
  { c with entries := c.entries.filter fun p => !q p.1 }

end

lemma mem_of_get (h : (c.get k).1 = some v) : (k, v) ∈ c.entries := by
  rw [get] at h
  split at h
  · cases h
  · rename_i p hp
    obtain rfl := Option.some.inj h
    have hkey : p.1 = k := by simpa using find?_some hp
    rw [← hkey]
    exact mem_of_find?_eq_some hp

lemma mem_get (h : p ∈ (c.get k).2.entries) : p ∈ c.entries := by
  rw [get] at h
  split at h
  · exact h
  · rcases mem_cons.1 h with rfl | h
    · exact mem_of_find?_eq_some ‹_›
    · exact (mem_filter.1 h).1

lemma mem_put (h : p ∈ (c.put k v).entries) : p = (k, v) ∨ p ∈ c.entries ∧ p.1 ≠ k := by
  refine (mem_cons.1 (mem_of_mem_take h)).imp_right fun h => ?_
  obtain ⟨hmem, hne⟩ := mem_filter.1 h
  exact ⟨hmem, of_decide_eq_true hne⟩

lemma mem_putAll {ps : List (K × V)} (h : p ∈ (c.putAll ps).entries) :
    p ∈ ps ∨ p ∈ c.entries := by
  induction ps generalizing c with
  | nil => exact .inr h
  | cons q ps ih =>
    rcases ih h with h | h
    · exact .inl (mem_cons_of_mem _ h)
    · rcases mem_put h with rfl | ⟨h, _⟩
      · exact .inl mem_cons_self
      · exact .inr h

omit [DecidableEq K] in
lemma mem_drop {q : K → Bool} (h : p ∈ (c.drop q).entries) : p ∈ c.entries ∧ q p.1 = false := by
  obtain ⟨hmem, hq⟩ := mem_filter.1 h
  exact ⟨hmem, (Bool.not_eq_true' _).mp hq⟩

end Cache

end Lru
