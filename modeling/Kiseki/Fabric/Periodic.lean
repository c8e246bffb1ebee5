import Kiseki.Fabric.Scrub

namespace Kiseki.Fabric

/-- When the last sender is dropped, and what each pass takes and returns. -/
structure Wiring (R : Type) where
  interval : Nat
  interval_pos : 0 < interval
  dropped : Option Nat
  pass : Nat → Nat × R

namespace Wiring
variable {R : Type} {w : Wiring R} {n t : Nat}

def select (w : Wiring R) (now deadline : Nat) : Option Nat :=
  if w.dropped.any (· ≤ max now deadline) then none else some (max now deadline)

/-- The first tick is absorbed; each later one is due an interval on. -/
def start (w : Wiring R) : Nat → Option Nat
  | 0 => w.select 0 w.interval
  | n + 1 => (w.start n).bind fun t => w.select (t + (w.pass n).1) (t + w.interval)

def overrun (w : Wiring R) : Nat → Nat
  | 0 => 0
  | n + 1 => w.overrun n + ((w.pass n).1 - w.interval)

lemma select_some (h : w.select now deadline = some t) :
    max now deadline = t ∧ w.dropped.any (· ≤ t) = false := by
  rw [select, Option.ite_none_left_eq_some, Option.some.injEq] at h
  obtain ⟨hopen, rfl⟩ := h
  exact ⟨rfl, Bool.eq_false_of_not_eq_true hopen⟩

lemma start_some (h : w.start n = some t) :
    t = (n + 1) * w.interval + w.overrun n ∧ w.dropped.any (· ≤ t) = false := by
  induction n generalizing t with
  | zero =>
    obtain ⟨rfl, hopen⟩ := select_some h
    exact ⟨by rw [overrun]; omega, hopen⟩
  | succ n ih =>
    obtain ⟨s, hs, hnext⟩ := Option.bind_eq_some_iff.1 h
    obtain ⟨rfl, hopen⟩ := select_some hnext
    refine ⟨?_, hopen⟩
    rw [(ih hs).1, overrun, Nat.succ_mul (n + 1)]
    omega

lemma exists_start (h : w.dropped = none) (n : Nat) : ∃ t, w.start n = some t := by
  have hselect (now deadline : Nat) : w.select now deadline = some (max now deadline) := by
    rw [select, h]
    rfl
  cases n with
  | zero => exact ⟨_, hselect _ _⟩
  | succ n =>
    obtain ⟨t, ht⟩ := exists_start h n
    exact ⟨_, by rw [start, ht, Option.bind_some, hselect]⟩

/-- All passes are made exactly if the sender stays and none falls behind. -/
theorem periodic_scrub_iff (w : Wiring R) :
    (∀ n, ∀ k < n, ∃ t ≤ (n + 1) * w.interval, w.start k = some t) ↔
      w.dropped = none ∧ ∀ n, w.overrun n ≤ w.interval := by
  constructor
  · intro h
    have hstart (n : Nat) : w.overrun n ≤ w.interval ∧
        w.dropped.any (· ≤ (n + 1) * w.interval + w.overrun n) = false := by
      obtain ⟨t, hle, ht⟩ := h (n + 1) n (Nat.lt_succ_self n)
      obtain ⟨rfl, hopen⟩ := start_some ht
      rw [Nat.succ_mul (n + 1)] at hle
      exact ⟨by omega, hopen⟩
    refine ⟨?_, fun n => (hstart n).1⟩
    cases hdropped : w.dropped with
    | none => rfl
    | some s =>
      have hopen := (hstart s).2
      have hle : s + 1 ≤ (s + 1) * w.interval := Nat.le_mul_of_pos_right _ w.interval_pos
      rw [hdropped, Option.any_some, decide_eq_false_iff_not] at hopen
      omega
  · intro ⟨hdropped, hoverrun⟩ n k hk
    obtain ⟨t, ht⟩ := exists_start hdropped k
    refine ⟨t, ?_, ht⟩
    have hle : (k + 2) * w.interval ≤ (n + 1) * w.interval := Nat.mul_le_mul_right _ (by omega)
    have hlate := hoverrun k
    rw [Nat.succ_mul] at hle
    rw [(start_some ht).1]
    omega

end Wiring

/-- The server drops the sender as soon as the loop is spawned. -/
theorem scrub_never_runs : ∃ w : Wiring Unit,
    w.interval = 600 ∧ w.dropped = some 0 ∧ ∀ n, w.start n = none := by
  refine ⟨⟨600, Nat.succ_pos _, some 0, fun _ => (0, ())⟩, rfl, rfl, fun n => ?_⟩
  cases h : Wiring.start _ n with
  | none => rfl
  | some t => cases (Wiring.start_some h).2

end Kiseki.Fabric
