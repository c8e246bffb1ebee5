import Mathlib.Algebra.Group.Pi.Basic
import Mathlib.Algebra.GroupWithZero.Nat
import Mathlib.Algebra.Order.Monoid.Canonical.Defs
import Mathlib.Order.Lattice.Nat
import Mathlib.Order.UpperLower.Basic

namespace Kiseki.Tally

open List Nat

inductive Move where
  | up
  | down
deriving DecidableEq, Repr

def step (n : Nat) : Move → Nat
  | .up => n + 1
  | .down => n - 1

def walk (n : Nat) (ms : List Move) : Nat :=
  ms.foldl step n

def ups (ms : List Move) : Nat := ms.count .up

def downs (ms : List Move) : Nat := ms.count .down

section
variable (ms : List Move)

@[simp] lemma ups_up : ups (.up :: ms) = ups ms + 1 := count_cons_self

@[simp] lemma ups_down : ups (.down :: ms) = ups ms :=
  count_cons_of_ne (a := Move.up) (b := Move.down) nofun

@[simp] lemma downs_up : downs (.up :: ms) = downs ms :=
  count_cons_of_ne (a := Move.down) (b := Move.up) nofun

@[simp] lemma downs_down : downs (.down :: ms) = downs ms + 1 :=
  count_cons_self

end

variable {ms ms' : List Move}

lemma ups_append : ups (ms ++ ms') = ups ms + ups ms' :=
  count_append

lemma downs_append : downs (ms ++ ms') = downs ms + downs ms' :=
  count_append

/-- How far the downs run ahead of the start and the ups. -/
def ahead (n : Nat) (ms : List Move) (k : Nat) : Nat :=
  downs (ms.take k) - (n + ups (ms.take k))

def shortfall (n : Nat) (ms : List Move) : Nat :=
  (Finset.range (ms.length + 1)).sup (ahead n ms)

lemma ahead_le_shortfall (n : Nat) (ms : List Move) (hk : k ≤ ms.length) :
    ahead n ms k ≤ shortfall n ms :=
  Finset.le_sup (f := ahead n ms) (Finset.mem_range.2 (lt_succ_of_le hk))

lemma shortfall_le (h : ∀ k ≤ ms.length, ahead n ms k ≤ b) : shortfall n ms ≤ b :=
  Finset.sup_le fun k hk => h k (le_of_lt_succ (Finset.mem_range.1 hk))

section
variable (n : Nat) (ms : List Move) {k : Nat}

lemma ahead_down :
    ahead n (.down :: ms) (k + 1) = downs (ms.take k) + 1 - (n + ups (ms.take k)) := by
  simp only [ahead, take_succ_cons, ups_down, downs_down]

lemma shortfall_cons {n' : Nat} (hstep : ∀ k, ahead n (m :: ms) (k + 1) = ahead n' ms k) :
    shortfall n (m :: ms) = shortfall n' ms := by
  apply le_antisymm
  · apply shortfall_le
    intro k hk
    cases k with
    | zero => exact sub_le_of_le_add (zero_le _)
    | succ k =>
      rw [hstep]
      exact ahead_le_shortfall _ _ (le_of_succ_le_succ hk)
  · apply shortfall_le
    intro k hk
    rw [← hstep]
    exact ahead_le_shortfall _ _ (succ_le_succ hk)

lemma shortfall_up : shortfall n (.up :: ms) = shortfall (n + 1) ms := by
  apply shortfall_cons
  intro k
  simp only [ahead, take_succ_cons, ups_up, downs_up]
  omega

lemma shortfall_down_succ : shortfall (n + 1) (.down :: ms) = shortfall n ms := by
  apply shortfall_cons
  intro k
  rw [ahead_down, ahead]
  omega

end

variable {ms : List Move}

lemma shortfall_down_zero : shortfall 0 (.down :: ms) = shortfall 0 ms + 1 := by
  apply le_antisymm
  · apply shortfall_le
    intro k hk
    cases k with
    | zero => exact sub_le_of_le_add (zero_le _)
    | succ k =>
      have hle := ahead_le_shortfall 0 ms (le_of_succ_le_succ hk)
      rw [ahead] at hle
      rw [ahead_down]
      omega
  · obtain ⟨k, hk, hmax⟩ := Finset.exists_mem_eq_sup _
      (Finset.nonempty_range_iff.2 (succ_ne_zero ms.length)) (ahead 0 ms)
    have hk := le_of_lt_succ (Finset.mem_range.1 hk)
    rw [shortfall, hmax]
    by_cases hzero : ahead 0 ms k = 0
    · have hfirst := ahead_le_shortfall 0 (.down :: ms) (k := 1) (succ_le_succ (zero_le _))
      rw [ahead_down] at hfirst
      rw [hzero]
      exact hfirst
    · have hlead := ahead_le_shortfall 0 (.down :: ms) (succ_le_succ hk)
      rw [ahead_down] at hlead
      rw [ahead] at hzero ⊢
      omega

lemma walk_add_downs (n : Nat) (ms : List Move) :
    walk n ms + downs ms = n + ups ms + shortfall n ms := by
  induction ms generalizing n with
  | nil => simp [walk, shortfall, ahead, ups, downs]
  | cons m ms ih =>
    cases m with
    | up =>
      have h := ih (n + 1)
      rw [shortfall_up, ups_up, downs_up]
      change walk (n + 1) ms + _ = _
      omega
    | down =>
      rw [ups_down, downs_down]
      cases n with
      | zero =>
        have h := ih 0
        rw [shortfall_down_zero]
        change walk 0 ms + _ = _
        omega
      | succ n =>
        have h := ih n
        rw [shortfall_down_succ]
        change walk n ms + _ = _
        omega

lemma walk_le (n : Nat) : walk n ms ≤ n + ups ms := by
  have hle : shortfall n ms ≤ downs ms :=
    shortfall_le fun k _ => (Nat.sub_le _ _).trans ((take_sublist k ms).count_le _)
  have hsum := walk_add_downs n ms
  omega

section Credit
variable {σ ρ M : Type*} [AddCommMonoid M] [PartialOrder M] [CanonicallyOrderedAdd M]

lemma foldl_credit {room : Set M} (hroom : IsLowerSet room) {t : σ → M} {step : σ → ρ → σ}
    {credit : ρ → M} {l : List ρ} {s : σ}
    (hstep : ∀ s, ∀ r ∈ l, t s + credit r ∈ room → t (step s r) = t s + credit r)
    (h : t s + (l.map credit).sum ∈ room) :
    t (l.foldl step s) = t s + (l.map credit).sum := by
  induction l generalizing s with
  | nil => exact (add_zero (t s)).symm
  | cons r l ih =>
    rw [map_cons, sum_cons, ← add_assoc] at h ⊢
    have hfirst := hstep s r mem_cons_self (hroom le_self_add h)
    rw [← hfirst] at h ⊢
    exact ih (fun s' r' hr' => hstep s' r' (mem_cons_of_mem r hr')) h

end Credit

lemma foldl_mark {σ ρ : Type*} {P : σ → Prop} {mark : ρ → Prop} {step : σ → ρ → σ} {l : List ρ}
    {s : σ} (hstep : ∀ s, ∀ r ∈ l, P (step s r) ↔ P s ∨ mark r) :
    P (l.foldl step s) ↔ P s ∨ ∃ r ∈ l, mark r := by
  induction l generalizing s with
  | nil => simp only [foldl_nil, not_mem_nil, false_and, exists_false, or_false]
  | cons r l ih =>
    rw [foldl_cons, ih fun s' r' hr' => hstep s' r' (mem_cons_of_mem r hr'),
      hstep s r mem_cons_self, exists_mem_cons_iff, or_assoc]

section Counts
variable {ρ ι : Type*}

lemma sum_pair {M N : Type*} [AddCommMonoid M] [AddCommMonoid N] {xs : List ρ} (f : ρ → M)
    (g : ρ → N) :
    (xs.map fun x => (f x, g x)).sum = ((xs.map f).sum, (xs.map g).sum) := by
  induction xs with
  | nil => rfl
  | cons x xs ih =>
    rw [map_cons, sum_cons, ih]
    rfl

variable {xs : List ρ}

lemma sum_toNat (b : ρ → Bool) : (xs.map fun x => (b x).toNat).sum = xs.countP b := by
  induction xs with
  | nil => rfl
  | cons x xs ih =>
    rw [map_cons, sum_cons, ih, countP_cons, add_comm]
    cases b x <;> rfl

lemma sum_single [DecidableEq ι] (f : ρ → ι) (b : ρ → Bool) (i : ι) :
    (xs.map fun x => (Pi.single (f x) (b x).toNat : ι → Nat)).sum i =
      xs.countP fun x => f x = i && b x := by
  induction xs with
  | nil => rfl
  | cons x xs ih =>
    rw [map_cons, sum_cons, Pi.add_apply, ih, countP_cons]
    by_cases heq : f x = i
    · rw [heq, Pi.single_eq_same, decide_eq_true rfl, Bool.true_and, add_comm]
      cases b x <;> rfl
    · rw [Pi.single_eq_of_ne (Ne.symm heq), decide_eq_false heq]
      exact zero_add _

end Counts

end Kiseki.Tally
