import Mathlib.Algebra.Ring.Nat

namespace LittleEndian

open List Nat

def bytes : Nat → Nat → List UInt8
  | 0, _ => []
  | w + 1, n => UInt8.ofNat (n % 256) :: bytes w (n / 256)

def value : List UInt8 → Nat
  | [] => 0
  | b :: bs => b.toNat + 256 * value bs

lemma length_bytes (w n : Nat) : (bytes w n).length = w := by
  induction w generalizing n with
  | zero => rfl
  | succ w ih => rw [bytes, length_cons, ih]

variable {w n : Nat}

lemma value_bytes_mod : value (bytes w n) = n % 256 ^ w := by
  induction w generalizing n with
  | zero => rw [pow_zero, mod_one]; rfl
  | succ w ih =>
    rw [bytes, value, ih, UInt8.toNat_ofNat', mod_mod, pow_succ, mul_comm (256 ^ w), mod_mul]

lemma value_bytes (h : n < 256 ^ w) : value (bytes w n) = n := by
  rw [value_bytes_mod, mod_eq_of_lt h]

def read (w : Nat) (input : List UInt8) : Nat × List UInt8 :=
  (value (input.take w), input.drop w)

@[simp]
lemma read_bytes (rest : List UInt8) : read w (bytes w n ++ rest) = (n % 256 ^ w, rest) := by
  have hlength := length_bytes w n
  rw [read, take_left' hlength, drop_left' hlength, value_bytes_mod]

lemma getLast?_bytes (h : n < 256 ^ (w + 1)) :
    (bytes (w + 1) n).getLast? = some 0 ↔ n < 256 ^ w := by
  induction w generalizing n with
  | zero =>
    rw [bytes, bytes, getLast?_singleton, Option.some_inj, ← UInt8.toNat_inj,
      UInt8.toNat_ofNat', mod_mod]
    rw [zero_add, pow_one] at h
    rw [pow_zero, lt_one_iff, mod_eq_of_lt h]
    rfl
  | succ w ih =>
    have hdiv : n / 256 < 256 ^ (w + 1) := by
      apply Nat.div_lt_of_lt_mul
      rw [Nat.mul_comm, ← Nat.pow_succ]
      exact h
    have hne : bytes (w + 1) (n / 256) ≠ [] := by
      rw [bytes]
      exact cons_ne_nil _ _
    rw [bytes, getLast?_cons_of_ne_nil hne, ih hdiv, div_lt_iff_lt_mul (by decide), ← pow_succ]

end LittleEndian
