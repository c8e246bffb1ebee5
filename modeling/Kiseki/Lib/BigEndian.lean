import Mathlib.Algebra.Ring.Nat
import Mathlib.Data.List.Lex

namespace BigEndian

open List Nat

def bytes : Nat → Nat → List UInt8
  | 0, _ => []
  | w + 1, n => UInt8.ofNat (n / 256 ^ w) :: bytes w (n % 256 ^ w)

lemma length_bytes (w n : Nat) : (bytes w n).length = w := by
  induction w generalizing n with
  | zero => rfl
  | succ w ih => rw [bytes, length_cons, ih]

lemma ofNat_lt_ofNat_iff (ha : a < 256) (hb : b < 256) :
    UInt8.ofNat a < UInt8.ofNat b ↔ a < b := by
  rw [UInt8.lt_iff_toNat_lt, UInt8.toNat_ofNat', UInt8.toNat_ofNat', mod_eq_of_lt ha,
    mod_eq_of_lt hb]

lemma ofNat_eq_ofNat_iff (ha : a < 256) (hb : b < 256) :
    UInt8.ofNat a = UInt8.ofNat b ↔ a = b := by
  rw [← UInt8.toNat_inj, UInt8.toNat_ofNat', UInt8.toNat_ofNat', mod_eq_of_lt ha, mod_eq_of_lt hb]

lemma lt_iff_div_mod (n m : Nat) (hp : 0 < p) :
    n < m ↔ n / p < m / p ∨ n / p = m / p ∧ n % p < m % p := by
  have hn := div_add_mod n p
  have hm := div_add_mod m p
  have hnr := mod_lt n hp
  constructor
  · intro h
    rcases Nat.lt_or_eq_of_le (Nat.div_le_div_right (c := p) h.le) with hlt | heq
    · exact .inl hlt
    · refine .inr ⟨heq, ?_⟩
      rw [heq] at hn
      omega
  · rintro (hlt | ⟨heq, hlt⟩)
    · exact lt_of_div_lt_div hlt
    · rw [heq] at hn
      omega

lemma bytes_lt_bytes_iff (hn : n < 256 ^ w) (hm : m < 256 ^ w) :
    bytes w n < bytes w m ↔ n < m := by
  induction w generalizing n m with
  | zero =>
    rw [pow_zero] at hn hm
    have hnil : ¬bytes 0 n < bytes 0 m := not_lt_nil _
    exact iff_of_false hnil (by omega)
  | succ w ih =>
    have hp : 0 < 256 ^ w := Nat.pow_pos (by decide)
    rw [pow_succ, mul_comm] at hn hm
    have hnd : n / 256 ^ w < 256 := (div_lt_iff_lt_mul hp).2 hn
    have hmd : m / 256 ^ w < 256 := (div_lt_iff_lt_mul hp).2 hm
    rw [bytes, bytes, cons_lt_cons_iff, ofNat_lt_ofNat_iff hnd hmd, ofNat_eq_ofNat_iff hnd hmd,
      ih (mod_lt n hp) (mod_lt m hp), lt_iff_div_mod n m hp]

lemma bytes_inj (hn : n < 256 ^ w) (hm : m < 256 ^ w) : bytes w n = bytes w m ↔ n = m := by
  constructor
  · intro h
    have hle := (bytes_lt_bytes_iff hn hm).not.1 (h ▸ List.lt_irrefl _)
    have hge := (bytes_lt_bytes_iff hm hn).not.1 (h ▸ List.lt_irrefl _)
    omega
  · rintro rfl
    rfl

lemma append_lt_append_iff [LT α] {a b c d : List α} (h : a.length = b.length) :
    a ++ c < b ++ d ↔ a < b ∨ a = b ∧ c < d := by
  induction a generalizing b with
  | nil =>
    obtain rfl := length_eq_zero_iff.1 h.symm
    simp only [nil_append, true_and, not_lt_nil, false_or]
  | cons x a ih =>
    cases b with
    | nil => cases h
    | cons y b =>
      rw [cons_append, cons_append, cons_lt_cons_iff, cons_lt_cons_iff, ih (succ.inj h), cons.injEq]
      constructor
      · rintro (hlt | ⟨rfl, hlt | ⟨rfl, hlt⟩⟩)
        · exact .inl (.inl hlt)
        · exact .inl (.inr ⟨rfl, hlt⟩)
        · exact .inr ⟨⟨rfl, rfl⟩, hlt⟩
      · rintro ((hlt | ⟨rfl, hlt⟩) | ⟨⟨rfl, rfl⟩, hlt⟩)
        · exact .inl hlt
        · exact .inr ⟨rfl, .inl hlt⟩
        · exact .inr ⟨rfl, .inr ⟨rfl, hlt⟩⟩

/-- The number that digits to base 256 stand for, the first digit highest. -/
def value : List Nat → Nat
  | [] => 0
  | d :: ds => d * 256 ^ ds.length + value ds

def toNats (l : List UInt8) : List Nat := l.map UInt8.toNat

lemma bytes_value (l : List UInt8) :
    value (toNats l) < 256 ^ l.length ∧ bytes l.length (value (toNats l)) = l := by
  induction l with
  | nil => exact ⟨Nat.one_pos, rfl⟩
  | cons b l ih =>
    have hb := b.toNat_lt
    have hp : 0 < 256 ^ l.length := Nat.pow_pos (by decide)
    change b.toNat * 256 ^ (toNats l).length + value (toNats l) < _ ∧
      bytes (l.length + 1) (b.toNat * 256 ^ (toNats l).length + value (toNats l)) = _
    rw [toNats, length_map, ← toNats, bytes, mul_comm, mul_add_div hp, div_eq_of_lt ih.1,
      mul_add_mod, mod_eq_of_lt ih.1, ih.2, Nat.add_zero, UInt8.ofNat_toNat]
    refine ⟨?_, rfl⟩
    have hle : 256 ^ l.length * (b.toNat + 1) ≤ 256 ^ l.length * 256 := Nat.mul_le_mul_left _ hb
    rw [Nat.mul_add, Nat.mul_one] at hle
    rw [length_cons, pow_succ]
    omega

lemma bytes_of_value {l : List UInt8} (h : l.length = w) :
    value (toNats l) < 256 ^ w ∧ bytes w (value (toNats l)) = l :=
  h ▸ bytes_value l

lemma value_bytes (h : n < 256 ^ w) : value (toNats (bytes w n)) = n := by
  obtain ⟨hlt, heq⟩ := bytes_of_value (length_bytes w n)
  exact (bytes_inj hlt h).1 heq

lemma lt_iff_value_lt {a b : List UInt8} (h : a.length = b.length) :
    a < b ↔ value (toNats a) < value (toNats b) := by
  obtain ⟨ha, hbytes⟩ := bytes_value a
  obtain ⟨hb, hbytes'⟩ := bytes_of_value h.symm
  conv_lhs => rw [← hbytes, ← hbytes']
  exact bytes_lt_bytes_iff ha hb

lemma eq_iff_value_eq {a b : List UInt8} (h : a.length = b.length) :
    a = b ↔ value (toNats a) = value (toNats b) := by
  obtain ⟨ha, hbytes⟩ := bytes_value a
  obtain ⟨hb, hbytes'⟩ := bytes_of_value h.symm
  conv_lhs => rw [← hbytes, ← hbytes']
  exact bytes_inj ha hb

end BigEndian
