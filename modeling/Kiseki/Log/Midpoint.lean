import Kiseki.Log.Split
import Mathlib.Tactic.Ring

namespace Kiseki.Log

open BigEndian List Nat

/-- The addition from the last byte on: carry and sums. -/
def addBytes : List UInt8 → List UInt8 → Nat × List Nat
  | a :: as, b :: bs =>
    let (carry, sum) := addBytes as bs
    let s := a.toNat + b.toNat + carry
    (s / 256, s % 256 :: sum)
  | _, _ => (0, [])

def halveBytes (borrow : Nat) : List Nat → List UInt8
  | [] => []
  | s :: sum =>
    let val := borrow * 256 + s
    (if val / 2 < 256 then UInt8.ofNat (val / 2) else 0xFF) :: halveBytes (val % 2) sum

lemma addBytes_spec {as bs : List UInt8} (h : as.length = bs.length) :
    (addBytes as bs).1 ≤ 1 ∧ (∀ d ∈ (addBytes as bs).2, d < 256) ∧
      (addBytes as bs).2.length = as.length ∧
      (addBytes as bs).1 * 256 ^ as.length + value (addBytes as bs).2 =
        value (toNats as) + value (toNats bs) := by
  induction as generalizing bs with
  | nil =>
    cases bs with
    | nil => exact ⟨Nat.zero_le _, nofun, rfl, rfl⟩
    | cons b bs => cases h
  | cons a as ih =>
    cases bs with
    | nil => cases h
    | cons b bs =>
      obtain ⟨hcarry, hdigits, hlength, hvalue⟩ := ih (succ.inj h)
      have ha := a.toNat_lt
      have hb := b.toNat_lt
      have hdiv := div_add_mod (a.toNat + b.toNat + (addBytes as bs).1) 256
      simp only [addBytes, toNats, map_cons, value, length_cons, length_map]
      refine ⟨by omega, ?_, congrArg succ hlength, ?_⟩
      · exact forall_mem_cons.2 ⟨mod_lt _ (by decide), hdigits⟩
      · rw [← toNats, ← toNats, hlength, ← succ.inj h, pow_succ]
        calc
          _ = (256 * ((a.toNat + b.toNat + (addBytes as bs).1) / 256) +
              (a.toNat + b.toNat + (addBytes as bs).1) % 256) * 256 ^ as.length +
              value (addBytes as bs).2 := by ring
          _ = (a.toNat + b.toNat) * 256 ^ as.length +
              ((addBytes as bs).1 * 256 ^ as.length + value (addBytes as bs).2) := by
            rw [hdiv]
            ring
          _ = _ := by
            rw [hvalue]
            ring

lemma halveBytes_spec {borrow : Nat} {sum : List Nat} (hborrow : borrow ≤ 1)
    (hdigits : ∀ d ∈ sum, d < 256) : (halveBytes borrow sum).length = sum.length ∧
      value (toNats (halveBytes borrow sum)) = (borrow * 256 ^ sum.length + value sum) / 2 := by
  induction sum generalizing borrow with
  | nil => exact ⟨rfl, (div_eq_of_lt (by rw [length_nil, pow_zero, value]; omega)).symm⟩
  | cons s sum ih =>
    have hs := hdigits s mem_cons_self
    have hborrow' : (borrow * 256 + s) % 2 ≤ 1 := by omega
    obtain ⟨hlength, hvalue⟩ := ih hborrow' fun d hd => hdigits d (mem_cons_of_mem s hd)
    have hval : (borrow * 256 + s) / 2 < 256 := by omega
    refine ⟨congrArg succ hlength, ?_⟩
    simp only [halveBytes, if_pos hval, toNats, map_cons, value, length_cons, length_map]
    rw [← toNats, hvalue, hlength, UInt8.toNat_ofNat', mod_eq_of_lt hval]
    have hsplit : borrow * 256 ^ (sum.length + 1) + (s * 256 ^ sum.length + value sum) =
        2 * ((borrow * 256 + s) / 2 * 256 ^ sum.length) +
          ((borrow * 256 + s) % 2 * 256 ^ sum.length + value sum) := by
      conv_lhs => rw [pow_succ]
      calc
        _ = (borrow * 256 + s) * 256 ^ sum.length + value sum := by ring
        _ = (2 * ((borrow * 256 + s) / 2) + (borrow * 256 + s) % 2) * 256 ^ sum.length +
            value sum := by rw [div_add_mod]
        _ = _ := by ring
    rw [hsplit, mul_add_div (by decide)]

def keyValue (key : Key32) : Nat := value (toNats key.toList)

def averageBytes (rangeStart rangeEnd : Key32) : List UInt8 :=
  let (carry, sum) := addBytes rangeStart.toList rangeEnd.toList
  halveBytes carry sum

lemma averageBytes_spec (s e : Key32) : (averageBytes s e).length = 32 ∧
    value (toNats (averageBytes s e)) = (keyValue s + keyValue e) / 2 := by
  obtain ⟨hcarry, hdigits, hlength, hvalue⟩ :=
    addBytes_spec (s.length_toList.trans e.length_toList.symm)
  obtain ⟨hlength', hvalue'⟩ := halveBytes_spec hcarry hdigits
  refine ⟨hlength'.trans (hlength.trans s.length_toList), hvalue'.trans ?_⟩
  rw [hlength, hvalue]
  rfl

def computeMidpoint (rangeStart rangeEnd : Key32) : Option Key32 :=
  let mid : Key32 := ⟨(averageBytes rangeStart rangeEnd).toArray,
    (averageBytes_spec rangeStart rangeEnd).1⟩
  if mid = rangeStart ∨ mid = rangeEnd then none else some mid

lemma key_eq_iff {a b : Key32} : a = b ↔ keyValue a = keyValue b := by
  rw [keyValue, keyValue, ← eq_iff_value_eq (a.length_toList.trans b.length_toList.symm),
    Vector.toList_inj]

/-- The average of the keys, given exactly if it is neither. -/
theorem compute_midpoint_average (s e : Key32) (h : keyValue s ≤ keyValue e) : ∃ m : Key32,
    keyValue m = (keyValue s + keyValue e) / 2 ∧
    (2 ≤ keyValue e - keyValue s →
      computeMidpoint s e = some m ∧ keyValue s < keyValue m ∧ keyValue m < keyValue e) ∧
    (keyValue e - keyValue s < 2 → computeMidpoint s e = none) := by
  let m : Key32 := ⟨(averageBytes s e).toArray, (averageBytes_spec s e).1⟩
  have hm : keyValue m = (keyValue s + keyValue e) / 2 := (averageBytes_spec s e).2
  have hends : (m = s ∨ m = e) ↔ keyValue m = keyValue s ∨ keyValue m = keyValue e :=
    or_congr key_eq_iff key_eq_iff
  refine ⟨m, hm, ?_, ?_⟩
  · intro hfar
    exact ⟨if_neg (hends.not.2 (by omega)), by omega, by omega⟩
  · intro hnear
    exact if_pos (hends.2 (by omega))

theorem compute_midpoint_average_full : ∃ m : Key32, computeMidpoint (.replicate 32 0)
    (Vector.replicate 32 0xFF) = some m := by
  obtain ⟨m, _, hsome, _⟩ := compute_midpoint_average (.replicate 32 0)
    (Vector.replicate 32 0xFF) (by decide +kernel)
  exact ⟨m, (hsome (by decide +kernel)).1⟩

def oddBytes (key : Key32) : Nat := value (key.toList.map fun b => b.toNat % 2)

lemma toList_midpoint (s e : Key32) :
    (midpoint s e).toList = zipWith (fun a b => a / 2 + b / 2) s.toList e.toList := by
  apply ext_getElem
  · simp
  · intro i hi hi'
    simp [midpoint, Vector.get]

lemma two_mul_value_halves {as bs : List UInt8} (h : as.length = bs.length) :
    2 * value (toNats (zipWith (fun a b => a / 2 + b / 2) as bs)) +
        value (as.map fun b => b.toNat % 2) + value (bs.map fun b => b.toNat % 2) =
      value (toNats as) + value (toNats bs) := by
  induction as generalizing bs with
  | nil =>
    cases bs with
    | nil => rfl
    | cons b bs => cases h
  | cons a as ih =>
    cases bs with
    | nil => cases h
    | cons b bs =>
      have ha := a.toNat_lt
      have hb := b.toNat_lt
      have hhalf : (a / 2 + b / 2).toNat = a.toNat / 2 + b.toNat / 2 := by
        rw [UInt8.toNat_add, UInt8.toNat_div, UInt8.toNat_div]
        exact mod_eq_of_lt (by change a.toNat / 2 + b.toNat / 2 < 256; omega)
      have ih := ih (succ.inj h)
      simp only [toNats] at ih
      simp only [toNats, zipWith_cons_cons, map_cons, value, length_map, length_zipWith, hhalf,
        ← succ.inj h, Nat.min_self]
      calc
        _ = (2 * (a.toNat / 2) + a.toNat % 2) * 256 ^ as.length +
            (2 * (b.toNat / 2) + b.toNat % 2) * 256 ^ as.length +
            (2 * value (map UInt8.toNat (zipWith (fun a b => a / 2 + b / 2) as bs)) +
              value (as.map fun b => b.toNat % 2) + value (bs.map fun b => b.toNat % 2)) := by ring
        _ = _ := by
          rw [div_add_mod, div_add_mod, ih]
          ring

/-- Inside the range exactly if it is wider than what halving drops. -/
theorem split_midpoint_iff (s e : Key32) :
    ((s.toList < (midpoint s e).toList ∧ (midpoint s e).toList < e.toList) ↔
      keyValue s + oddBytes s + oddBytes e < keyValue e) ∧
    (keyValue s + oddBytes s + oddBytes e < keyValue e →
      ∀ key, (InRange s e key ↔ InRange s (midpoint s e) key ∨ InRange (midpoint s e) e key) ∧
        ¬(InRange s (midpoint s e) key ∧ InRange (midpoint s e) e key)) := by
  have hlt (a b : Key32) : a.toList < b.toList ↔ keyValue a < keyValue b :=
    lt_iff_value_lt (a.length_toList.trans b.length_toList.symm)
  have htwo : 2 * keyValue (midpoint s e) + oddBytes s + oddBytes e = keyValue s + keyValue e := by
    rw [keyValue, toList_midpoint]
    exact two_mul_value_halves (s.length_toList.trans e.length_toList.symm)
  simp only [InRange, hlt]
  constructor
  · omega
  · intro hwide key
    omega

/-- The range below 1, 0, 0, … is cut at its start. -/
theorem split_leaves_empty_range : ∃ s e : Key32, s.toList < e.toList ∧ midpoint s e = s :=
  ⟨Vector.replicate 32 0, (Vector.replicate 32 0).set 0 1, by decide, by decide⟩

end Kiseki.Log
