import Kiseki.Gateway.Routing
import Kiseki.Log.Midpoint

namespace Kiseki.Gateway
open BigEndian List Nat Log

/-- The loop of `range_point`: long division to base 256. -/
def divideBytes (divisor : Nat) : Nat → Nat → Bytes
  | 0, _ => []
  | w + 1, remainder =>
    UInt8.ofNat (remainder * 256 / divisor) :: divideBytes divisor w (remainder * 256 % divisor)

lemma length_divideBytes : (divideBytes d w r).length = w := by
  induction w generalizing r with
  | zero => rfl
  | succ w ih => rw [divideBytes, length_cons, ih]

def rangePoint (i shardCount : Nat) : Key32 :=
  if i = 0 then .replicate 32 0 else ⟨(divideBytes shardCount 32 i).toArray, length_divideBytes⟩

def shardRange (ids : Nat → ShardId) (shardCount i : Nat) : ShardRange where
  shardId := ids i
  rangeStart := rangePoint i shardCount
  rangeEnd := if i = shardCount - 1 then .replicate 32 0xFF else rangePoint (i + 1) shardCount

/-- `ids` are the fresh ids. -/
def computeShardRanges (ids : Nat → ShardId) (shardCount : Nat) : List ShardRange :=
  (range shardCount).map (shardRange ids shardCount)

def ShardRange.Covers (r : ShardRange) (last : Prop) (key : Key32) : Prop :=
  ¬key.toList < r.rangeStart.toList ∧ (last ∨ key.toList < r.rangeEnd.toList)

lemma divideBytes_eq (h : r < d) : divideBytes d w r = bytes w (r * 256 ^ w / d) := by
  induction w generalizing r with
  | zero => rfl
  | succ w ih =>
    have hd : 0 < d := by omega
    have hp : 0 < 256 ^ w := Nat.pow_pos (by decide)
    have hrest : r * 256 % d * 256 ^ w / d < 256 ^ w :=
      Nat.div_lt_of_lt_mul (Nat.mul_lt_mul_of_pos_right (mod_lt _ hd) hp)
    have hsplit : r * 256 ^ (w + 1) =
        d * (256 ^ w * (r * 256 / d)) + r * 256 % d * 256 ^ w := by
      rw [← Nat.mul_assoc, Nat.mul_right_comm, ← Nat.add_mul, div_add_mod, Nat.pow_succ',
        Nat.mul_assoc]
    rw [divideBytes, bytes, ih (mod_lt _ hd), hsplit, mul_add_div hd, mul_add_div hp,
      div_eq_of_lt hrest, mul_add_mod, mod_eq_of_lt hrest, Nat.add_zero]

lemma rangePoint_toList (h : i < n) : (rangePoint i n).toList = bytes 32 (i * 256 ^ 32 / n) := by
  rw [rangePoint]
  split
  · next hi =>
    rw [hi, Nat.zero_mul, Nat.zero_div]
    rfl
  · exact divideBytes_eq h

/-- The last of the shards that start at or below a key. -/
def shardOf (key : Key32) (n : Nat) : Nat := (keyValue key * (n + 1) + n) / 256 ^ 32

lemma shardOf_le : shardOf key n ≤ n := by
  have hlt := (bytes_of_value key.length_toList).1
  have hle : (keyValue key + 1) * (n + 1) ≤ 256 ^ 32 * (n + 1) := Nat.mul_le_mul_right _ hlt
  rw [Nat.succ_mul] at hle
  exact le_of_lt_succ (Nat.div_lt_of_lt_mul (by omega))

lemma lt_rangePoint_iff (hi : i ≤ n) :
    key.toList < (rangePoint i (n + 1)).toList ↔ shardOf key n < i := by
  obtain ⟨hlt, hkey⟩ := bytes_of_value key.length_toList
  have hpoint : i * 256 ^ 32 / (n + 1) < 256 ^ 32 :=
    Nat.div_lt_of_lt_mul (Nat.mul_lt_mul_of_pos_right (lt_succ_of_le hi) (by decide))
  rw [rangePoint_toList (lt_succ_of_le hi), ← hkey, bytes_lt_bytes_iff hlt hpoint, shardOf,
    Nat.div_lt_iff_lt_mul (by decide), Nat.lt_iff_add_one_le,
    Nat.le_div_iff_mul_le (add_one_pos n), Nat.add_mul, ← keyValue]
  omega

lemma covers_iff (hi : i ≤ n) :
    (shardRange ids (n + 1) i).Covers (i = n) key ↔ i = shardOf key n := by
  have hle : shardOf key n ≤ n := shardOf_le
  rw [ShardRange.Covers, shardRange, lt_rangePoint_iff hi]
  by_cases hlast : i = n
  · rw [eq_true hlast, true_or, and_true]
    omega
  · dsimp only
    rw [if_neg (by omega), lt_rangePoint_iff (by omega)]
    omega

lemma takeWhile_range {p : Nat → Bool} (hk : k < n) (hp : ∀ i < n, p i = decide (i ≤ k)) :
    (range n).takeWhile p = range (k + 1) := by
  obtain ⟨m, rfl⟩ := Nat.exists_eq_add_of_le hk
  rw [range_add, takeWhile_append_of_pos]
  · cases m with
    | zero => exact append_nil _
    | succ m =>
      have hstop : ¬p (k + 1) = true := by
        rw [hp (k + 1) (by omega), decide_eq_true_iff]
        omega
      rw [range_succ_eq_map (n := m), map_cons, takeWhile_cons_of_neg hstop, append_nil]
  · intro i hi
    have hle := mem_range.1 hi
    rw [hp i (by omega), decide_eq_true_iff]
    omega

/-- A key is in one range of a new namespace, and routed to it. -/
theorem computed_ranges_route (ids : Nat → ShardId) (n : Nat) (key : Key32) :
    ∃ i ≤ n, routeToShard ⟨computeShardRanges ids (n + 1)⟩ key = some (ids i) ∧
      ∀ j ≤ n, ((shardRange ids (n + 1) j).Covers (j = n) key ↔ j = i) := by
  have hle : shardOf key n ≤ n := shardOf_le
  refine ⟨shardOf key n, hle, ?_, fun j hj => covers_iff hj⟩
  have hbelow : ∀ i < n + 1, ((fun s : ShardRange => !decide (key.toList < s.rangeStart.toList)) ∘
      shardRange ids (n + 1)) i = decide (i ≤ shardOf key n) := by
    intro i hi
    have hstart := @lt_rangePoint_iff i n key (le_of_lt_succ hi)
    rw [Function.comp_apply, shardRange, decide_eq_decide.2 hstart, ← decide_not,
      decide_eq_decide, Nat.not_lt]
  have hcovers := ((@covers_iff _ n ids key hle).2 rfl).2
  rw [routeToShard, computeShardRanges, takeWhile_map, takeWhile_range (lt_succ_of_le hle) hbelow]
  simp only [range_succ, map_append, map_cons, map_nil, getLast?_concat, Option.bind_some]
  rw [if_neg]
  · rfl
  · rintro ⟨hlen, hend⟩
    exact hcovers.elim (fun hlast => hlen (by simp [hlast])) hend

end Kiseki.Gateway
