import Kiseki.Lib.Maps
import Mathlib.Algebra.Ring.Nat
import Mathlib.Data.Finset.Max
import Mathlib.Data.Prod.Lex

namespace Kiseki

abbrev Bytes := List UInt8

/-- `[u8; 32]`: hashed keys, chunk identifiers and inline-store keys. -/
abbrev Key32 := Vector UInt8 32

abbrev Uuid := Vector UInt8 16

open List

structure OrgId where
  uuid : Uuid
deriving DecidableEq, Repr

structure ShardId where
  uuid : Uuid
deriving DecidableEq, Repr

structure ChunkId where
  bytes : Key32
deriving DecidableEq, Repr

abbrev NodeId := UInt64

def u64Max : Nat := 2 ^ 64 - 1

structure LogId where
  term : Nat
  nodeId : NodeId
  index : Nat
deriving DecidableEq, Repr

structure StoredMembership where
  logId : Option LogId := none
  voters : List NodeId := []
deriving DecidableEq, Repr

inductive EntryPayload (Cmd : Type) where
  | blank
  | normal (cmd : Cmd)
  | membership (voters : List NodeId)
deriving DecidableEq, Repr

structure Entry (Cmd : Type) where
  logId : LogId
  payload : EntryPayload Cmd
deriving DecidableEq, Repr

structure Snapshot (Image : Type) where
  lastLogId : Option LogId
  lastMembership : StoredMembership
  image : Image

structure HybridLogicalClock where
  physicalMs : UInt64
  logical : UInt32
  nodeId : NodeId
deriving DecidableEq, Repr

/-- Physical part first, then the logical part, then the node. -/
def HybridLogicalClock.lexKey (h : HybridLogicalClock) : ℕ ×ₗ ℕ ×ₗ ℕ :=
  toLex (h.physicalMs.toNat, toLex (h.logical.toNat, h.nodeId.toNat))

lemma HybridLogicalClock.lexKey_injective : Function.Injective HybridLogicalClock.lexKey := by
  intro a b h
  cases a with
  | mk p l n =>
    cases b with
    | mk p' l' n' =>
      simp only [lexKey, EmbeddingLike.apply_eq_iff_eq, Prod.mk.injEq, UInt64.toNat_inj,
        UInt32.toNat_inj] at h
      obtain ⟨rfl, rfl, rfl⟩ := h
      rfl

instance : LinearOrder HybridLogicalClock where
  le a b := a.lexKey ≤ b.lexKey
  lt a b := a.lexKey < b.lexKey
  le_refl _ := le_rfl
  le_trans _ _ _ := le_trans
  lt_iff_le_not_ge _ _ := lt_iff_le_not_ge
  le_antisymm _ _ h h' := HybridLogicalClock.lexKey_injective (le_antisymm h h')
  le_total _ _ := le_total _ _
  toDecidableLE a b := inferInstanceAs (Decidable (a.lexKey ≤ b.lexKey))
  toDecidableEq := inferInstance

structure WallTime where
  millisSinceEpoch : Nat
  timezone : String
deriving DecidableEq, Repr

inductive ClockQuality where
  | ntp
  | ptp
  | gps
  | unsync
deriving DecidableEq, Repr

structure DeltaTimestamp where
  hlc : HybridLogicalClock
  wall : WallTime
  quality : ClockQuality
deriving DecidableEq, Repr

def leByte (n i : Nat) : UInt8 :=
  UInt8.ofNat (n / 256 ^ i)

/-- `derive_inline_key`: the last eight bytes are XOR'd with the little-endian sequence. -/
def deriveInlineKey (hashedKey : Key32) (sequence : Nat) : Key32 :=
  Vector.ofFn fun i : Fin 32 =>
    if 24 ≤ i.val then hashedKey[i] ^^^ leByte sequence (i.val - 24) else hashedKey[i]

/-- A reliable `InlineStore`: `put` is a blind write, `delete` a blind remove. -/
abbrev InlineMap := Finmap fun _ : Key32 => Bytes

def InlineMap.putMany (m : InlineMap) (items : List (Key32 × Bytes)) : InlineMap :=
  items.foldl (fun m item => m.insert item.1 item.2) m

def InlineMap.deleteMany (m : InlineMap) (keys : List Key32) : InlineMap :=
  keys.foldl (fun m key => m.erase key) m

def lastPut (key : Key32) (items : List (Key32 × Bytes)) : Option Bytes :=
  items.foldl (fun found item => if key = item.1 then some item.2 else found) none

variable {key : Key32}

lemma lastPut_eq_or (items : List (Key32 × Bytes)) (found : Option Bytes) :
    items.foldl (fun found item => if key = item.1 then some item.2 else found) found =
      (lastPut key items).or found := by
  induction items generalizing found with
  | nil => rfl
  | cons item items ih =>
    rw [lastPut, foldl_cons, foldl_cons, ih, ih (if key = item.1 then _ else _)]
    split
    · cases lastPut key items <;> rfl
    · rw [Option.or_none]

lemma InlineMap.lookup_putMany (m : InlineMap) (items : List (Key32 × Bytes)) (key : Key32) :
    (m.putMany items).lookup key = (lastPut key items).or (m.lookup key) := by
  rw [← lastPut_eq_or, putMany]
  induction items generalizing m with
  | nil => rfl
  | cons item items ih =>
    rw [foldl_cons, foldl_cons, ih]
    rw [Maps.lookup_insert]

variable {m : InlineMap}

lemma InlineMap.putMany_append (items items' : List (Key32 × Bytes)) :
    m.putMany (items ++ items') = (m.putMany items).putMany items' :=
  foldl_append

lemma InlineMap.lookup_deleteMany (keys : List Key32) :
    (m.deleteMany keys).lookup key = if key ∈ keys then none else m.lookup key := by
  induction keys generalizing m with
  | nil => rfl
  | cons k keys ih =>
    change (InlineMap.deleteMany (m.erase k) keys).lookup key = _
    rw [ih]
    by_cases hk : key = k
    · subst hk
      rw [Finmap.lookup_erase, ite_self, if_pos mem_cons_self]
    · simp only [Finmap.lookup_erase_ne hk, mem_cons, or_iff_right hk]

lemma lastPut_eq_none {key : Key32} {items : List (Key32 × Bytes)} :
    lastPut key items = none ↔ ∀ item ∈ items, key ≠ item.1 := by
  induction items with
  | nil => exact ⟨fun _ _ h => (nomatch h), fun _ => rfl⟩
  | cons item items ih =>
    rw [lastPut, foldl_cons, lastPut_eq_or, Option.or_eq_none_iff, ih, forall_mem_cons,
      ite_eq_right_iff, and_comm]
    exact and_congr_left fun _ => ⟨fun h hk => (nomatch h hk), fun h hk => absurd hk h⟩

lemma lastPut_mem {key : Key32} {items : List (Key32 × Bytes)} {data : Bytes}
    (h : lastPut key items = some data) : (key, data) ∈ items := by
  induction items with
  | nil => cases h
  | cons item items ih =>
    rw [lastPut, foldl_cons, lastPut_eq_or, Option.or_eq_some_iff] at h
    rcases h with h | ⟨_, h⟩
    · exact mem_cons_of_mem _ (ih h)
    · split at h
      · cases h
        subst key
        exact mem_cons_self
      · cases h

end Kiseki
