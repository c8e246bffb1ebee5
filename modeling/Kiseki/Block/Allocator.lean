import Kiseki.Common
import Kiseki.Lib.Runs
import Mathlib.Data.List.MinMax

namespace Kiseki.Block
open Runs List Nat

structure Extent where
  offset : Nat
  length : Nat
deriving DecidableEq, Repr

def Extent.stop (e : Extent) : Nat := e.offset + e.length

def Extent.Disjoint (e e' : Extent) : Prop := e.stop ≤ e'.offset ∨ e'.stop ≤ e.offset

inductive AllocError where
  | deviceFull (requested available : Nat)
  | requestTooLarge (requested max : Nat)
  | inconsistency (message : String)
deriving DecidableEq, Repr

def maxExtentBytes : Nat := 16 * 1024 * 1024 + 8

def divCeil (n d : Nat) : Nat := (n + d - 1) / d

abbrev FreeList := Std.ExtTreeMap Nat Nat compare

structure BitmapAllocator where
  totalBlocks : Nat
  blockSize : Nat
  bitmap : Bytes
  freeList : FreeList
  blockSize_pos : 0 < blockSize

def mask (k : Nat) : UInt8 := 1 <<< UInt8.ofNat k

def bitAt (b : UInt8) (k : Nat) : Bool := (b >>> UInt8.ofNat k) &&& 1 == 1

def getBit (bitmap : Bytes) (block : Nat) : Bool :=
  match bitmap[block / 8]? with
  | some b => bitAt b (block % 8)
  | none => true

def setBit (allocated : Bool) (bitmap : Bytes) (block : Nat) : Bytes :=
  bitmap.modify (block / 8) fun b =>
    if allocated then b ||| mask (block % 8) else b &&& ~~~mask (block % 8)

def setBits (allocated : Bool) (bitmap : Bytes) (offset count : Nat) : Bytes :=
  (List.range' offset count).foldl (setBit allocated) bitmap

structure Scan where
  freeList : FreeList := ∅
  runStart : Option Nat := none

def Scan.close (st : Scan) (block : Nat) : FreeList :=
  match st.runStart with
  | some start => st.freeList.insert start (block - start)
  | none => st.freeList

def Scan.step (bitmap : Bytes) (st : Scan) (block : Nat) : Scan :=
  if getBit bitmap block then
    { freeList := st.close block, runStart := none }
  else
    { st with runStart := some (st.runStart.getD block) }

def rebuildFreeList (bitmap : Bytes) (totalBlocks : Nat) : FreeList :=
  ((List.range totalBlocks).foldl (Scan.step bitmap) {}).close totalBlocks

namespace FreeList

section
variable (m : FreeList)

def entryBelow (block : Nat) : Option (Nat × Nat) :=
  (m.toList.filter fun entry => decide (entry.1 < block)).getLast?

def coalesceNext (blockOffset : Nat) : FreeList :=
  match m[blockOffset]? with
  | none => m
  | some curLen =>
    match m[blockOffset + curLen]? with
    | none => m
    | some nextLen => (m.erase (blockOffset + curLen)).insert blockOffset (curLen + nextLen)

def coalesce (blockOffset : Nat) : FreeList :=
  match m.entryBelow blockOffset with
  | none => m.coalesceNext blockOffset
  | some (prevOffset, prevLen) =>
    if prevOffset + prevLen = blockOffset then
      let curLen := m[blockOffset]?.getD 0
      let merged : FreeList := (m.erase blockOffset).insert prevOffset (prevLen + curLen)
      merged.coalesceNext prevOffset
    else m.coalesceNext blockOffset

def bestFit (blocksNeeded : Nat) : Option (Nat × Nat) :=
  (m.toList.filter fun entry => decide (blocksNeeded ≤ entry.2)).argmin Prod.snd

def largest : Nat := (m.toList.map Prod.snd).max?.getD 0

def split (offset freeLen blocksNeeded : Nat) : FreeList :=
  if freeLen > blocksNeeded then
    (m.erase offset).insert (offset + blocksNeeded) (freeLen - blocksNeeded)
  else m.erase offset

end

end FreeList

namespace BitmapAllocator

def fromBitmap (bitmap : Bytes) (totalBlocks blockSize : Nat) (h : 0 < blockSize) :
    BitmapAllocator where
  totalBlocks := totalBlocks
  blockSize := blockSize
  bitmap := bitmap
  freeList := rebuildFreeList bitmap totalBlocks
  blockSize_pos := h

def new (totalBlocks blockSize : Nat) (h : 0 < blockSize) : BitmapAllocator :=
  fromBitmap (List.replicate (divCeil totalBlocks 8) 0) totalBlocks blockSize h

section
variable (a : BitmapAllocator)

def maxExtentBlocks : Nat := divCeil maxExtentBytes a.blockSize

def alloc (sizeBytes : Nat) : Except AllocError (Extent × BitmapAllocator) :=
  let blocksNeeded := divCeil sizeBytes a.blockSize
  if blocksNeeded = 0 then .error (.inconsistency "zero-size allocation")
  else if blocksNeeded > a.maxExtentBlocks then .error (.requestTooLarge sizeBytes maxExtentBytes)
  else
    match a.freeList.bestFit blocksNeeded with
    | none => .error (.deviceFull sizeBytes (a.freeList.largest * a.blockSize))
    | some (offset, freeLen) =>
      .ok (⟨offset * a.blockSize, blocksNeeded * a.blockSize⟩,
        { a with
          freeList := a.freeList.split offset freeLen blocksNeeded
          bitmap := setBits true a.bitmap offset blocksNeeded })

def free (extent : Extent) : Except AllocError BitmapAllocator :=
  let blockOffset := extent.offset / a.blockSize
  let blockCount := extent.length / a.blockSize
  if blockOffset + blockCount > a.totalBlocks then
    .error (.inconsistency ("free beyond device: offset=" ++ toString blockOffset ++ ", count=" ++
      toString blockCount ++ ", total=" ++ toString a.totalBlocks))
  else
    let inserted : FreeList := a.freeList.insert blockOffset blockCount
    .ok { a with
      bitmap := setBits false a.bitmap blockOffset blockCount
      freeList := inserted.coalesce blockOffset }

def freeBlocks : Nat := (a.freeList.toList.map Prod.snd).sum

def usedBytes : Nat := (a.totalBlocks - a.freeBlocks) * a.blockSize

def totalBytes : Nat := a.totalBlocks * a.blockSize

def Free (block : Nat) : Prop :=
  block < a.totalBlocks ∧ getBit a.bitmap block = false

end

instance (a : BitmapAllocator) : DecidablePred a.Free :=
  fun _ => inferInstanceAs (Decidable (_ ∧ _))

def Exact (a : BitmapAllocator) : Prop := Lists (fun block => a.freeList[block]?) a.Free

end BitmapAllocator

section
variable {bitmap : Bytes} {allocated : Bool} {b : UInt8} {i j k offset count : Nat}

lemma toNat_mask (hk : k < 8) : (mask k).toNat = 2 ^ k := by
  rw [mask, UInt8.toNat_shiftLeft, UInt8.toNat_ofNat', mod_eq_of_lt (by omega : k < 2 ^ 8),
    mod_eq_of_lt hk, UInt8.toNat_one, shiftLeft_eq, one_mul]
  exact Nat.mod_eq_of_lt (Nat.pow_lt_pow_right (by decide) hk)

lemma bitAt_eq_testBit (hk : k < 8) : bitAt b k = b.toNat.testBit k := by
  rw [bitAt, Bool.eq_iff_iff, beq_iff_eq, ← UInt8.toNat_inj, UInt8.toNat_and,
    UInt8.toNat_shiftRight, UInt8.toNat_ofNat', mod_eq_of_lt (by omega : k < 2 ^ 8),
    mod_eq_of_lt hk, UInt8.toNat_one, and_one_is_mod, shiftRight_eq_div_pow,
    testBit_eq_decide_div_mod_eq, decide_eq_true_eq]

lemma bitAt_or_mask (hk : k < 8) (hj : j < 8) :
    bitAt (b ||| mask k) j = if k = j then true else bitAt b j := by
  rw [bitAt_eq_testBit hj, bitAt_eq_testBit hj, UInt8.toNat_or, toNat_mask hk, testBit_or,
    testBit_two_pow]
  by_cases hkj : k = j
  · rw [if_pos hkj, decide_eq_true hkj, Bool.or_true]
  · rw [if_neg hkj, decide_eq_false hkj, Bool.or_false]

lemma bitAt_and_not_mask (hk : k < 8) (hj : j < 8) :
    bitAt (b &&& ~~~mask k) j = if k = j then false else bitAt b j := by
  have hlt : 2 ^ k < 2 ^ 8 := Nat.pow_lt_pow_right (by decide) hk
  have hnot : (~~~mask k).toNat = 2 ^ 8 - (2 ^ k + 1) := by
    rw [UInt8.toNat_not, toNat_mask hk, Nat.sub_sub, Nat.add_comm]
    rfl
  rw [bitAt_eq_testBit hj, bitAt_eq_testBit hj, UInt8.toNat_and, hnot, testBit_and,
    testBit_two_pow_sub_succ hlt, testBit_two_pow, decide_eq_true hj, Bool.true_and]
  by_cases hkj : k = j
  · rw [if_pos hkj, decide_eq_true hkj, Bool.not_true, Bool.and_false]
  · rw [if_neg hkj, decide_eq_false hkj, Bool.not_false, Bool.and_true]

lemma length_setBit : (setBit allocated bitmap i).length = bitmap.length :=
  length_modify _ _ _

lemma getBit_setBit (hi : i / 8 < bitmap.length) :
    getBit (setBit allocated bitmap i) j = if i = j then allocated else getBit bitmap j := by
  have hi8 : i % 8 < 8 := mod_lt _ (by decide)
  have hj8 : j % 8 < 8 := mod_lt _ (by decide)
  rw [getBit, setBit, getElem?_modify, getBit]
  by_cases hbyte : i / 8 = j / 8
  · obtain ⟨b, hb⟩ : ∃ b, bitmap[j / 8]? = some b := ⟨_, getElem?_eq_getElem (hbyte ▸ hi)⟩
    have hsame : i % 8 = j % 8 ↔ i = j := by omega
    simp only [hb, hbyte, if_true, Option.map_eq_map, Option.map_some, ← hsame]
    cases allocated with
    | true => exact bitAt_or_mask hi8 hj8
    | false => exact bitAt_and_not_mask hi8 hj8
  · have hne : i ≠ j := by
      intro heq
      exact hbyte (heq ▸ rfl)
    simp only [if_neg hbyte, if_neg hne, Option.map_eq_map, Option.map_id']

lemma getBit_setBits (hrange : ∀ i, offset ≤ i → i < offset + count → i / 8 < bitmap.length) :
    getBit (setBits allocated bitmap offset count) j =
      if offset ≤ j ∧ j < offset + count then allocated else getBit bitmap j := by
  induction count generalizing offset bitmap with
  | zero =>
    rw [if_neg (by omega)]
    rfl
  | succ count ih =>
    have hfirst := hrange offset le_rfl (by omega)
    rw [setBits, range'_succ, foldl_cons]
    change getBit (setBits allocated (setBit allocated bitmap offset) (offset + 1) count) j = _
    rw [ih fun i hi hlt => by rw [length_setBit]; exact hrange i (by omega) (by omega),
      getBit_setBit hfirst]
    by_cases hj : offset = j
    · rw [if_pos hj, if_pos (by omega : offset ≤ j ∧ j < offset + (count + 1)), ite_self]
    · rw [if_neg hj]
      by_cases hin : offset + 1 ≤ j ∧ j < offset + 1 + count
      · rw [if_pos hin, if_pos (by omega)]
      · rw [if_neg hin, if_neg (by omega)]

lemma length_setBits : (setBits allocated bitmap offset count).length = bitmap.length := by
  rw [setBits]
  induction range' offset count generalizing bitmap with
  | nil => rfl
  | cons i is ih => rw [foldl_cons, ih, length_setBit]

end

end Kiseki.Block
