import Kiseki.Block.FreeRuns

namespace Kiseki.Block

inductive BlockError where
  | invalidInput (message : String)
  | unexpectedEof
  | corruption (offset : Nat) (expected actual : UInt32)
  | notInitialized
deriving DecidableEq, Repr

inductive StorageTier where
  | fast
  | bulk
  | cold
deriving DecidableEq, Repr

def StorageTier.rank : StorageTier → Nat
  | .fast => 0
  | .bulk => 1
  | .cold => 2

def headerSize : Nat := 4

def crcSize : Nat := 4

def overhead : Nat := headerSize + crcSize

def u32Max : Nat := 2 ^ 32 - 1

def Extent.Fits (e : Extent) (data : Bytes) : Prop :=
  data.length ≤ u32Max ∧ data.length ≤ e.length - overhead

instance (e : Extent) (data : Bytes) : Decidable (e.Fits data) :=
  inferInstanceAs (Decidable (_ ∧ _))

/-- The trait; a failed call leaves the device as it was. -/
class DeviceBackend (D : Type) where
  alloc : D → Nat → Except AllocError (Extent × D)
  allocInTier : D → Nat → Option StorageTier → Except AllocError (Extent × D) :=
    fun d size _ => alloc d size
  write : D → Extent → Bytes → Except BlockError D
  read : D → Extent → Except BlockError Bytes
  free : D → Extent → Except AllocError D
  capacity : D → Nat × Nat
  tier : D → StorageTier
  reopen : D → D

open DeviceBackend

structure Agree [DeviceBackend D] (d d' : D) (extents : Finset Extent) : Prop where
  total : (capacity d').2 = (capacity d).2
  tier : tier d' = tier d
  data : ∀ e ∈ extents, read d' e = read d e

/-- What a caller may rely on, for the extents it has out. -/
class LawfulBackend (D : Type) [DeviceBackend D] where
  Holds : D → Finset Extent → Prop
  Marked : D → Extent → Prop
  inside {d : D} {live : Finset Extent} {e : Extent} : Holds d live → e ∈ live →
    0 < e.length ∧ e.stop ≤ (capacity d).2
  apart {d : D} {live : Finset Extent} {e e' : Extent} : Holds d live → e ∈ live → e' ∈ live →
    e ≠ e' → e.Disjoint e'
  marked {d : D} {live : Finset Extent} {e : Extent} : Holds d live → e ∈ live → Marked d e
  reopen {d : D} {live : Finset Extent} : Holds d live → DeviceBackend.reopen d = d
  allocInTier {d d' : D} {live : Finset Extent} {e : Extent} {size : Nat}
    {hint : Option StorageTier} : Holds d live →
    DeviceBackend.allocInTier d size hint = .ok (e, d') →
    Holds d' (insert e live) ∧ (∀ e' ∈ live, e.Disjoint e') ∧ size + overhead ≤ e.length ∧
      Agree d d' live
  alloc {d d' : D} {live : Finset Extent} {e : Extent} {size : Nat} : Holds d live →
    DeviceBackend.alloc d size = .ok (e, d') →
    Holds d' (insert e live) ∧ (∀ e' ∈ live, e.Disjoint e') ∧ size + overhead ≤ e.length ∧
      Agree d d' live
  free {d : D} {live : Finset Extent} {e : Extent} : Holds d live → e ∈ live →
    ∃ d', DeviceBackend.free d e = .ok d' ∧ Holds d' (live.erase e) ∧ Agree d d' (live.erase e)
  write {d : D} {live : Finset Extent} {e : Extent} {data : Bytes} : Holds d live → e ∈ live →
    e.Fits data → ∃ d', DeviceBackend.write d e data = .ok d' ∧ Holds d' live ∧
      read d' e = .ok data ∧ Agree d d' (live.erase e)
  rejects {d : D} {live : Finset Extent} {e : Extent} {data : Bytes} : Holds d live → e ∈ live →
    ¬e.Fits data → ∃ err, DeviceBackend.write d e data = .error err

end Kiseki.Block
