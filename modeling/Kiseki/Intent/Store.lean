import Kiseki.Lib.BigEndian
import Kiseki.Log.Types

namespace Kiseki.Intent
open Log BigEndian

abbrev PerspectiveSeq := HybridLogicalClock

abbrev IdempotencyKey := Vector UInt8 16

/-- A `BTreeMap` or a keyspace, in ascending order of its seqs. -/
abbrev SeqMap (α : Type) := Std.ExtTreeMap PerspectiveSeq α compare

instance transCmpSeq : Std.TransCmp (compare (α := PerspectiveSeq)) :=
  inferInstanceAs (Std.TransOrd PerspectiveSeq)

structure AppendDeltaRequest where
  shardId : ShardId
  tenantId : OrgId
  operation : OperationType
  timestamp : DeltaTimestamp
  hashedKey : Key32
  chunkRefs : List ChunkId
  payload : Bytes
  hasInlineData : Bool
deriving DecidableEq, Repr

structure AppendChunkAndDeltaRequest where
  delta : AppendDeltaRequest
  newChunks : List NewChunkMeta
  inlinePayloads : List (ChunkId × Bytes)
deriving DecidableEq, Repr

structure WriteIntent where
  perspectiveSeq : PerspectiveSeq
  idempotencyKey : Option IdempotencyKey
  append : AppendChunkAndDeltaRequest
deriving DecidableEq, Repr

inductive PutOutcome where
  | recorded
  | duplicate (original : PerspectiveSeq)
deriving DecidableEq, Repr

section
variable {m : SeqMap α} {k k' : PerspectiveSeq}

lemma SeqMap.getElem?_insert : (m.insert k v)[k']? = if k = k' then some v else m[k']? := by
  rw [Std.ExtTreeMap.getElem?_insert]
  simp only [Std.LawfulEqCmp.compare_eq_iff_eq]

lemma SeqMap.getElem?_erase : (m.erase k)[k']? = if k = k' then none else m[k']? := by
  rw [Std.ExtTreeMap.getElem?_erase]
  simp only [Std.LawfulEqCmp.compare_eq_iff_eq]

lemma SeqMap.mem_iff : k ∈ m ↔ ∃ v, m[k]? = some v := by
  rw [Std.ExtTreeMap.mem_iff_isSome_getElem?, Option.isSome_iff_exists]

lemma SeqMap.minKey?_le (hmin : m.minKey? = some k) (hk : k' ∈ m) : k ≤ k' := by
  have hle := (Std.ExtTreeMap.minKey?_eq_some_iff_mem_and_forall.1 hmin).2 k' hk
  exact compare_le_iff_le.1 (Ordering.ne_gt_iff_isLE.2 hle)

lemma SeqMap.not_mem_of_minKey?_eq_none (hmin : m.minKey? = none) : k ∉ m := by
  rw [Std.ExtTreeMap.minKey?_eq_none_iff.1 hmin]
  exact Std.ExtTreeMap.not_mem_empty

end

/-- Physical time, logical counter and node, each big-endian. -/
def encodeSeqKey (seq : PerspectiveSeq) : Bytes :=
  bytes 8 seq.physicalMs.toNat ++
    (bytes 4 seq.logical.toNat ++ bytes 8 seq.nodeId.toNat)

lemma encodeSeqKey_lt_iff {a b : PerspectiveSeq} : encodeSeqKey a < encodeSeqKey b ↔ a < b := by
  have hp := bytes_lt_bytes_iff a.physicalMs.toNat_lt b.physicalMs.toNat_lt (w := 8)
  have hp' := bytes_inj a.physicalMs.toNat_lt b.physicalMs.toNat_lt (w := 8)
  have hl := bytes_lt_bytes_iff a.logical.toNat_lt b.logical.toNat_lt (w := 4)
  have hl' := bytes_inj a.logical.toNat_lt b.logical.toNat_lt (w := 4)
  have hn := bytes_lt_bytes_iff a.nodeId.toNat_lt b.nodeId.toNat_lt (w := 8)
  rw [encodeSeqKey, encodeSeqKey,
    append_lt_append_iff (by rw [length_bytes, length_bytes]),
    append_lt_append_iff (by rw [length_bytes, length_bytes]),
    hp, hp', hl, hl', hn]
  change _ ↔ a.lexKey < b.lexKey
  simp only [HybridLogicalClock.lexKey, Prod.Lex.toLex_lt_toLex]

def plainIntent (physicalMs : UInt64) : WriteIntent where
  perspectiveSeq := ⟨physicalMs, 0, 1⟩
  idempotencyKey := none
  append := {
    delta := {
      shardId := ⟨.replicate 16 0⟩
      tenantId := ⟨.replicate 16 0⟩
      operation := .create
      timestamp := ⟨⟨physicalMs, 0, 1⟩, ⟨0, "UTC"⟩, .ntp⟩
      hashedKey := .replicate 32 0
      chunkRefs := []
      payload := []
      hasInlineData := false }
    newChunks := []
    inlinePayloads := [] }

end Kiseki.Intent
