import Kiseki.Composition.Migration

namespace Kiseki.Compositions
open Intent Function List Nat

/-- A delta of a shard's log with what compaction looks at. -/
structure LogDelta extends HydratorDelta where
  hashedKey : Key32
  tombstone : Bool
deriving DecidableEq

/-- The latest delta of each key, without the tombstones below the boundary. -/
def compactShard (gcBoundary : Nat) (deltas : List LogDelta) : List LogDelta :=
  deltas.filter fun d =>
    (deltas.all fun e => decide (e.hashedKey = d.hashedKey → e.sequence ≤ d.sequence)) &&
      !(d.tombstone && decide (d.sequence < gcBoundary))

def readDeltas (deltas : List LogDelta) (first last : Nat) : List HydratorDelta :=
  (deltas.filter fun d => decide (first ≤ d.sequence ∧ d.sequence ≤ last)).map
    LogDelta.toHydratorDelta

namespace CompositionHydrator

def windowEnd (h : CompositionHydrator) : Nat := h.lastAppliedCache + 1 + (h.batchWindow - 1)

def window (h : CompositionHydrator) (log : List LogDelta) : List HydratorDelta :=
  readDeltas log (h.lastAppliedCache + 1) h.windowEnd

/-- What the loop of `poll` makes of the next window. -/
def progress (h : CompositionHydrator) (st : CompositionStore) (log : List LogDelta) : Progress :=
  (h.window log).foldl
    (pollStep st h.transientRetryThreshold (st.storage.stuckState.lookup h.shardId).join)
    ⟨{}, h.lastAppliedCache, 0, none, false⟩

end CompositionHydrator

open CompositionHydrator

section
variable {log : List LogDelta} {h : CompositionHydrator} {st : CompositionStore}
  {delta : HydratorDelta} {deltas : List HydratorDelta} {gcBoundary : Nat}

section
variable {earliest : Option Nat}

end

section
variable (hsorted : log.Pairwise fun d e => d.sequence < e.sequence)

include hsorted

end

end

def migrateKey (id : CompositionId) : Key32 := id.uuid ++ Vector.replicate 16 (0 : UInt8)

def pairCreate : LogDelta :=
  ⟨⟨1, .create slabRow slabNamespace.id 2 none (some [1, 1]) none [slabChunk 1, slabChunk 2]⟩,
    Vector.replicate 32 9, false⟩

def pairMigrate (sequence index : Nat) : LogDelta :=
  ⟨⟨sequence, .migrateChunkLocations slabRow "cold" (Vector.replicate 16 5) [(index, index, 1)]⟩,
    migrateKey slabRow, false⟩

def shortRow : CompositionId := ⟨.replicate 16 6⟩

def shortCreate : LogDelta :=
  ⟨⟨2, .create shortRow slabNamespace.id 1 none (some [1]) none [slabChunk 3]⟩,
    Vector.replicate 32 8, false⟩

def shortDelete : LogDelta := ⟨⟨3, .delete shortRow⟩, Vector.replicate 32 8, true⟩

/-- In each round deltas are appended, then the log is compacted. -/
def compactRounds (rounds : List (List LogDelta × Nat)) (log : List LogDelta) : List LogDelta :=
  rounds.foldl (fun log round => compactShard round.2 (log ++ round.1)) log

variable {log deltas : List LogDelta}

lemma mem_compactShard {d : LogDelta} : d ∈ compactShard gcBoundary log ↔ d ∈ log ∧
    (∀ e ∈ log, e.hashedKey = d.hashedKey → e.sequence ≤ d.sequence) ∧
      (d.tombstone = true → gcBoundary ≤ d.sequence) := by
  simp [compactShard, ← imp_iff_not_or, ← Bool.not_eq_true]

lemma compactShard_append (hle : boundary ≤ gcBoundary)
    (hsorted : (log ++ deltas).Pairwise fun e d => e.sequence < d.sequence) :
    compactShard gcBoundary (compactShard boundary log ++ deltas) =
      compactShard gcBoundary (log ++ deltas) := by
  obtain ⟨_, _, hlater⟩ := pairwise_append.1 hsorted
  have hsub : compactShard gcBoundary (compactShard boundary log ++ deltas) <+ log ++ deltas :=
    filter_sublist.trans (filter_sublist.append_right _)
  have hleft := hsorted.sublist hsub
  have hright : (compactShard gcBoundary (log ++ deltas)).Pairwise _ := hsorted.filter _
  refine ((perm_ext_iff_of_nodup hleft.nodup hright.nodup).2 fun d => ?_).eq_of_pairwise
    (fun a b _ _ hab hba => absurd hab (Nat.lt_asymm hba)) hleft hright
  simp only [mem_compactShard, mem_append]
  -- a tombstone that the earlier compaction dropped is older than all of `deltas`
  grind

/-- However compaction was interleaved with appends, the last one gives the same. -/
theorem compaction_schedule_irrelevant {rounds : List (List LogDelta × Nat)}
    (hle : ∀ round ∈ rounds, round.2 ≤ gcBoundary)
    (hsorted : (log ++ rounds.flatMap Prod.fst).Pairwise fun e d => e.sequence < d.sequence) :
    compactShard gcBoundary (compactRounds rounds log) =
      compactShard gcBoundary (log ++ rounds.flatMap Prod.fst) := by
  induction rounds generalizing log with
  | nil => rw [flatMap_nil, append_nil, compactRounds, foldl_nil]
  | cons round rounds ih =>
    obtain ⟨hround, hrest⟩ := forall_mem_cons.1 hle
    rw [flatMap_cons, ← append_assoc] at hsorted ⊢
    exact (ih hrest (hsorted.sublist (filter_sublist.append_right _))).trans
      (compactShard_append hround hsorted)

theorem compaction_schedule_irrelevant_pair :
    compactShard 4 (compactRounds [([pairCreate, shortCreate, shortDelete], 2),
      ([pairMigrate 4 0], 4), ([pairMigrate 5 1], 0)] []) = [pairCreate, pairMigrate 5 1] :=
  (compaction_schedule_irrelevant (by decide) (by decide)).trans (by decide)

end Kiseki.Compositions
