import Kiseki.Common
import Kiseki.Lib.Crash
import Kiseki.Lib.Lru

namespace Kiseki.Raft
open Crash List

class RaftEntry (E : Type) where
  logId : E → LogId

class RaftRecord (E : Type) extends RaftEntry E where
  encodedLen : E → Nat

instance : RaftRecord LogId where
  logId := id
  encodedLen := fun _ => 1

def indexOf [RaftEntry E] (e : E) : Nat := (RaftEntry.logId e).index

structure Vote where
  term : Nat
  nodeId : NodeId
  committed : Bool
deriving DecidableEq, Repr

/-- A keyspace whose keys are log indices, iterated in ascending order. -/
abbrev LogMap (E : Type) := Std.ExtTreeMap Nat E compare

/-- The log keyspace and the three records of the other. -/
structure LogDisk (E : Type) where
  log : LogMap E := ∅
  vote : Option Vote := none
  committed : Option (Option LogId) := none
  lastPurged : Option LogId := none

inductive Batch (E : Type) where
  | insert (entries : List E)
  | remove (keys : List Nat)
  | setVote (vote : Vote)
  | setCommitted (committed : Option LogId)
  | setLastPurged (logId : LogId)

def Batch.apply [RaftEntry E] (d : LogDisk E) : Batch E → LogDisk E
  | .insert entries => { d with log := entries.foldl (fun m e => m.insert (indexOf e) e) d.log }
  | .remove keys => { d with log := keys.foldl (fun m k => m.erase k) d.log }
  | .setVote vote => { d with vote := some vote }
  | .setCommitted committed => { d with committed := some committed }
  | .setLastPurged logId => { d with lastPurged := some logId }

def LogDisk.keysBefore (d : LogDisk E) (before : Nat) : List Nat :=
  d.log.keys.filter fun k => decide (k < before)

/-- The keys `truncate_after` collects, from the saturating successor on. -/
def LogDisk.keysAfter (d : LogDisk E) (after : Nat) : List Nat :=
  d.log.keys.filter fun k => decide (min (after + 1) u64Max ≤ k)

def LogDisk.lastIndex (d : LogDisk E) : Option Nat := d.log.keys.getLast?

structure LogState where
  lastPurgedLogId : Option LogId
  lastLogId : Option LogId
deriving DecidableEq, Repr

def LogDisk.getLogState [RaftEntry E] (d : LogDisk E) : LogState where
  lastPurgedLogId := d.lastPurged
  lastLogId :=
    match d.lastIndex with
    | some idx => d.log[idx]?.map RaftEntry.logId
    | none => d.lastPurged

def defaultEntryCacheCap : Nat := 4096

abbrev EntryCache (E : Type) := Lru.Cache Nat (E × Nat)

def sized [RaftRecord E] (e : E) : Nat × E × Nat := (indexOf e, e, RaftRecord.encodedLen e)

section
variable [RaftRecord E]

def commitBatch (b : Batch E) : Prog (LogDisk E) (EntryCache E) Unit :=
  Prog.commit b.apply

def removeKeys (keys : List Nat) : Prog (LogDisk E) (EntryCache E) Unit :=
  if keys = [] then pure () else commitBatch (.remove keys)

def truncateBefore (before : Nat) : Prog (LogDisk E) (EntryCache E) Unit := do
  let d ← Prog.disk
  removeKeys (d.keysBefore before)

def removeSuffix (lastLogId : Option LogId) : Prog (LogDisk E) (EntryCache E) Unit :=
  match lastLogId with
  | some logId => do
    let d ← Prog.disk
    removeKeys (d.keysAfter logId.index)
  | none => truncateBefore u64Max

def appendBatch (entries : List E) : Prog (LogDisk E) (EntryCache E) Unit :=
  if entries = [] then pure () else commitBatch (.insert entries)

def append (entries : List E) : Prog (LogDisk E) (EntryCache E) Unit := do
  appendBatch entries
  Prog.modify fun cache => cache.putAll (entries.map sized)

def truncateAfter (lastLogId : Option LogId) : Prog (LogDisk E) (EntryCache E) Unit := do
  removeSuffix lastLogId
  Prog.modify Lru.Cache.clear

def purge (logId : LogId) : Prog (LogDisk E) (EntryCache E) Unit := do
  truncateBefore (logId.index + 1)
  commitBatch (.setLastPurged logId)
  Prog.modify fun cache => cache.drop fun idx => decide (idx ≤ logId.index)

def saveVote (vote : Vote) : Prog (LogDisk E) (EntryCache E) Unit :=
  commitBatch (.setVote vote)

def saveCommitted (committed : Option LogId) : Prog (LogDisk E) (EntryCache E) Unit :=
  commitBatch (.setCommitted committed)

end

section
variable {m : LogMap E} {i k : Nat}

lemma LogMap.getElem?_insert : (m.insert k v)[i]? = if k = i then some v else m[i]? := by
  rw [Std.ExtTreeMap.getElem?_insert]
  simp only [Std.LawfulEqCmp.compare_eq_iff_eq]

lemma LogMap.mem_iff : i ∈ m ↔ ∃ e, m[i]? = some e := by
  rw [Std.ExtTreeMap.mem_iff_isSome_getElem?, Option.isSome_iff_exists]

lemma LogMap.getElem?_eraseAll (keys : List Nat) :
    (keys.foldl (fun m k => m.erase k) m)[i]? = if i ∈ keys then none else m[i]? := by
  induction keys generalizing m with
  | nil => rw [if_neg not_mem_nil]; rfl
  | cons k keys ih =>
    rw [foldl_cons, ih, Std.ExtTreeMap.getElem?_erase]
    simp only [Std.LawfulEqCmp.compare_eq_iff_eq, mem_cons]
    by_cases hmem : i ∈ keys
    · rw [if_pos hmem, if_pos (.inr hmem)]
    · by_cases heq : k = i
      · rw [if_neg hmem, if_pos heq, if_pos (.inl heq.symm)]
      · rw [if_neg hmem, if_neg heq, if_neg fun h => h.elim (Ne.symm heq) hmem]

lemma LogMap.getLast?_keys (m : LogMap E) :
    match m.keys.getLast? with
    | some k => k ∈ m ∧ ∀ i ∈ m, i ≤ k
    | none => ∀ i, i ∉ m := by
  cases hlast : m.keys.getLast? with
  | none =>
    intro i hi
    rw [getLast?_eq_none_iff] at hlast
    rw [← Std.ExtTreeMap.mem_keys, hlast] at hi
    exact not_mem_nil hi
  | some k =>
    obtain ⟨front, hkeys⟩ := getLast?_eq_some_iff.1 hlast
    have hordered := Std.ExtTreeMap.ordered_keys (t := m)
    rw [hkeys, pairwise_append] at hordered
    refine ⟨Std.ExtTreeMap.mem_keys.1 (hkeys ▸ mem_append_right _ mem_cons_self), ?_⟩
    intro i hi
    rw [← Std.ExtTreeMap.mem_keys, hkeys] at hi
    rcases mem_append.1 hi with hi | hi
    · have hlt := hordered.2.2 i hi k mem_cons_self
      exact (Nat.compare_eq_lt.1 hlt).le
    · exact (mem_singleton.1 hi).le

lemma LogDisk.mem_keysBefore {d : LogDisk E} {before : Nat} :
    i ∈ d.keysBefore before ↔ i ∈ d.log ∧ i < before := by
  rw [keysBefore, mem_filter, Std.ExtTreeMap.mem_keys, decide_eq_true_iff]

lemma LogDisk.mem_keysAfter {d : LogDisk E} {after : Nat} :
    i ∈ d.keysAfter after ↔ i ∈ d.log ∧ min (after + 1) u64Max ≤ i := by
  rw [keysAfter, mem_filter, Std.ExtTreeMap.mem_keys, decide_eq_true_iff]

end

end Kiseki.Raft
