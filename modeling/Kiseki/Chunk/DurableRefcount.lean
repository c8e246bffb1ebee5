import Kiseki.Chunk.Calls

namespace Kiseki.Chunk

open Crash Kiseki.Block Function List

inductive CountCall where
  | writeChunk
  | incrementRefcount
  | tryIncrementIfExists
  | decrementRefcount
deriving DecidableEq

def CountCall.update (id : ChunkId) : CountCall → ChunkRecord → Except ChunkError ChunkRecord
  | .writeChunk => ChunkRecord.bump
  | .incrementRefcount => ChunkRecord.bump
  | .tryIncrementIfExists => ChunkRecord.bump
  | .decrementRefcount => ChunkRecord.drop id

def CountCall.delta : CountCall → Int
  | .writeChunk => 1
  | .incrementRefcount => 1
  | .tryIncrementIfExists => 1
  | .decrementRefcount => -1

lemma CountCall.refcount_update {id : ChunkId} {call : CountCall} {record record' : ChunkRecord}
    (h : call.update id record = .ok record') :
    (record'.refcount : Int) = record.refcount + call.delta := by
  cases call with
  | writeChunk =>
    rw [(bump_ok h).1]
    rfl
  | incrementRefcount =>
    rw [(bump_ok h).1]
    rfl
  | tryIncrementIfExists =>
    rw [(bump_ok h).1]
    rfl
  | decrementRefcount =>
    have hcount : record'.refcount + 1 = record.refcount := (drop_ok h).1
    rw [delta, ← hcount]
    omega

inductive Act where
  | update (i : Nat) (kind : CountCall)
  | fail (i : Nat) (kind : CountCall)
  | put (i : Nat)

def Act.caller : Act → Nat
  | .update i _ => i
  | .fail i _ => i
  | .put i => i

/-- One chunk's record in memory and on disk, and the puts still to come. -/
structure Shared where
  memory : ChunkRecord
  durable : ChunkRecord
  pending : Nat → Option ChunkRecord

inductive Act.Runs (id : ChunkId) (history : List Act) : Act → Shared → Shared → Prop
  | update (hnew : ∀ a ∈ history, a.caller ≠ i) (hok : kind.update id s.memory = .ok record) :
    Runs id history (.update i kind) s
      { s with memory := record, pending := Function.update s.pending i (some record) }
  | fail (hnew : ∀ a ∈ history, a.caller ≠ i) (herr : kind.update id s.memory = .error err) :
    Runs id history (.fail i kind) s s
  | put (hpending : s.pending i = some record) :
    Runs id history (.put i) s
      { s with durable := record, pending := Function.update s.pending i none }

/-- Calls on a chunk whose record is durable, the latest step first. -/
inductive Interleaving (id : ChunkId) (record : ChunkRecord) : List Act → Shared → Prop
  | start : Interleaving id record [] ⟨record, record, fun _ => none⟩
  | act (h : Interleaving id record history s) (hrun : a.Runs id history s s') :
    Interleaving id record (a :: history) s'

def latestPut : List Act → Option Nat
  | [] => none
  | .put i :: _ => some i
  | _ :: history => latestPut history

def netAfter (i : Nat) : List Act → Int
  | [] => 0
  | .update j kind :: history => if j = i then 0 else netAfter i history + kind.delta
  | _ :: history => netAfter i history

lemma mem_of_latestPut (h : latestPut history = some i) : Act.put i ∈ history := by
  induction history with
  | nil => cases h
  | cons a history ih =>
    cases a with
    | put j =>
      cases h
      exact mem_cons_self
    | update j kind => exact mem_cons_of_mem _ (ih h)
    | fail j kind => exact mem_cons_of_mem _ (ih h)

/-- How far memory is ahead of the disk and the pending puts. -/
structure Ahead (history : List Act) (s : Shared) : Prop where
  started : ∀ i record, s.pending i = some record → ∃ a ∈ history, a.caller = i
  pending : ∀ i record, s.pending i = some record →
    (s.memory.refcount : Int) = record.refcount + netAfter i history
  durable : ∀ i, latestPut history = some i →
    (s.memory.refcount : Int) = s.durable.refcount + netAfter i history
  quiet : latestPut history = none → (∀ i, s.pending i = none) → s.memory = s.durable

lemma Ahead.act {id : ChunkId} {a : Act} (h : Ahead history s) (hrun : a.Runs id history s s') :
    Ahead (a :: history) s' := by
  cases hrun with
  | @update i kind _ record hnew hok =>
    have hcount := CountCall.refcount_update hok
    have hother : ∀ j, (∃ a ∈ history, a.caller = j) →
        netAfter j (.update i kind :: history) = netAfter j history + kind.delta := by
      intro j hj
      obtain ⟨a, ha, rfl⟩ := hj
      exact if_neg fun heq => hnew a ha heq.symm
    refine ⟨?_, ?_, ?_, ?_⟩
    · intro j record' hj
      dsimp only at hj
      by_cases hne : j = i
      · exact ⟨_, mem_cons_self, hne.symm⟩
      · rw [update_of_ne hne] at hj
        obtain ⟨a, ha, hcaller⟩ := h.started j record' hj
        exact ⟨a, mem_cons_of_mem _ ha, hcaller⟩
    · intro j record' hj
      dsimp only at hj
      by_cases hne : j = i
      · subst hne
        rw [update_self] at hj
        have hself : netAfter j (.update j kind :: history) = 0 := if_pos rfl
        rw [hself, ← Option.some.inj hj, Int.add_zero]
      · rw [update_of_ne hne] at hj
        have hbefore := h.pending j record' hj
        rw [hother j (h.started j record' hj)]
        dsimp only
        omega
    · intro j hj
      have hbefore := h.durable j hj
      rw [hother j ⟨_, mem_of_latestPut hj, rfl⟩]
      dsimp only
      omega
    · intro _ hnone
      have hi := hnone i
      dsimp only at hi
      rw [update_self] at hi
      cases hi
  | @fail i kind _ err hnew herr =>
    refine ⟨?_, h.pending, h.durable, h.quiet⟩
    intro j record hj
    obtain ⟨a, ha, hcaller⟩ := h.started j record hj
    exact ⟨a, mem_cons_of_mem _ ha, hcaller⟩
  | @put _ i record hpending =>
    have hsub : ∀ j record', update s.pending i none j = some record' →
        s.pending j = some record' := by
      intro j record' hj
      by_cases hne : j = i
      · rw [hne, update_self] at hj
        cases hj
      · rwa [update_of_ne hne] at hj
    refine ⟨?_, ?_, ?_, ?_⟩
    · intro j record' hj
      obtain ⟨a, ha, hcaller⟩ := h.started j record' (hsub j record' hj)
      exact ⟨a, mem_cons_of_mem _ ha, hcaller⟩
    · intro j record' hj
      exact h.pending j record' (hsub j record' hj)
    · intro j hj
      cases hj
      exact h.pending i _ hpending
    · intro hnone _
      cases hnone

lemma Interleaving.ahead {id : ChunkId} (h : Interleaving id record history s) :
    Ahead history s := by
  induction h with
  | start =>
    refine ⟨?_, ?_, ?_, ?_⟩
    · intro i record h
      cases h
    · intro i record h
      cases h
    · intro i h
      cases h
    · intro _ _
      rfl
  | act _ hrun ih => exact ih.act hrun

/-- The durable count is right exactly if later updates cancel out. -/
theorem durable_refcount_iff {id : ChunkId} {record : ChunkRecord} {history : List Act} {s : Shared}
    (hrun : Interleaving id record history s) (hdone : ∀ i, s.pending i = none) :
    s.durable.refcount = s.memory.refcount ↔
      ∀ i, latestPut history = some i → netAfter i history = 0 := by
  have h := hrun.ahead
  constructor
  · intro heq i hi
    have hahead := h.durable i hi
    omega
  · intro hnet
    cases hlast : latestPut history with
    | none => rw [h.quiet hlast hdone]
    | some i =>
      have hahead := h.durable i hlast
      have hzero := hnet i hlast
      omega

def referenced : ChunkRecord :=
  newRecord ⟨[], Vector.replicate 16 0, Vector.replicate 12 0, 0, none,
  none, ⟨.replicate 32 0⟩⟩ "bulk" []

def counted (n : Nat) : ChunkRecord := { referenced with refcount := n }

section TwoIncrements

def afterFirst : Shared :=
  ⟨counted 2, referenced, update (fun _ => none) 0 (some (counted 2))⟩

def afterBoth : Shared :=
  ⟨counted 3, referenced, update afterFirst.pending 1 (some (counted 3))⟩

lemma interleaving_afterBoth : Interleaving referenced.chunkId referenced
    [.update 1 .incrementRefcount, .update 0 .incrementRefcount] afterBoth := by
  have hfirst : Interleaving referenced.chunkId referenced [.update 0 .incrementRefcount]
      afterFirst := .act .start (.update (fun _ ha => absurd ha not_mem_nil) rfl)
  apply Interleaving.act hfirst (.update ?_ rfl)
  intro a ha
  rw [mem_singleton.1 ha]
  decide

/-- The puts land in the order of the updates. -/
theorem durable_refcount_iff_inOrder : ∃ s, Interleaving referenced.chunkId referenced
    [.put 1, .put 0, .update 1 .incrementRefcount, .update 0 .incrementRefcount] s ∧
    s.durable.refcount = s.memory.refcount := by
  let s₃ : Shared := ⟨counted 3, counted 2, update afterBoth.pending 0 none⟩
  let s₄ : Shared := ⟨counted 3, counted 3, update s₃.pending 1 none⟩
  have h₃ : Interleaving referenced.chunkId referenced
      [.put 0, .update 1 .incrementRefcount, .update 0 .incrementRefcount] s₃ :=
    .act interleaving_afterBoth (.put rfl)
  have h₄ : Interleaving referenced.chunkId referenced
      [.put 1, .put 0, .update 1 .incrementRefcount, .update 0 .incrementRefcount] s₄ :=
    .act h₃ (.put rfl)
  have hdone : ∀ i, s₄.pending i = none
    | 0 | 1 | _ + 2 => rfl
  refine ⟨s₄, h₄, (durable_refcount_iff h₄ hdone).2 fun i hi => ?_⟩
  cases hi
  rfl

/-- The puts land in the other order: one reference is lost from the disk. -/
theorem late_put_loses_refcount : ∃ history s,
    Interleaving referenced.chunkId referenced history s ∧ (∀ i, s.pending i = none) ∧
      s.memory.refcount = 3 ∧ s.durable.refcount = 2 := by
  let s₃ : Shared := ⟨counted 3, counted 3, update afterBoth.pending 1 none⟩
  let s₄ : Shared := ⟨counted 3, counted 2, update s₃.pending 0 none⟩
  have h₃ : Interleaving referenced.chunkId referenced
      [.put 1, .update 1 .incrementRefcount, .update 0 .incrementRefcount] s₃ :=
    .act interleaving_afterBoth (.put rfl)
  have h₄ : Interleaving referenced.chunkId referenced
      [.put 0, .put 1, .update 1 .incrementRefcount, .update 0 .incrementRefcount] s₄ :=
    .act h₃ (.put rfl)
  have hdone : ∀ i, s₄.pending i = none
    | 0 | 1 | _ + 2 => rfl
  exact ⟨_, s₄, h₄, hdone, rfl, rfl⟩

end TwoIncrements

lemma updateRecord_interleaves {D : Type} {d : Durable D} {v : Index} {id : ChunkId}
    {kind : CountCall} {entry : ChunkEntry} {record : ChunkRecord}
    (hentry : v.chunks.lookup id = some entry) (hid : entry.record.chunkId = id)
    (hok : kind.update id entry.record = .ok record) :
    ∃ s, Interleaving id entry.record [.put 0, .update 0 kind] s ∧
      (updateRecord id (kind.update id) d v).disk.chunks.lookup id = some s.durable ∧
      (updateRecord id (kind.update id) d v).mem.chunks.lookup id =
        some { entry with record := s.memory } := by
  let s₁ : Shared := ⟨record, entry.record, update (fun _ => none) 0 (some record)⟩
  have h₁ : Interleaving id entry.record [.update 0 kind] s₁ :=
    .act .start (.update (fun _ ha => absurd ha not_mem_nil) hok)
  have hsame : record.chunkId = id := by
    cases kind with
    | writeChunk => exact (bump_ok hok).2.2.chunkId.trans hid
    | incrementRefcount => exact (bump_ok hok).2.2.chunkId.trans hid
    | tryIncrementIfExists => exact (bump_ok hok).2.2.chunkId.trans hid
    | decrementRefcount => exact (drop_ok hok).2.2.chunkId.trans hid
  refine ⟨_, .act h₁ (.put rfl), ?_⟩
  rw [updateRecord, Prog.read_mem_bind, hentry]
  dsimp only
  rw [hok]
  exact ⟨hsame ▸ Finmap.lookup_insert _, Finmap.lookup_insert _⟩

end Kiseki.Chunk
