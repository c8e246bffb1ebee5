import Kiseki.Composition.Store

namespace Kiseki.Compositions
open Intent

/-- A delta's operation with its payload decoded. -/
inductive DeltaOp where
  | create (id : CompositionId) (namespaceId : NamespaceId) (size : Nat) (name : Option String)
      (chunkPlaintextLens : Option (List Nat)) (seq : Option PerspectiveSeq)
      (chunkRefs : List ChunkId)
  | update (id : CompositionId) (size : Nat) (chunkRefs : List ChunkId)
  | delete (id : CompositionId)
  | namespaceCreate (ns : Namespace)
  | migrateChunkLocations (id : CompositionId) (poolName : String) (slabId : Uuid)
      (entries : List (Nat × Nat × Nat))
  | undecodable (reason : String)
  | other
deriving DecidableEq, Repr

structure HydratorDelta where
  sequence : Nat
  op : DeltaOp
deriving DecidableEq, Repr

structure Staging where
  puts : List Composition := []
  removes : List CompositionId := []
  nameInserts : List (NameKey × CompositionId × Option PerspectiveSeq) := []
  nameRemoves : List (NameKey × Option PerspectiveSeq) := []
  namespaceInserts : List Namespace := []
  migratedChunkEvictions : List ChunkId := []

inductive DeltaOutcome where
  | applied
  | permanentSkip (reason : String)
  | transientSkip (reason : String)
deriving DecidableEq, Repr

namespace Staging

def view (s : Staging) (storage : Storage) (id : CompositionId) : Option Composition :=
  if id ∈ s.removes then none
  else (s.puts.find? fun comp => decide (comp.id = id)).or (storage.get id)

def put (s : Staging) (comp : Composition) : Staging :=
  { s with
    removes := s.removes.filter fun id => decide (id ≠ comp.id)
    puts := s.puts.filter (fun row => decide (row.id ≠ comp.id)) ++ [comp] }

def remove (s : Staging) (id : CompositionId) : Staging :=
  { s with
    puts := s.puts.filter fun row => decide (row.id ≠ id)
    removes := s.removes.filter (fun x => decide (x ≠ id)) ++ [id] }

def bindName (s : Staging) (namespaceId : NamespaceId) (name : Option String) (id : CompositionId)
    (seq : Option PerspectiveSeq) : Staging :=
  match name with
  | some name => { s with nameInserts := s.nameInserts ++ [((namespaceId, name), id, seq)] }
  | none => s

def unbindName (s : Staging) (key : NameKey) (seq : Option PerspectiveSeq) : Staging :=
  { s with nameRemoves := s.nameRemoves ++ [(key, seq)] }

end Staging

section
variable (store : CompositionStore)

/-- A create of a known row only binds its name. -/
def stageCreate (s : Staging) (id : CompositionId)
    (namespaceId : NamespaceId) (size : Nat) (name : Option String)
    (chunkPlaintextLens : Option (List Nat)) (seq : Option PerspectiveSeq)
    (chunkRefs : List ChunkId) : Staging × DeltaOutcome :=
  match s.view store.storage id with
  | some _ => (s.bindName namespaceId name id seq, .applied)
  | none =>
    match (s.namespaceInserts.find? fun ns => decide (ns.id = namespaceId)).or
      (store.namespace? namespaceId) with
    | none => (s, .transientSkip "namespace_not_registered")
    | some ns =>
      let comp := { Composition.new ns id chunkRefs (chunkPlaintextLens.getD []) size with
        namespaceId := namespaceId }
      ((s.put comp).bindName namespaceId name id seq, .applied)

def stageUpdate (s : Staging) (id : CompositionId) (size : Nat)
    (chunkRefs : List ChunkId) : Staging × DeltaOutcome :=
  match s.view store.storage id with
  | none => (s, .transientSkip "update_before_create")
  | some comp =>
    if comp.chunks = chunkRefs ∧ comp.size = size then (s, .applied)
    else
      (s.put { comp with
        chunks := chunkRefs
        size := size
        version := comp.version + 1
        hasInlineData := isInlineData chunkRefs size }, .applied)

/-- The name is the one that is durable, whatever was staged before. -/
def stageDelete (s : Staging) (id : CompositionId) :
    Staging × DeltaOutcome :=
  let s := match store.storage.nameFor id with
    | some key => s.unbindName key none
    | none => s
  (s.remove id, .applied)

def fullLocations (comp : Composition) : List ChunkRefLocation :=
  if comp.chunkLocations.length = comp.chunks.length then comp.chunkLocations
  else
    List.replicate comp.chunks.length
      (.hot ((comp.chunkLocations.head?.map ChunkRefLocation.poolName).getD ""))

def stageMigrateChunkLocations (s : Staging) (id : CompositionId)
    (poolName : String) (slabId : Uuid) (entries : List (Nat × Nat × Nat)) :
    Staging × DeltaOutcome :=
  match s.view store.storage id with
  | none => (s, .permanentSkip "migrate_chunk_locations_unknown_composition")
  | some comp =>
    let inRange := entries.filter fun entry => decide (entry.1 < (fullLocations comp).length)
    let locations := inRange.foldl (fun locations entry =>
      locations.set entry.1 (.cold poolName slabId entry.2.1 entry.2.2)) (fullLocations comp)
    let evictions := inRange.filterMap fun entry => comp.chunks[entry.1]?
    ({ s.put { comp with chunkLocations := locations } with
      migratedChunkEvictions := s.migratedChunkEvictions ++ evictions }, .applied)

def stageNamespaceCreate (s : Staging) (ns : Namespace) : Staging × DeltaOutcome :=
  ({ s with namespaceInserts := s.namespaceInserts ++ [ns] }, .applied)

def stage (s : Staging) : DeltaOp → Staging × DeltaOutcome
  | .create id namespaceId size name lens seq chunkRefs =>
    stageCreate store s id namespaceId size name lens seq chunkRefs
  | .update id size chunkRefs => stageUpdate store s id size chunkRefs
  | .delete id => stageDelete store s id
  | .namespaceCreate ns => stageNamespaceCreate s ns
  | .migrateChunkLocations id poolName slabId entries =>
    stageMigrateChunkLocations store s id poolName slabId entries
  | .undecodable reason => (s, .permanentSkip reason)
  | .other => (s, .applied)

end

structure Progress where
  staging : Staging
  lastApplied : Nat
  appliedCount : Nat
  stuck : Option (Nat × Nat)
  stopped : Bool

/-- A delta that waits stops the poll until it was tried often enough. -/
def pollStep (store : CompositionStore) (retryThreshold : Nat) (priorStuck : Option (Nat × Nat))
    (p : Progress) (delta : HydratorDelta) : Progress :=
  if p.stopped then p
  else
    match stage store p.staging delta.op with
    | (s, .applied) =>
      { p with
        staging := s
        lastApplied := delta.sequence
        appliedCount := p.appliedCount + 1 }
    | (s, .permanentSkip _) => { p with staging := s, lastApplied := delta.sequence }
    | (s, .transientSkip _) =>
      let retries := (match priorStuck with
        | some (sequence, retries) => if sequence = delta.sequence then retries else 0
        | none => 0) + 1
      if retryThreshold ≤ retries then
        { p with staging := s, lastApplied := delta.sequence, stuck := none }
      else { p with staging := s, stuck := some (delta.sequence, retries), stopped := true }

structure CompositionHydrator where
  shardId : ShardId
  lastAppliedCache : Nat
  haltedCache : Bool
  transientRetryThreshold : Nat
  batchWindow : Nat

namespace CompositionHydrator

def enterHaltMode (h : CompositionHydrator) (store : CompositionStore) :
    CompositionHydrator × CompositionStore :=
  let batch : HydrationBatch := ⟨h.shardId, [], [], [], [], h.lastAppliedCache, none, some true⟩
  ({ h with haltedCache := true },
    { store with storage := store.storage.applyHydrationBatch store.backend batch })

def commit (shardId : ShardId) (store : CompositionStore) (s : Staging) (lastApplied : Nat)
    (stuck : Option (Nat × Nat)) : CompositionStore :=
  let store := s.namespaceInserts.foldl CompositionStore.addNamespace store
  let batch : HydrationBatch :=
    ⟨shardId, s.puts, s.removes, s.nameInserts, s.nameRemoves, lastApplied, some stuck, none⟩
  let store := { store with storage := store.storage.applyHydrationBatch store.backend batch }
  (s.puts.map Composition.id ++ s.removes).foldl CompositionStore.drainPending store

/-- One poll with the deltas of the window and the log's earliest sequence. -/
def poll (h : CompositionHydrator) (store : CompositionStore) (deltas : List HydratorDelta)
    (earliestVisible : Option Nat) : CompositionHydrator × CompositionStore × Nat :=
  if h.haltedCache then (h, store, 0)
  else
    match deltas with
    | [] =>
      match earliestVisible with
      | some earliest =>
        if h.lastAppliedCache + 1 < earliest then
          let (h, store) := h.enterHaltMode store
          (h, store, 0)
        else (h, store, 0)
      | none => (h, store, 0)
    | delta :: _ =>
      if h.lastAppliedCache + 1 < delta.sequence then
        let (h, store) := h.enterHaltMode store
        (h, store, 0)
      else
        let priorStuck := (store.storage.stuckState.lookup h.shardId).join
        let p := deltas.foldl (pollStep store h.transientRetryThreshold priorStuck)
          ⟨{}, h.lastAppliedCache, 0, none, false⟩
        let stuck := if p.stopped then p.stuck else none
        ({ h with lastAppliedCache := p.lastApplied },
          commit h.shardId store p.staging p.lastApplied stuck, p.appliedCount)

end CompositionHydrator

end Kiseki.Compositions
