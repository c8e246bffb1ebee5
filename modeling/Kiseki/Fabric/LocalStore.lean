import Kiseki.Block.Pool
import Kiseki.Chunk.Refinement

namespace Kiseki.Fabric

open Crash Kiseki.Block Kiseki.Chunk Function Finmap Option Relation FileBackedDevice

/-- A node's chunk store: counted envelopes and numbered fragments. -/
structure LocalStore where
  chunks : Finmap fun _ : ChunkId => Nat × Envelope
  fragments : Finmap fun _ : FragmentKey => Bytes

namespace LocalStore

section
variable (s : LocalStore)

def writeChunk (envelope : Envelope) : Except ChunkError (Bool × LocalStore) :=
  match s.chunks.lookup envelope.chunkId with
  | none => .ok (true, { s with chunks := s.chunks.insert envelope.chunkId (1, envelope) })
  | some entry =>
    if entry.1 < u64Max then
      .ok (false,
        { s with chunks := s.chunks.insert envelope.chunkId (entry.1 + 1, entry.2) })
    else .error (.io .refcountOverflow)

/-- A chunk that is coded over other nodes is counted here without its bytes. -/
def registerEcChunk (envelope : Envelope) : Except ChunkError (Bool × LocalStore) :=
  s.writeChunk { envelope with ciphertext := [] }

def decrementRefcount (id : ChunkId) : Except ChunkError (Nat × LocalStore) :=
  match s.chunks.lookup id with
  | none => .error (.notFound id)
  | some entry =>
    if entry.1 = 0 then .error (.refcountUnderflow id)
    else .ok (entry.1 - 1, { s with chunks := s.chunks.insert id (entry.1 - 1, entry.2) })

def readChunk (id : ChunkId) : Except ChunkError Envelope :=
  match s.chunks.lookup id with
  | none => .error (.notFound id)
  | some entry => .ok entry.2

def refcount (id : ChunkId) : Except ChunkError Nat :=
  match s.chunks.lookup id with
  | none => .error (.notFound id)
  | some entry => .ok entry.1

def writeFragment (id : ChunkId) (index : Nat) (data : Bytes) : LocalStore :=
  { s with fragments := s.fragments.insert (id, index) data }

def readFragment (id : ChunkId) (index : Nat) : Except ChunkError Bytes :=
  match s.fragments.lookup (id, index) with
  | none => .error (.notFound id)
  | some data => .ok data

def deleteFragment (id : ChunkId) (index : Nat) : Bool × LocalStore :=
  ((s.fragments.lookup (id, index)).isSome,
    { s with fragments := s.fragments.erase (id, index) })

def listsFragment (id : ChunkId) (index : Nat) : Bool :=
  (s.fragments.lookup (id, index)).isSome

end

end LocalStore

section Persistent
variable {D : Type} [DeviceBackend D] [LawfulBackend D] {K : ChunkRows} {F : FragmentRows}
  {c c' : Owner → Bytes} {d : Durable D} {v : Index} {s : LocalStore}

def envelopeOf (id : ChunkId) (record : ChunkRecord) (data : Bytes) : Envelope :=
  ⟨data, record.authTag, record.nonce, record.systemEpoch, record.tenantEpoch,
    record.tenantWrappedMaterial, id⟩

structure Shows (s : LocalStore) (K : ChunkRows) (F : FragmentRows) (c : Owner → Bytes) : Prop where
  chunks : ∀ id, s.chunks.lookup id =
    (K.lookup id).map fun record => (record.refcount, envelopeOf id record (c (.chunk id)))
  fragments : ∀ key, s.fragments.lookup key = (F.lookup key).map fun _ => c (.fragment key)

/-- The persistent store stands for a store of envelopes and fragments. -/
def Stands (s : LocalStore) (d : Durable D) (v : Index) : Prop :=
  ∃ K F c, At K F c d v ∧ Shows s K F c

lemma Stands.readChunk (h : Stands s d v) (id : ChunkId) :
    Chunk.readChunk d v id = s.readChunk id := by
  obtain ⟨K, F, c, hat, hshows⟩ := h
  rw [LocalStore.readChunk, hshows.chunks]
  cases hrecord : K.lookup id with
  | none => exact hat.readChunk_none hrecord
  | some record =>
    have hrecords : Records id ⟨envelopeOf id record (c (.chunk id)), record.refcount, 0, 0,
        record.retentionHolds⟩ record (c (.chunk id)) := ⟨rfl, rfl, rfl⟩
    exact hat.readChunk_some hrecord hrecords

lemma Stands.refcount (h : Stands s d v) (id : ChunkId) :
    Chunk.refcount v id = s.refcount id := by
  obtain ⟨K, F, c, hat, hshows⟩ := h
  rw [LocalStore.refcount, Chunk.refcount, hshows.chunks, hat.mirrors.chunks]
  cases K.lookup id with
  | none => rfl
  | some record => rfl

lemma Stands.readFragment (h : Stands s d v) (id : ChunkId) (index : Nat) :
    Chunk.readFragment d v id index = s.readFragment id index := by
  obtain ⟨K, F, c, hat, hshows⟩ := h
  obtain ⟨_, _, live, hkept⟩ := hat.rests
  rw [LocalStore.readFragment, Chunk.readFragment, hshows.fragments, hat.mirrors.fragments]
  have hread := hkept.reads (.fragment (id, index))
  rw [tableOf] at hread
  cases hrecord : F.lookup (id, index) with
  | none => rfl
  | some record =>
    rw [hrecord] at hread
    simp only [map_some, toList_some, readExtents] at hread ⊢
    split at hread
    · cases hread
    · rw [List.append_nil] at hread
      rw [Except.ok.inj hread]

section
variable {id : ChunkId} {record old new : ChunkRecord} {e : Envelope} (h : Shows s K F c)

include h

lemma Shows.insert {entry : Nat × Envelope} (hc : ∀ o, o ≠ .chunk id → c' o = c o)
    (hentry : entry = (record.refcount, envelopeOf id record (c' (.chunk id)))) :
    Shows { s with chunks := s.chunks.insert id entry } (K.insert id record) F c' := by
  constructor
  · intro id'
    rw [Maps.lookup_insert, Maps.lookup_insert]
    split
    · next hid => rw [hid, map_some, hentry]
    · next hid =>
      rw [hc _ fun heq => hid (Owner.chunk.inj heq)]
      exact h.chunks id'
  · intro key
    rw [hc (.fragment key) nofun]
    exact h.fragments key

/-- A chunk that has a record is counted. -/
lemma Shows.counted (hold : K.lookup e.chunkId = some old) (hnew : old.bump = .ok new) :
    ∃ s', s.writeChunk e = .ok (false, s') ∧ Shows s' (K.insert e.chunkId new) F c := by
  obtain ⟨hcount, _, hsame⟩ := bump_ok hnew
  have hroom : old.refcount < u64Max := by
    rw [ChunkRecord.bump] at hnew
    split at hnew
    · assumption
    · cases hnew
  rw [LocalStore.writeChunk, h.chunks, hold]
  dsimp only [map_some]
  rw [if_pos hroom, ← hcount]
  exact ⟨_, rfl, h.insert (fun _ _ => rfl) (by rw [envelopeOf, envelopeOf, hsame])⟩

lemma Shows.decremented (hold : K.lookup id = some old) (hnew : old.drop id = .ok new) :
    ∃ s', s.decrementRefcount id = .ok (new.refcount, s') ∧ Shows s' (K.insert id new) F c := by
  obtain ⟨hcount, _, hsame⟩ := drop_ok hnew
  have hpos : ¬old.refcount = 0 := by omega
  have hless : old.refcount - 1 = new.refcount := by omega
  rw [LocalStore.decrementRefcount, h.chunks, hold]
  dsimp only [map_some]
  rw [if_neg hpos, hless, envelopeOf]
  exact ⟨_, rfl, h.insert (fun _ _ => rfl) (by rw [envelopeOf, hsame])⟩

lemma Shows.writeFragment (index : Nat) (data : Bytes) (record : FragmentRecord) :
    Shows (s.writeFragment id index data) K (F.insert (id, index) record)
      (update c (.fragment (id, index)) data) := by
  constructor
  · intro id'
    rw [update_of_ne fun heq => by cases heq]
    exact h.chunks id'
  · intro key
    rw [LocalStore.writeFragment, Maps.lookup_insert, Maps.lookup_insert]
    split
    · next hkey => rw [hkey, update_self]; rfl
    · next hkey =>
      rw [update_of_ne fun heq => hkey (Owner.fragment.inj heq)]
      exact h.fragments key

lemma Shows.deleteFragment (index : Nat) :
    Shows (s.deleteFragment id index).2 K (F.erase (id, index))
      (update c (.fragment (id, index)) []) := by
  constructor
  · intro id'
    rw [update_of_ne fun heq => by cases heq]
    exact h.chunks id'
  · intro key
    rw [LocalStore.deleteFragment, Maps.lookup_erase, Maps.lookup_erase]
    split
    · rfl
    · next hkey =>
      rw [update_of_ne fun heq => hkey (Owner.fragment.inj heq)]
      exact h.fragments key

end

abbrev OnMap (α : Type) := LocalStore → Except ChunkError (α × LocalStore)

/-- The calls of the fabric, each with the call on the map. -/
inductive FabricCall : {α : Type} → Call D (Except ChunkError α) → OnMap α → Prop
  | writeChunk (envelope : Envelope) (pool : String) :
    FabricCall (Chunk.writeChunk envelope pool) (·.writeChunk envelope)
  | registerEcChunk (envelope : Envelope) (pool : String) :
    FabricCall (Chunk.registerEcChunk envelope pool) (·.registerEcChunk envelope)
  | decrementRefcount (id : ChunkId) :
    FabricCall (Chunk.decrementRefcount id) (·.decrementRefcount id)
  | writeFragment (id : ChunkId) (index : Nat) (data : Bytes) (tier : Option StorageTier) :
    FabricCall (writeFragmentTier id index data tier)
      fun s => .ok ((), s.writeFragment id index data)
  | deleteFragment (id : ChunkId) (index : Nat) :
    FabricCall (Chunk.deleteFragment id index) fun s => .ok (s.deleteFragment id index)

lemma Stands.answers {call : Call D (Except ChunkError α)} {onMap : OnMap α} (h : Stands s d v)
    (hcall : FabricCall call onMap) :
    (∃ err, (call d v).value = .error err ∧ Stands s (call d v).disk (call d v).mem) ∨
      ∃ a s', (call d v).value = .ok a ∧ onMap s = .ok (a, s') ∧
        Stands s' (call d v).disk (call d v).mem := by
  obtain ⟨K, F, c, hat, hshows⟩ := h
  cases hcall with
  | writeChunk envelope pool =>
    rcases (writeChunk_spec d v hat).2 with
      ⟨err, hr, hat'⟩ | ⟨old, new, hr, hold, hnew, hat'⟩ | ⟨extents, hr, hnone, hat'⟩
    · exact .inl ⟨err, hr, K, F, c, hat', hshows⟩
    · obtain ⟨s', hwrite, hshows'⟩ := hshows.counted hold hnew
      exact .inr ⟨_, s', hr, hwrite, _, F, c, hat', hshows'⟩
    · refine .inr ⟨_, _, hr, ?_, _, F, _, hat', hshows.insert (fun o ho => update_of_ne ho _ _) rfl⟩
      change s.writeChunk envelope = _
      rw [LocalStore.writeChunk, hshows.chunks, hnone, update_self]
      rfl
  | registerEcChunk envelope pool =>
    rcases (registerEcChunk_spec pool d v hat).2 with
      ⟨err, hr, hat'⟩ | ⟨old, new, hr, hold, hnew, hat'⟩ | ⟨hr, hnone, hempty, hat'⟩
    · exact .inl ⟨err, hr, K, F, c, hat', hshows⟩
    · obtain ⟨s', hwrite, hshows'⟩ := hshows.counted (e := { envelope with ciphertext := [] })
        hold hnew
      exact .inr ⟨_, s', hr, hwrite, _, F, c, hat', hshows'⟩
    · refine .inr ⟨_, _, hr, ?_, _, F, _, hat', hshows.insert (fun _ _ => rfl) rfl⟩
      change s.writeChunk { envelope with ciphertext := [] } = _
      rw [LocalStore.writeChunk, hshows.chunks, hnone, hempty]
      rfl
  | decrementRefcount id =>
    have hspec := updateRecord_map_spec (D := D) (K := K) (F := F) (c := c) id
      (fun old new (hdrop : old.drop id = .ok new) => (drop_ok hdrop).2.2) ChunkRecord.refcount
    rcases (hspec d v hat).2 with ⟨err, hr, hat'⟩ | ⟨old, new, hr, hold, hnew, hat'⟩
    · exact .inl ⟨err, hr, K, F, c, hat', hshows⟩
    · obtain ⟨s', hmap, hshows'⟩ := hshows.decremented hold hnew
      exact .inr ⟨_, s', hr, hmap, _, F, c, hat', hshows'⟩
  | writeFragment id index data tier =>
    rcases (writeFragmentTier_spec d v hat).2 with ⟨err, hr, hat'⟩ | ⟨e, hr, hat'⟩
    · exact .inl ⟨err, hr, K, F, c, hat', hshows⟩
    · exact .inr ⟨_, _, hr, rfl, K, _, _, hat', hshows.writeFragment index data _⟩
  | deleteFragment id index =>
    obtain ⟨hr, hat'⟩ := (deleteFragment_spec id index d v hat).2
    rw [← isSome_map (f := fun _ => c (.fragment (id, index))), ← hshows.fragments] at hr
    exact .inr ⟨_, _, hr, rfl, K, _, _, hat', hshows.deleteFragment index⟩

/-- The map after a call: a call that failed was not made. -/
def follow (s : LocalStore) : Except ChunkError α → Except ChunkError (α × LocalStore) → LocalStore
  | .ok _, .ok (_, s') => s'
  | _, _ => s

inductive FabricStep : LocalStore × Durable D × Index → LocalStore × Durable D × Index → Prop
  | call {s : LocalStore} {d : Durable D} {v : Index} {call : Call D (Except ChunkError α)}
      {onMap : OnMap α} (hcall : FabricCall call onMap) :
      FabricStep (s, d, v) (follow s (call d v).value (onMap s), (call d v).disk, (call d v).mem)

lemma Stands.run {x y : LocalStore × Durable D × Index} (h : Stands x.1 x.2.1 x.2.2)
    (hrun : ReflTransGen FabricStep x y) : Stands y.1 y.2.1 y.2.2 := by
  induction hrun with
  | refl => exact h
  | tail _ hstep ih =>
    cases hstep with
    | call hcall =>
      obtain ⟨err, hvalue, hstands⟩ | ⟨a, s', hvalue, hmap, hstands⟩ := ih.answers hcall
      · dsimp only
        rw [hvalue]
        exact hstands
      · dsimp only at hmap ⊢
        rw [hvalue, hmap]
        exact hstands

lemma stands_fresh {device : D} {live : Finset Extent} (h : LawfulBackend.Holds device live)
    (pools : Finmap fun _ : String => Nat) : Stands ⟨∅, ∅⟩ ⟨device, ∅, ∅⟩ ⟨∅, ∅, pools⟩ := by
  obtain ⟨K, F, c, hat, _⟩ := World.tracks_fresh h pools
  refine ⟨K, F, c, hat, fun id => ?_, fun key => ?_⟩
  · rw [map_eq_none_iff.1 (hat.mirrors.chunks id).symm]
    rfl
  · rw [map_eq_none_iff.1 (hat.mirrors.fragments key).symm]
    rfl

/-- In every run of the fabric's calls the persistent store reads as the map. -/
theorem local_store_refined {device : D} {live : Finset Extent}
    (hdevice : LawfulBackend.Holds device live) {pools : Finmap fun _ : String => Nat}
    (hrun : ReflTransGen FabricStep (⟨∅, ∅⟩, ⟨device, ∅, ∅⟩, ⟨∅, ∅, pools⟩) (s, d, v)) :
    (∀ id, Chunk.readChunk d v id = s.readChunk id ∧ Chunk.refcount v id = s.refcount id) ∧
      (∀ id index, Chunk.readFragment d v id index = s.readFragment id index) ∧
      ∀ {α : Type} {call : Call D (Except ChunkError α)} {onMap}, FabricCall call onMap →
        ∀ a, (call d v).value = .ok a → ∃ s', onMap s = .ok (a, s') := by
  have h : Stands s d v := (stands_fresh hdevice pools).run hrun
  refine ⟨fun id => ⟨h.readChunk id, h.refcount id⟩, h.readFragment, fun hcall a hvalue => ?_⟩
  obtain ⟨err, hr, _⟩ | ⟨a', s', hr, hmap, _⟩ := h.answers hcall
  · cases hr.symm.trans hvalue
  · cases hr.symm.trans hvalue
    exact ⟨s', hmap⟩

theorem local_store_refined_fragment :
    let o := writeFragmentTier ⟨.replicate 32 0⟩ 0 [7] none ⟨tiny, ∅, ∅⟩ ⟨∅, ∅, ∅⟩
    Chunk.readFragment o.disk o.mem ⟨.replicate 32 0⟩ 0 = .ok [7] :=
  (local_store_refined (holds_init _) (.single (.call (.writeFragment ..)))).2.1 ..

end Persistent

end Kiseki.Fabric
