import Kiseki.Block.Backend
import Kiseki.Lib.Crash

namespace Kiseki.Chunk

open Crash Kiseki.Block Prog

structure Envelope where
  ciphertext : Bytes
  authTag : Vector UInt8 16
  nonce : Vector UInt8 12
  systemEpoch : Nat
  tenantEpoch : Option Nat
  tenantWrappedMaterial : Option Bytes
  chunkId : ChunkId
deriving DecidableEq, Repr

structure ChunkRecord where
  chunkId : ChunkId
  refcount : Nat
  retentionHolds : List String
  poolName : String
  storedBytes : Nat
  dataBytes : Nat
  extentOffset : Nat
  extentLength : Nat
  extraExtents : List (Nat × Nat)
  nonce : Vector UInt8 12
  authTag : Vector UInt8 16
  systemEpoch : Nat
  tenantEpoch : Option Nat
  tenantWrappedMaterial : Option Bytes
deriving DecidableEq, Repr

structure FragmentRecord where
  chunkId : ChunkId
  fragmentIndex : Nat
  extentOffset : Nat
  extentLength : Nat
  dataBytes : Nat
deriving DecidableEq, Repr

inductive IoCause where
  | alloc (err : AllocError)
  | block (err : BlockError)
  | refcountOverflow
deriving DecidableEq, Repr

inductive ChunkError where
  | notFound (id : ChunkId)
  | refcountUnderflow (id : ChunkId)
  | io (cause : IoCause)
  | chunkLost
  | ecInvalidConfig
  | ecEncodeFailed
  | slabNotFound (slabId : Uuid)
deriving DecidableEq, Repr

structure ChunkEntry where
  record : ChunkRecord
  extents : List Extent
deriving DecidableEq, Repr

abbrev FragmentKey := ChunkId × Nat

/-- What survives a crash: the device and the two keyspaces of the metadata store. -/
structure Durable (D : Type) where
  device : D
  chunks : Finmap fun _ : ChunkId => ChunkRecord
  fragments : Finmap fun _ : FragmentKey => FragmentRecord

structure Index where
  chunks : Finmap fun _ : ChunkId => ChunkEntry
  fragments : Finmap fun _ : FragmentKey => Extent
  pools : Finmap fun _ : String => Nat

/-- A call, with the durable steps of device and metadata store. -/
abbrev Call (D α : Type) := Prog (Durable D) Index α

def maxExtentPayloadBytes : Nat := maxExtentBytes - overhead

def tierForPool (pool : String) : Option StorageTier :=
  if pool = "fast" then some .fast
  else if pool = "bulk" then some .bulk
  else if pool = "cold" then some .cold
  else none

def extentsFromRecord (record : ChunkRecord) : List Extent :=
  (if 0 < record.extentLength then [⟨record.extentOffset, record.extentLength⟩] else []) ++
    record.extraExtents.map fun x => ⟨x.1, x.2⟩

def FragmentRecord.extent (record : FragmentRecord) : Extent :=
  ⟨record.extentOffset, record.extentLength⟩

def newRecord (envelope : Envelope) (pool : String) (extents : List Extent) : ChunkRecord where
  chunkId := envelope.chunkId
  refcount := 1
  retentionHolds := []
  poolName := pool
  storedBytes := (extents.map Extent.length).sum
  dataBytes := envelope.ciphertext.length
  extentOffset := (extents.head?.map Extent.offset).getD 0
  extentLength := (extents.head?.map Extent.length).getD 0
  extraExtents := extents.tail.map fun e => (e.offset, e.length)
  nonce := envelope.nonce
  authTag := envelope.authTag
  systemEpoch := envelope.systemEpoch
  tenantEpoch := envelope.tenantEpoch
  tenantWrappedMaterial := envelope.tenantWrappedMaterial

def Index.hydrate (d : Durable D) (pools : Finmap fun _ : String => Nat) : Index where
  chunks := Maps.mapValues (fun record => ⟨record, extentsFromRecord record⟩) d.chunks
  fragments := Maps.mapValues FragmentRecord.extent d.fragments
  pools := pools

section Metadata

def putChunk (record : ChunkRecord) : Call D Unit :=
  commit fun d => { d with chunks := d.chunks.insert record.chunkId record }

def removeChunk (id : ChunkId) (d : Durable D) : Durable D :=
  { d with chunks := d.chunks.erase id }

def putFragment (record : FragmentRecord) : Call D Unit :=
  commit fun d =>
    { d with fragments := d.fragments.insert (record.chunkId, record.fragmentIndex) record }

def removeFragment (id : ChunkId) (index : Nat) : Call D Unit :=
  commit fun d => { d with fragments := d.fragments.erase (id, index) }

end Metadata

section Device
variable [DeviceBackend D]

def allocInTier (size : Nat) (tier : Option StorageTier) : Call D (Except AllocError Extent) := do
  let d ← disk
  match DeviceBackend.allocInTier d.device size tier with
  | .error err => pure (.error err)
  | .ok (extent, device) =>
    commit fun d => { d with device := device }
    pure (.ok extent)

def write (extent : Extent) (data : Bytes) : Call D (Except BlockError Unit) := do
  let d ← disk
  match DeviceBackend.write d.device extent data with
  | .error err => pure (.error err)
  | .ok device =>
    commit fun d => { d with device := device }
    pure (.ok ())

def free (extent : Extent) : Call D (Except AllocError Unit) := do
  let d ← disk
  match DeviceBackend.free d.device extent with
  | .error err => pure (.error err)
  | .ok device =>
    commit fun d => { d with device := device }
    pure (.ok ())

def freeAll : List Extent → Call D Unit
  | [] => pure ()
  | extent :: extents => do
    let _ ← free extent
    freeAll extents

def freeUntilError : List Extent → Call D Bool
  | [] => pure true
  | extent :: extents => do
    match ← free extent with
    | .error _ => pure false
    | .ok () => freeUntilError extents

def pieces (n : Nat) : Nat → Bytes → List Bytes
  | 0, _ => []
  | fuel + 1, data =>
    if data.isEmpty then [] else data.take n :: pieces n fuel (data.drop n)

/-- The loop of `alloc_and_write_chunked` with the extents it has written. -/
def writePieces (tier : Option StorageTier) (extents : List Extent) :
    List Bytes → Call D (Except ChunkError (List Extent))
  | [] => pure (.ok extents)
  | piece :: rest => do
    match ← allocInTier piece.length tier with
    | .error err =>
      freeAll extents
      pure (.error (.io (.alloc err)))
    | .ok extent =>
      match ← write extent piece with
      | .error err =>
        let _ ← free extent
        freeAll extents
        pure (.error (.io (.block err)))
      | .ok () => writePieces tier (extents ++ [extent]) rest

def allocAndWriteChunked (data : Bytes) (tier : Option StorageTier) :
    Call D (Except ChunkError (List Extent)) :=
  writePieces tier [] (pieces maxExtentPayloadBytes data.length data)

def readExtents (device : D) : List Extent → Except BlockError Bytes
  | [] => .ok []
  | extent :: extents =>
    match DeviceBackend.read device extent with
    | .error err => .error err
    | .ok part =>
      match readExtents device extents with
      | .error err => .error err
      | .ok rest => .ok (part ++ rest)

def reconstructEnvelope (device : D) (record : ChunkRecord) (extents : List Extent) :
    Except ChunkError Envelope :=
  match readExtents device extents with
  | .error err => .error (.io (.block err))
  | .ok ciphertext => .ok {
      ciphertext := ciphertext
      authTag := record.authTag
      nonce := record.nonce
      systemEpoch := record.systemEpoch
      tenantEpoch := record.tenantEpoch
      tenantWrappedMaterial := record.tenantWrappedMaterial
      chunkId := record.chunkId }

end Device

section Chunks

section
variable (id : ChunkId)

/-- Shared by the calls on a stored chunk: change in memory, then put. -/
def updateRecord (f : ChunkRecord → Except ChunkError ChunkRecord) :
    Call D (Except ChunkError ChunkRecord) := do
  let v ← mem
  match v.chunks.lookup id with
  | none => pure (.error (.notFound id))
  | some entry =>
    match f entry.record with
    | .error err => pure (.error err)
    | .ok record =>
      modify fun v => { v with chunks := v.chunks.insert id { entry with record := record } }
      putChunk record
      pure (.ok record)

def ChunkRecord.bump (record : ChunkRecord) : Except ChunkError ChunkRecord :=
  if record.refcount < u64Max then .ok { record with refcount := record.refcount + 1 }
  else .error (.io .refcountOverflow)

def ChunkRecord.drop (record : ChunkRecord) : Except ChunkError ChunkRecord :=
  if record.refcount = 0 then .error (.refcountUnderflow id)
  else .ok { record with refcount := record.refcount - 1 }

def ChunkRecord.hold (name : String) (record : ChunkRecord) : Except ChunkError ChunkRecord :=
  if name ∈ record.retentionHolds then .ok record
  else .ok { record with retentionHolds := record.retentionHolds ++ [name] }

def ChunkRecord.release (name : String) (record : ChunkRecord) : Except ChunkError ChunkRecord :=
  .ok { record with retentionHolds := record.retentionHolds.filter (· ≠ name) }

def ChunkRecord.unused (record : ChunkRecord) : Bool :=
  record.refcount = 0 && record.retentionHolds.isEmpty

def incrementRefcount : Call D (Except ChunkError Nat) := do
  let r ← updateRecord id ChunkRecord.bump
  pure (r.map ChunkRecord.refcount)

def decrementRefcount : Call D (Except ChunkError Nat) := do
  let r ← updateRecord id (ChunkRecord.drop id)
  pure (r.map ChunkRecord.refcount)

def tryIncrementIfExists : Call D (Except ChunkError (Option Nat)) := do
  let v ← mem
  if id ∈ v.chunks then
    let r ← updateRecord id ChunkRecord.bump
    pure (r.map fun record => some record.refcount)
  else pure (.ok none)

def setRetentionHold (name : String) : Call D (Except ChunkError Unit) := do
  let r ← updateRecord id (ChunkRecord.hold name)
  pure (r.map fun _ => ())

def releaseRetentionHold (name : String) : Call D (Except ChunkError Unit) := do
  let r ← updateRecord id (ChunkRecord.release name)
  pure (r.map fun _ => ())

end

def chargePool (pools : Finmap fun _ : String => Nat) (pool : String) (f : Nat → Nat) :
    Finmap fun _ : String => Nat :=
  match pools.lookup pool with
  | none => pools
  | some used => pools.insert pool (f used)

def placeChunk [DeviceBackend D] (data : Bytes) (tier : Option StorageTier) :
    Call D (Except ChunkError (List Extent)) :=
  if data.isEmpty then pure (.ok []) else allocAndWriteChunked data tier

/-- A known chunk is only counted; a new one is placed, then recorded. -/
def writeChunk [DeviceBackend D] (envelope : Envelope) (pool : String) :
    Call D (Except ChunkError Bool) := do
  let v ← mem
  if envelope.chunkId ∈ v.chunks then
    let r ← updateRecord envelope.chunkId ChunkRecord.bump
    pure (r.map fun _ => false)
  else
    match ← placeChunk envelope.ciphertext (tierForPool pool) with
    | .error err => pure (.error err)
    | .ok extents =>
      let v ← mem
      -- another writer may have stored the chunk during the I/O
      if envelope.chunkId ∈ v.chunks then
        let r ← updateRecord envelope.chunkId ChunkRecord.bump
        pure (r.map fun _ => false)
      else
        modify fun v =>
          { v with
            pools := chargePool v.pools pool (· + envelope.ciphertext.length)
            chunks := v.chunks.insert envelope.chunkId
              ⟨newRecord envelope pool extents, extents⟩ }
        putChunk (newRecord envelope pool extents)
        pure (.ok true)

/-- The record of a chunk whose bytes are fragments on the placement nodes. -/
def registerEcChunk (envelope : Envelope) (pool : String) : Call D (Except ChunkError Bool) := do
  let v ← mem
  if envelope.chunkId ∈ v.chunks then
    let r ← updateRecord envelope.chunkId ChunkRecord.bump
    pure (r.map fun _ => false)
  else
    modify fun v =>
      { v with chunks := v.chunks.insert envelope.chunkId ⟨newRecord envelope pool [], []⟩ }
    putChunk (newRecord envelope pool [])
    pure (.ok true)

def toRemove (v : Index) (order : List ChunkId) : List (ChunkId × ChunkEntry) :=
  order.filterMap fun id =>
    ((v.chunks.lookup id).filter fun entry => entry.record.unused).map fun entry => (id, entry)

/-- Each chunk's extents are freed, then its entry goes. -/
def gcFree [DeviceBackend D] : List (ChunkId × ChunkEntry) → Call D (List ChunkId)
  | [] => pure []
  | (id, entry) :: rest => do
    if ← freeUntilError entry.extents then
      modify fun v =>
        { v with
          chunks := v.chunks.erase id
          pools := chargePool v.pools entry.record.poolName (· - entry.record.dataBytes) }
      let removed ← gcFree rest
      pure (id :: removed)
    else gcFree rest

def gc [DeviceBackend D] (order : List ChunkId) : Call D Nat := do
  let v ← mem
  let removed ← gcFree (toRemove v order)
  commitAll (removed.map removeChunk)
  pure removed.length

def refcount (v : Index) (id : ChunkId) : Except ChunkError Nat :=
  match v.chunks.lookup id with
  | none => .error (.notFound id)
  | some entry => .ok entry.record.refcount

def readChunk [DeviceBackend D] (d : Durable D) (v : Index) (id : ChunkId) :
    Except ChunkError Envelope :=
  match v.chunks.lookup id with
  | none => .error (.notFound id)
  | some entry => reconstructEnvelope d.device entry.record entry.extents

end Chunks

section Fragments
variable [DeviceBackend D]

def placeFragment (data : Bytes) (tier : Option StorageTier) :
    Call D (Except ChunkError Extent) := do
  match ← allocInTier data.length tier with
  | .error err => pure (.error (.io (.alloc err)))
  | .ok extent =>
    match ← write extent data with
    | .error err => pure (.error (.io (.block err)))
    | .ok () => pure (.ok extent)

/-- The old extent is freed, and the record put. -/
def recordFragment (id : ChunkId) (index : Nat) (extent : Extent) (size : Nat) : Call D Unit := do
  let v ← mem
  modify fun v => { v with fragments := v.fragments.insert (id, index) extent }
  freeAll (v.fragments.lookup (id, index)).toList
  putFragment ⟨id, index, extent.offset, extent.length, size⟩

def writeFragmentTier (id : ChunkId) (index : Nat) (data : Bytes) (tier : Option StorageTier) :
    Call D (Except ChunkError Unit) := do
  match ← placeFragment data tier with
  | .error err => pure (.error err)
  | .ok extent =>
    recordFragment id index extent data.length
    pure (.ok ())

def readFragment (d : Durable D) (v : Index) (id : ChunkId) (index : Nat) :
    Except ChunkError Bytes :=
  match v.fragments.lookup (id, index) with
  | none => .error (.notFound id)
  | some extent =>
    match DeviceBackend.read d.device extent with
    | .error err => .error (.io (.block err))
    | .ok data => .ok data

def deleteFragment (id : ChunkId) (index : Nat) : Call D (Except ChunkError Bool) := do
  let v ← mem
  modify fun v => { v with fragments := v.fragments.erase (id, index) }
  match v.fragments.lookup (id, index) with
  | none => pure (.ok false)
  | some extent =>
    let _ ← free extent
    removeFragment id index
    pure (.ok true)

end Fragments

end Kiseki.Chunk
