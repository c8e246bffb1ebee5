import Kiseki.Composition.Storage

namespace Kiseki.Compositions
open Intent Finmap Option Except

structure PendingNames where
  byName : Finmap fun _ : NameKey => CompositionId × Option PerspectiveSeq
  byId : Finmap fun _ : CompositionId => NameKey

namespace PendingNames

def empty : PendingNames := ⟨∅, ∅⟩

def owns (p : PendingNames) (key : NameKey) (id : CompositionId) : Bool :=
  (p.byName.lookup key).map Prod.fst == some id

/-- The newest bind wins; the reverse entry of the older owner goes. -/
def bind (p : PendingNames) (key : NameKey) (id : CompositionId) (seq : Option PerspectiveSeq) :
    PendingNames :=
  let byId := match p.byName.lookup key with
    | some (old, _) => if old = id then p.byId else p.byId.erase old
    | none => p.byId
  let bound : PendingNames := ⟨p.byName.insert key (id, seq), byId.insert id key⟩
  match byId.lookup id with
  | some previous =>
    if previous ≠ key ∧ bound.owns previous id then
      { bound with byName := bound.byName.erase previous }
    else bound
  | none => bound

def removeByName (p : PendingNames) (key : NameKey) : PendingNames :=
  match p.byName.lookup key with
  | some (old, _) => ⟨p.byName.erase key, p.byId.erase old⟩
  | none => p

def removeById (p : PendingNames) (id : CompositionId) : PendingNames :=
  match p.byId.lookup id with
  | some key => ⟨if p.owns key id then p.byName.erase key else p.byName, p.byId.erase id⟩
  | none => p

end PendingNames

abbrev ConditionalCheck := Option CompositionId → Except String Unit

/-- A backend and the overlay of rows that are not durable yet. -/
structure CompositionStore where
  backend : Backend
  storage : Storage
  namespaces : Finmap fun _ : NamespaceId => Namespace
  multiparts : Finmap fun _ : String => MultipartUpload × NamespaceId
  pending : Finmap fun _ : CompositionId => Composition
  pendingNames : PendingNames
  pendingMax : Nat

namespace CompositionStore

def new (backend : Backend) (pendingMax : Nat) : CompositionStore :=
  ⟨backend, .empty, ∅, ∅, ∅, .empty, pendingMax⟩

section
variable (st : CompositionStore)

def addNamespace (ns : Namespace) : CompositionStore :=
  { st with namespaces := st.namespaces.insert ns.id ns }

def namespace? (id : NamespaceId) : Option Namespace :=
  st.namespaces.lookup id

def find (id : CompositionId) : Option Composition :=
  (st.pending.lookup id).or (st.storage.get id)

def get (id : CompositionId) : Except CompositionError Composition :=
  match st.find id with
  | some comp => .ok comp
  | none => .error (.compositionNotFound id)

def lookupByName (key : NameKey) : Option CompositionId :=
  ((st.pendingNames.byName.lookup key).map Prod.fst).or (st.storage.nameLookup key)

def writable (id : NamespaceId) : Except CompositionError Namespace :=
  match st.namespace? id with
  | some ns => if ns.readOnly then .error (.readOnlyNamespace id) else .ok ns
  | none => .error (.namespaceNotFound id)

def putRow (comp : Composition) : CompositionStore :=
  { st with storage := st.storage.put comp }

def createWithLens (id : CompositionId) (nsId : NamespaceId)
    (chunks : List ChunkId) (lens : List Nat) (size : Nat) :
    Except CompositionError CompositionStore := do
  let ns ← st.writable nsId
  return st.putRow (.new ns id chunks lens size)

def create (id : CompositionId) (nsId : NamespaceId)
    (chunks : List ChunkId) (size : Nat) : Except CompositionError CompositionStore :=
  st.createWithLens id nsId chunks [] size

/-- A row that is there stays; a read-only namespace does not refuse. -/
def createAt (id : CompositionId) (nsId : NamespaceId)
    (chunks : List ChunkId) (size : Nat) : Except CompositionError CompositionStore :=
  match st.namespace? nsId with
  | some ns =>
    match st.storage.get id with
    | some _ => .ok st
    | none => .ok (st.putRow (.new ns id chunks [] size))
  | none => .error (.namespaceNotFound nsId)

def checkConditional (cond : Option ConditionalCheck) (existing : Option CompositionId) :
    Except CompositionError Unit :=
  match cond with
  | some check => (check existing).mapError .preconditionFailed
  | none => .ok ()

def createWithName (id : CompositionId) (nsId : NamespaceId)
    (name : String) (cond : Option ConditionalCheck) (chunks : List ChunkId) (size : Nat) :
    Except CompositionError CompositionStore := do
  let ns ← st.writable nsId
  checkConditional cond (st.storage.nameLookup (nsId, name))
  return { st with storage := st.storage.putWithName (.new ns id chunks [] size) (nsId, name) }

def createVolatile (id : CompositionId) (nsId : NamespaceId)
    (chunks : List ChunkId) (size : Nat) : Except CompositionError CompositionStore := do
  let ns ← st.writable nsId
  let comp := Composition.new ns id chunks [] size
  if st.pendingMax ≤ st.pending.keys.card then return st.putRow comp
  return { st with pending := st.pending.insert id comp }

/-- At the cap the binding is written through, and a pending one goes. -/
def createWithNameVolatile (id : CompositionId) (nsId : NamespaceId)
    (name : String) (cond : Option ConditionalCheck) (chunks : List ChunkId) (size : Nat)
    (seq : Option PerspectiveSeq) : Except CompositionError CompositionStore := do
  let ns ← st.writable nsId
  checkConditional cond (st.lookupByName (nsId, name))
  let comp := Composition.new ns id chunks [] size
  if st.pendingMax ≤ st.pending.keys.card then
    return { st with
      storage := st.storage.putWithName comp (nsId, name)
      pendingNames := st.pendingNames.removeByName (nsId, name) }
  return { st with
    pending := st.pending.insert id comp
    pendingNames := st.pendingNames.bind (nsId, name) id seq }

def discardVolatile (id : CompositionId) : CompositionStore × Bool :=
  ({ st with pending := st.pending.erase id, pendingNames := st.pendingNames.removeById id },
    (st.pending.lookup id).isSome)

/-- The content type is in no delta, so it is carried over. -/
def mergeDrainedOverlayMetadata (overlay : Composition) :
    CompositionStore :=
  match overlay.contentType, st.storage.get overlay.id with
  | some contentType, some durable => st.putRow { durable with contentType := some contentType }
  | _, _ => st

def drainPending (id : CompositionId) : CompositionStore :=
  let drained := (st.discardVolatile id).1
  match st.pending.lookup id with
  | some overlay => drained.mergeDrainedOverlayMetadata overlay
  | none => drained

def versioningEnabled (id : NamespaceId) : Bool :=
  match st.namespace? id with
  | some ns => ns.versioningEnabled
  | none => false

/-- In a versioned namespace a delete only counts the version up. -/
def delete (id : CompositionId) :
    Except CompositionError (CompositionStore × DeleteResult) :=
  match st.pending.lookup id with
  | some comp =>
    if st.versioningEnabled comp.namespaceId then
      .ok ({ st with pending := st.pending.insert id { comp with version := comp.version + 1 } },
        .deleteMarker)
    else .ok ((st.discardVolatile id).1, .removed comp.chunks)
  | none =>
    match st.storage.get id with
    | some comp =>
      if st.versioningEnabled comp.namespaceId then
        .ok (st.putRow { comp with version := comp.version + 1 }, .deleteMarker)
      else .ok ({ st with storage := st.storage.remove id }, .removed comp.chunks)
    | none => .error (.compositionNotFound id)

def startMultipart (uploadId : String) (nsId : NamespaceId) :
    Except CompositionError CompositionStore :=
  match st.namespace? nsId with
  | some _ =>
    .ok { st with multiparts := st.multiparts.insert uploadId ({ uploadId := uploadId }, nsId) }
  | none => .error (.namespaceNotFound nsId)

def uploadPart (uploadId : String) (part : MultipartPart) :
    Except CompositionError CompositionStore :=
  match st.multiparts.lookup uploadId with
  | some (upload, nsId) =>
    match upload.addPart part with
    | some upload => .ok { st with multiparts := st.multiparts.insert uploadId (upload, nsId) }
    | none => .error (.multipartNotFinalized uploadId)
  | none => .error (.multipartNotFound uploadId)

def u32Max : Nat := 2 ^ 32 - 1

def finalizeMultipart (uploadId : String) (id : CompositionId) :
    Except CompositionError CompositionStore :=
  match st.multiparts.lookup uploadId with
  | some (upload, nsId) =>
    match upload.finalize with
    | some finalized =>
      createWithLens { st with multiparts := st.multiparts.insert uploadId (finalized, nsId) } id
        nsId (upload.parts.map MultipartPart.chunkId)
        (upload.parts.map fun part => min part.size u32Max) upload.totalSize
    | none => .error (.multipartNotFinalized uploadId)
  | none => .error (.multipartNotFound uploadId)

end

section
variable {st st' : CompositionStore} {id : CompositionId} {nsId : NamespaceId}
  {cond : Option ConditionalCheck}

lemma get_eq_ok {comp : Composition} : st.get id = .ok comp ↔ st.find id = some comp := by
  simp only [get]
  cases st.find id with
  | none => exact ⟨nofun, nofun⟩
  | some row => exact ⟨fun h => congrArg some (ok.inj h), fun h => congrArg ok
      (some.inj h)⟩

structure RowsSound (st : CompositionStore) : Prop where
  keyed : ∀ id comp, st.find id = some comp → comp.id = id
  disjoint : ∀ id comp, st.pending.lookup id = some comp → st.storage.get id = none

structure DifferAt (st st' : CompositionStore) (id : CompositionId) : Prop where
  others : ∀ x, x ≠ id → st'.find x = st.find x
  sound : st.RowsSound → st'.RowsSound

section
variable (st' : CompositionStore) (row : Option Composition)

lemma DifferAt.of (hkeyed : ∀ comp, row = some comp → comp.id = id) (hfind : st'.find id = row)
    (hpending : ∀ x, x ≠ id → st'.pending.lookup x = st.pending.lookup x)
    (hstorage : ∀ x, x ≠ id → st'.storage.get x = st.storage.get x)
    (hdisjoint : st'.pending.lookup id = none ∨ st'.storage.get id = none) :
    DifferAt st st' id ∧ st'.find id = row := by
  have hsame : ∀ x, x ≠ id → st'.find x = st.find x := fun x hx => by
    rw [find, find, hpending x hx, hstorage x hx]
  refine ⟨⟨hsame, fun hsound => ⟨?_, ?_⟩⟩, hfind⟩
  · intro x comp hcomp
    by_cases hx : x = id
    · rw [hx, hfind] at hcomp
      rw [hx]
      exact hkeyed comp hcomp
    · rw [hsame x hx] at hcomp
      exact hsound.keyed x comp hcomp
  · intro x comp hcomp
    by_cases hx : x = id
    · subst hx
      exact hdisjoint.resolve_left fun hnone => absurd (hnone.symm.trans hcomp) nofun
    · rw [hpending x hx] at hcomp
      rw [hstorage x hx]
      exact hsound.disjoint x comp hcomp

lemma DifferAt.ofStorage
    (hkeyed : ∀ comp, row = some comp → comp.id = id) (hpending : st.pending.lookup id = none)
    (h : st'.pending = st.pending) (hrow : st'.storage.get id = row)
    (hothers : ∀ x, x ≠ id → st'.storage.get x = st.storage.get x) :
    DifferAt st st' id ∧ st'.find id = row := by
  rw [← h] at hpending
  refine DifferAt.of st' row hkeyed ?_ (fun x _ => by rw [h]) hothers (.inl hpending)
  rw [find, hpending, none_or, hrow]

lemma DifferAt.ofPending
    (hkeyed : ∀ comp, row = some comp → comp.id = id) (hstorage : st.storage.get id = none)
    (h : ∀ x, st'.storage.get x = st.storage.get x) (hrow : st'.pending.lookup id = row)
    (hothers : ∀ x, x ≠ id → st'.pending.lookup x = st.pending.lookup x) :
    DifferAt st st' id ∧ st'.find id = row := by
  rw [← h] at hstorage
  refine DifferAt.of st' row hkeyed ?_ hothers (fun x _ => h x) (.inr hstorage)
  rw [find, hstorage, or_none, hrow]

end

def AddsRow (st st' : CompositionStore) (comp : Composition) : Prop :=
  DifferAt st st' comp.id ∧ st'.find comp.id = some comp

lemma AddsRow.ofStorage {comp : Composition} (hpending : st.pending.lookup comp.id = none)
    (h : st'.pending = st.pending)
    (h' : st'.storage.compositions = st.storage.compositions.insert comp.id comp) :
    AddsRow st st' comp := by
  apply DifferAt.ofStorage st' (some comp) _ hpending h
  · rw [Storage.get, h', lookup_insert]
  · intro x hx
    rw [Storage.get, h', lookup_insert_of_ne _ hx]
    rfl
  · rintro _ ⟨⟩
    rfl

lemma AddsRow.ofPending {comp : Composition} (hstorage : st.storage.get comp.id = none)
    (h : st'.pending = st.pending.insert comp.id comp)
    (h' : st'.storage.compositions = st.storage.compositions) : AddsRow st st' comp := by
  apply DifferAt.ofPending st' (some comp) _ hstorage
  · intro x
    rw [Storage.get, h', Storage.get]
  · rw [h, lookup_insert]
  · intro x hx
    rw [h, lookup_insert_of_ne _ hx]
  · rintro _ ⟨⟩
    rfl

lemma find_eq_none : st.find id = none ↔
    st.pending.lookup id = none ∧ st.storage.get id = none := or_eq_none_iff

lemma bind_ok {x : Except ε α} {f : α → Except ε β} {b : β} (h : x >>= f = .ok b) :
    ∃ a, x = .ok a ∧ f a = .ok b := by
  cases x with
  | error e => cases h
  | ok a => exact ⟨a, rfl, h⟩

lemma writable_ok {ns : Namespace} (h : st.writable nsId = .ok ns) :
    st.namespace? nsId = some ns := by
  simp only [writable] at h
  split at h
  · split at h
    · cases h
    · cases h
      assumption
  · cases h

lemma createWithLens_ok (h : st.createWithLens id nsId chunks lens size = .ok st') :
    ∃ ns, st.writable nsId = .ok ns ∧ st' = st.putRow (.new ns id chunks lens size) := by
  obtain ⟨ns, hns, h⟩ := bind_ok h
  exact ⟨ns, hns, (ok.inj h).symm⟩

lemma createWithName_ok (h : st.createWithName id nsId name cond chunks size = .ok st') :
    ∃ ns, st.writable nsId = .ok ns ∧ st' = { st with
      storage := st.storage.putWithName (.new ns id chunks [] size) (nsId, name) } := by
  obtain ⟨ns, hns, h⟩ := bind_ok h
  obtain ⟨_, _, h⟩ := bind_ok h
  exact ⟨ns, hns, (ok.inj h).symm⟩

lemma createVolatile_ok (h : st.createVolatile id nsId chunks size = .ok st') :
    ∃ ns, st.writable nsId = .ok ns ∧
      (st' = st.putRow (.new ns id chunks [] size) ∨
        st' = { st with pending := st.pending.insert id (.new ns id chunks [] size) }) := by
  obtain ⟨ns, hns, h⟩ := bind_ok h
  refine ⟨ns, hns, ?_⟩
  split at h
  · exact .inl (ok.inj h).symm
  · exact .inr (ok.inj h).symm

lemma createWithNameVolatile_ok
    (h : st.createWithNameVolatile id nsId name cond chunks size seq = .ok st') :
    ∃ ns, st.writable nsId = .ok ns ∧
      (st' = { st with
          storage := st.storage.putWithName (.new ns id chunks [] size) (nsId, name)
          pendingNames := st.pendingNames.removeByName (nsId, name) } ∨
        st' = { st with
          pending := st.pending.insert id (.new ns id chunks [] size)
          pendingNames := st.pendingNames.bind (nsId, name) id seq }) := by
  obtain ⟨ns, hns, h⟩ := bind_ok h
  obtain ⟨_, _, h⟩ := bind_ok h
  refine ⟨ns, hns, ?_⟩
  split at h
  · exact .inl (ok.inj h).symm
  · exact .inr (ok.inj h).symm

lemma createAt_ok (hfresh : st.storage.get id = none)
    (h : st.createAt id nsId chunks size = .ok st') :
    ∃ ns, st.namespace? nsId = some ns ∧ st' = st.putRow (.new ns id chunks [] size) := by
  simp only [createAt, hfresh] at h
  split at h
  · rename_i ns hns
    cases h
    exact ⟨ns, hns, rfl⟩
  · cases h

lemma delete_ok {result : DeleteResult} (hsound : st.RowsSound)
    (h : st.delete id = .ok (st', result)) :
    ∃ comp, st.find id = some comp ∧ DifferAt st st' id ∧
      (result = .deleteMarker ∧ st'.find id = some { comp with version := comp.version + 1 } ∨
        result = .removed comp.chunks ∧ st'.find id = none) := by
  simp only [delete] at h
  cases hpending : st.pending.lookup id with
  | some comp =>
    have hfind : st.find id = some comp := by rw [find, hpending, some_or]
    have hid := hsound.keyed id comp hfind
    have hstorage := hsound.disjoint id comp hpending
    simp only [hpending] at h
    refine ⟨comp, hfind, ?_⟩
    split at h
    · cases h
      obtain ⟨hdiffer, hrow⟩ := DifferAt.ofPending { st with
          pending := st.pending.insert id { comp with version := comp.version + 1 } }
        (some { comp with version := comp.version + 1 }) (by rintro _ ⟨⟩; exact hid) hstorage
        (fun _ => rfl) (lookup_insert _) (fun x hx => lookup_insert_of_ne _ hx)
      exact ⟨hdiffer, .inl ⟨rfl, hrow⟩⟩
    · cases h
      obtain ⟨hdiffer, hrow⟩ := DifferAt.ofPending (st.discardVolatile id).1 none nofun hstorage
        (fun _ => rfl) (lookup_erase _ _) (fun x hx => lookup_erase_ne hx)
      exact ⟨hdiffer, .inr ⟨rfl, hrow⟩⟩
  | none =>
    simp only [hpending] at h
    split at h
    · rename_i comp hstorage
      have hfind : st.find id = some comp := by rw [find, hpending, none_or, hstorage]
      obtain rfl := hsound.keyed id comp hfind
      refine ⟨comp, hfind, ?_⟩
      split at h
      · cases h
        obtain ⟨hdiffer, hrow⟩ := DifferAt.ofStorage
          (st.putRow { comp with version := comp.version + 1 })
          (some { comp with version := comp.version + 1 }) (by rintro _ ⟨⟩; rfl) hpending rfl
          (lookup_insert _) (fun x hx => lookup_insert_of_ne _ hx)
        exact ⟨hdiffer, .inl ⟨rfl, hrow⟩⟩
      · cases h
        obtain ⟨hdiffer, hrow⟩ := DifferAt.ofStorage
          { st with storage := st.storage.remove comp.id } none nofun hpending rfl
          Storage.get_remove_self (fun x hx => Storage.get_remove_of_ne hx)
        exact ⟨hdiffer, .inr ⟨rfl, hrow⟩⟩
    · cases h

end

end CompositionStore

end Kiseki.Compositions
