import Kiseki.Composition.Store
import Kiseki.Lib.Segments

namespace Kiseki.Gateway
open Compositions Intent Log Segments Finmap CompositionStore List Option Storage

def maxPlaintextPerChunk : Nat := 64 * 1024 * 1024

inductive WriteSurface where
  | s3
  | native
  | nfs
  | fuse
deriving DecidableEq, Repr

def WriteSurface.isAsyncAckEligible : WriteSurface → Bool
  | .s3 | .native => true
  | .nfs | .fuse => false

structure WriteRequest where
  tenantId : OrgId
  namespaceId : NamespaceId
  data : Bytes
  name : Option String := none
  conditional : Option ConditionalCheck := none
  compIdOverride : Option CompositionId := none
  surface : WriteSurface
  baseCompositionId : Option CompositionId := none
  baseBytes : Nat := 0

structure WriteResponse where
  compositionId : CompositionId
  bytesWritten : Nat
deriving DecidableEq, Repr

inductive GatewayError where
  | authenticationFailed
  | readOnlyNamespace
  | namespaceNotFound (id : NamespaceId)
  | preconditionFailed (reason : String)
  | upstream (cause : CompositionError)
  | chunkLost (id : ChunkId)
  | protocolError (reason : String)
deriving DecidableEq, Repr

def GatewayError.ofCreate : CompositionError → GatewayError
  | .namespaceNotFound id => .namespaceNotFound id
  | .preconditionFailed reason => .preconditionFailed reason
  | e => .upstream e

structure ChunkEntry where
  plaintext : Bytes
  refcount : Nat
deriving DecidableEq, Repr

abbrev ChunkStore := Finmap fun _ : ChunkId => ChunkEntry

namespace ChunkStore

section
variable (s : ChunkStore)

def tryIncrementIfExists (id : ChunkId) : Option ChunkStore :=
  match s.lookup id with
  | some entry => some (s.insert id { entry with refcount := entry.refcount + 1 })
  | none => none

def incrementRefcount (id : ChunkId) : ChunkStore :=
  (s.tryIncrementIfExists id).getD s

/-- A chunk that is there is referenced once more. -/
def writeChunk (id : ChunkId) (plaintext : Bytes) : ChunkStore × Bool :=
  match s.tryIncrementIfExists id with
  | some s => (s, false)
  | none => (s.insert id ⟨plaintext, 1⟩, true)

def readChunk (id : ChunkId) : Option Bytes :=
  (s.lookup id).map ChunkEntry.plaintext

def decrementRefcount (id : ChunkId) : ChunkStore :=
  match s.lookup id with
  | some entry => s.insert id { entry with refcount := entry.refcount - 1 }
  | none => s

end

end ChunkStore

/-- Inlined bytes are cached until their delta is applied, then stored. -/
structure InMemoryGateway where
  chunks : ChunkStore
  inlined : Finmap fun _ : ChunkId => Bytes
  compositions : CompositionStore

structure ChunkLanded where
  id : ChunkId
  ciphertextLen : Nat
  wasNew : Bool
deriving DecidableEq, Repr

/-- The row's id and stamp, and whether a single piece may go inline. -/
structure Draw where
  id : CompositionId
  seq : PerspectiveSeq
  inlineTier : Bool
deriving DecidableEq, Repr

structure Landing where
  chunks : ChunkStore
  inlined : Finmap fun _ : ChunkId => Bytes
  landed : List ChunkLanded
  staged : List (ChunkId × Bytes)

def rawPieces (data : Bytes) : List Bytes :=
  if data = [] then [[]] else pieces maxPlaintextPerChunk data

section
variable (deriveChunkId : Bytes → ChunkId)

/-- A stored chunk is referenced; another goes inline or is staged. -/
def landPiece (willInline : Bool) (l : Landing) (piece : Bytes) : Landing :=
  let id := deriveChunkId piece
  match l.chunks.tryIncrementIfExists id with
  | some chunks => { l with chunks := chunks, landed := l.landed ++ [⟨id, 0, false⟩] }
  | none =>
    if willInline then
      { l with
        inlined := l.inlined.insert id piece
        landed := l.landed ++ [⟨id, piece.length, false⟩] }
    else
      { l with
        staged := l.staged ++ [(id, piece)]
        landed := l.landed ++ [⟨id, piece.length, true⟩] }

def landPieces (gw : InMemoryGateway) (data : Bytes) (inlineTier : Bool) : Landing :=
  let raw := rawPieces data
  raw.foldl (landPiece deriveChunkId (decide (raw.length = 1) && inlineTier))
    ⟨gw.chunks, gw.inlined, [], []⟩

def chainOnBase (st : CompositionStore) (req : WriteRequest) (newChunkIds : List ChunkId) :
    Except GatewayError (List ChunkId × Nat) :=
  match req.baseCompositionId with
  | some baseId =>
    match st.get baseId with
    | .ok base => .ok (base.chunks ++ newChunkIds, req.baseBytes + req.data.length)
    | .error e => .error (.upstream e)
  | none => .ok (newChunkIds, req.data.length)

/-- Async-ack surfaces make the row in the overlay, the others write it through. -/
def createRow (st : CompositionStore) (req : WriteRequest) (draw : Draw)
    (chunkIds : List ChunkId) (size : Nat) :
    Except CompositionError (CompositionStore × CompositionId) :=
  match req.compIdOverride, req.name with
  | some target, _ => (st.createAt target req.namespaceId chunkIds size).map (·, target)
  | none, some name =>
    if req.surface.isAsyncAckEligible then
      (st.createWithNameVolatile draw.id req.namespaceId name req.conditional chunkIds size
        (some draw.seq)).map (·, draw.id)
    else
      (st.createWithName draw.id req.namespaceId name req.conditional chunkIds size).map
        (·, draw.id)
  | none, none =>
    if req.surface.isAsyncAckEligible then
      (st.createVolatile draw.id req.namespaceId chunkIds size).map (·, draw.id)
    else (st.create draw.id req.namespaceId chunkIds size).map (·, draw.id)

structure Prepared where
  gateway : InMemoryGateway
  landed : List ChunkLanded
  staged : List (ChunkId × Bytes)
  chunkRefs : List ChunkId
  response : WriteResponse

section
variable (gw : InMemoryGateway)

/-- What a write does before it is acknowledged. -/
def prepareWrite (req : WriteRequest) (draw : Draw) :
    Except GatewayError Prepared :=
  if (gw.compositions.namespace? req.namespaceId).any Namespace.readOnly then
    .error .readOnlyNamespace
  else
    let landing := landPieces deriveChunkId gw req.data draw.inlineTier
    match chainOnBase gw.compositions req (landing.landed.map ChunkLanded.id) with
    | .error e => .error e
    | .ok (chunkIds, size) =>
      match createRow gw.compositions req draw chunkIds size with
      | .error e => .error (.ofCreate e)
      | .ok (st, id) =>
        .ok
          { gateway := ⟨landing.chunks, landing.inlined, st⟩
            landed := landing.landed
            staged := landing.staged
            chunkRefs := chunkIds
            response := ⟨id, size⟩ }

def writeStaged (chunks : ChunkStore) (staged : List (ChunkId × Bytes)) : ChunkStore :=
  staged.foldl (fun s chunk => (s.writeChunk chunk.1 chunk.2).1) chunks

def Prepared.acked (p : Prepared) : InMemoryGateway :=
  { p.gateway with chunks := writeStaged p.gateway.chunks p.staged }

/-- An acked write: durable chunks, and a delta on its way. -/
def write (req : WriteRequest) (draw : Draw) :
    Except GatewayError (InMemoryGateway × WriteResponse) :=
  (prepareWrite deriveChunkId gw req draw).map fun p => (p.acked, p.response)

def uploadPart (uploadId : String) (partNumber : Nat) (data : Bytes) :
    Except GatewayError InMemoryGateway :=
  let id := deriveChunkId data
  let (chunks, wasNew) := gw.chunks.writeChunk id data
  let chunks := if wasNew then chunks else chunks.incrementRefcount id
  match gw.compositions.uploadPart uploadId ⟨partNumber, id, data.length, wasNew⟩ with
  | .ok st => .ok { gw with chunks := chunks, compositions := st }
  | .error e => .error (.upstream e)

def startMultipart (uploadId : String) (nsId : NamespaceId) :
    Except GatewayError InMemoryGateway :=
  match gw.compositions.startMultipart uploadId nsId with
  | .ok st => .ok { gw with compositions := st }
  | .error e => .error (.upstream e)

def completeMultipart (uploadId : String) (name : Option String)
    (id : CompositionId) : Except GatewayError InMemoryGateway :=
  match gw.compositions.finalizeMultipart uploadId id with
  | .error e => .error (.upstream e)
  | .ok st =>
    match st.get id, name with
    | .error e, _ => .error (.upstream e)
    | .ok _, none => .ok { gw with compositions := st }
    | .ok comp, some name =>
      .ok { gw with compositions :=
        { st with storage := st.storage.nameInsert (comp.namespaceId, name) id } }

end

end

section
variable {s : ChunkStore} {id : ChunkId} {c : ChunkId}

lemma ChunkStore.readChunk_tryIncrementIfExists {s' : ChunkStore}
    (h : s.tryIncrementIfExists id = some s') : s'.readChunk c = s.readChunk c := by
  simp only [tryIncrementIfExists] at h
  split at h
  · rename_i entry hentry
    cases h
    by_cases hc : c = id
    · subst hc
      rw [readChunk, readChunk, lookup_insert, hentry]
      rfl
    · rw [readChunk, readChunk, lookup_insert_of_ne _ hc]
  · cases h

lemma ChunkStore.tryIncrementIfExists_eq_none :
    s.tryIncrementIfExists id = none ↔ s.readChunk id = none := by
  rw [tryIncrementIfExists, readChunk]
  cases s.lookup id with
  | none => exact ⟨fun _ => rfl, fun _ => rfl⟩
  | some entry => exact ⟨nofun, nofun⟩

lemma ChunkStore.readChunk_writeChunk (data : Bytes) :
    (s.writeChunk id data).1.readChunk c =
      (s.readChunk c).or (if c = id then some data else none) := by
  simp only [writeChunk]
  cases htry : s.tryIncrementIfExists id with
  | none =>
    by_cases hc : c = id
    · subst hc
      rw [tryIncrementIfExists_eq_none.1 htry, if_pos rfl, readChunk, lookup_insert]
      rfl
    · rw [if_neg hc, or_none, readChunk, readChunk, lookup_insert_of_ne _ hc]
  | some s' =>
    rw [readChunk_tryIncrementIfExists htry]
    cases hread : s.readChunk c with
    | some b => rfl
    | none =>
      rw [if_neg, none_or]
      rintro rfl
      rw [tryIncrementIfExists_eq_none.2 hread] at htry
      cases htry

lemma ChunkStore.readChunk_incrementRefcount :
    (s.incrementRefcount id).readChunk c = s.readChunk c := by
  rw [incrementRefcount]
  cases htry : s.tryIncrementIfExists id with
  | none => rfl
  | some s' => exact readChunk_tryIncrementIfExists htry

end

def Stored (chunks : ChunkStore) (inlined : Finmap fun _ : ChunkId => Bytes) (id : ChunkId)
    (data : Bytes) : Prop :=
  inlined.lookup id = some data ∨ chunks.readChunk id = some data

def Addressed (deriveChunkId : Bytes → ChunkId) (S : Set Bytes) (chunks : ChunkStore)
    (inlined : Finmap fun _ : ChunkId => Bytes) : Prop :=
  ∀ id data, Stored chunks inlined id data → data ∈ S ∧ deriveChunkId data = id

section
variable {deriveChunkId : Bytes → ChunkId} {S : Set Bytes} {gw : InMemoryGateway}
  {chunks : ChunkStore} {inlined : Finmap fun _ : ChunkId => Bytes} {id : ChunkId}

lemma Addressed.eq_of_stored (h : Addressed deriveChunkId S chunks inlined)
    (hinj : Set.InjOn deriveChunkId S) (hpiece : piece ∈ S)
    (hstored : Stored chunks inlined (deriveChunkId piece) data) : data = piece := by
  obtain ⟨hdata, heq⟩ := h _ _ hstored
  exact hinj hdata hpiece heq

structure Landing.Sound (deriveChunkId : Bytes → ChunkId) (S : Set Bytes) (gw : InMemoryGateway)
    (l : Landing) (done : List Bytes) : Prop where
  ids : l.landed.map ChunkLanded.id = done.map deriveChunkId
  addressed : Addressed deriveChunkId S l.chunks l.inlined
  staged : ∀ chunk ∈ l.staged, chunk.2 ∈ S ∧ deriveChunkId chunk.2 = chunk.1
  kept : ∀ id data, Stored gw.chunks gw.inlined id data → Stored l.chunks l.inlined id data
  present : ∀ piece ∈ done, Stored l.chunks l.inlined (deriveChunkId piece) piece ∨
    (deriveChunkId piece, piece) ∈ l.staged

lemma Landing.Sound.landPiece {l : Landing} (h : l.Sound deriveChunkId S gw done)
    (hinj : Set.InjOn deriveChunkId S) (hpiece : piece ∈ S) (willInline : Bool) :
    (landPiece deriveChunkId willInline l piece).Sound deriveChunkId S gw (done ++ [piece]) := by
  simp only [Gateway.landPiece]
  cases htry : l.chunks.tryIncrementIfExists (deriveChunkId piece) with
  | some chunks =>
    have hsame : ∀ id data, Stored chunks l.inlined id data ↔ Stored l.chunks l.inlined id data :=
      fun id data => by rw [Stored, Stored, ChunkStore.readChunk_tryIncrementIfExists htry]
    have hread : ∃ data, l.chunks.readChunk (deriveChunkId piece) = some data := by
      cases hread : l.chunks.readChunk (deriveChunkId piece) with
      | some data => exact ⟨data, rfl⟩
      | none =>
        rw [ChunkStore.tryIncrementIfExists_eq_none.2 hread] at htry
        cases htry
    obtain ⟨data, hdata⟩ := hread
    obtain rfl := h.addressed.eq_of_stored hinj hpiece (.inr hdata)
    refine ⟨?_, fun id b hb => h.addressed id b ((hsame id b).1 hb), h.staged,
      fun id b hb => (hsame id b).2 (h.kept id b hb), ?_⟩
    · rw [map_append, h.ids, map_append]
      rfl
    · refine forall_mem_append.2 ⟨fun piece' hdone => ?_, forall_mem_singleton.2 ?_⟩
      · exact (h.present piece' hdone).imp_left (hsame _ _).2
      · exact .inl ((hsame _ _).2 (.inr hdata))
  | none =>
    cases willInline with
    | true =>
      have hmono : ∀ id b, Stored l.chunks l.inlined id b →
          Stored l.chunks (l.inlined.insert (deriveChunkId piece) piece) id b := by
        intro id b hb
        by_cases hid : id = deriveChunkId piece
        · subst hid
          obtain rfl := h.addressed.eq_of_stored hinj hpiece hb
          exact .inl (lookup_insert _)
        · exact hb.imp_left (lookup_insert_of_ne _ hid).trans
      refine ⟨?_, ?_, h.staged, fun id b hb => hmono id b (h.kept id b hb), ?_⟩
      · simp only [if_true, map_append, h.ids]
        rfl
      · rintro id b (hb | hb)
        · by_cases hid : id = deriveChunkId piece
          · subst hid
            obtain rfl := some.inj ((lookup_insert _).symm.trans hb)
            exact ⟨hpiece, rfl⟩
          · exact h.addressed id b (.inl ((lookup_insert_of_ne _ hid).symm.trans hb))
        · exact h.addressed id b (.inr hb)
      · refine forall_mem_append.2 ⟨fun piece' hdone => ?_, forall_mem_singleton.2 ?_⟩
        · exact (h.present piece' hdone).imp_left (hmono _ _)
        · exact .inl (.inl (lookup_insert _))
    | false =>
      refine ⟨?_, h.addressed, ?_, h.kept, ?_⟩
      · simp only [Bool.false_eq_true, if_false, map_append, h.ids]
        rfl
      · exact forall_mem_append.2 ⟨h.staged, forall_mem_singleton.2 ⟨hpiece, rfl⟩⟩
      · refine forall_mem_append.2 ⟨fun piece' hdone => ?_, forall_mem_singleton.2 ?_⟩
        · exact (h.present piece' hdone).imp_right (mem_append_left _)
        · exact .inr (mem_append_right _ (mem_singleton.2 rfl))

lemma Landing.Sound.foldl {l : Landing} (h : l.Sound deriveChunkId S gw done)
    (hinj : Set.InjOn deriveChunkId S) (willInline : Bool) (todo : List Bytes)
    (htodo : ∀ piece ∈ todo, piece ∈ S) :
    (todo.foldl (Gateway.landPiece deriveChunkId willInline) l).Sound deriveChunkId S gw
      (done ++ todo) := by
  induction todo generalizing l done with
  | nil =>
    rw [append_nil]
    exact h
  | cons piece todo ih =>
    obtain ⟨hpiece, htodo⟩ := forall_mem_cons.1 htodo
    have hnext := ih (h.landPiece hinj hpiece willInline) htodo
    rw [append_assoc] at hnext
    exact hnext

lemma landPieces_sound (hgw : Addressed deriveChunkId S gw.chunks gw.inlined)
    (hinj : Set.InjOn deriveChunkId S) {data : Bytes} (hdata : ∀ piece ∈ rawPieces data, piece ∈ S)
    (inlineTier : Bool) :
    (landPieces deriveChunkId gw data inlineTier).Sound deriveChunkId S gw (rawPieces data) := by
  have hstart : Landing.Sound deriveChunkId S gw ⟨gw.chunks, gw.inlined, [], []⟩ [] :=
    ⟨rfl, hgw, fun _ h => (nomatch h), fun _ _ h => h, fun _ h => (nomatch h)⟩
  exact hstart.foldl hinj _ (rawPieces data) hdata

section
variable (h : Addressed deriveChunkId S chunks inlined)

include h

lemma stored_writeChunk (hdata : data ∈ S) (hid : deriveChunkId data = id) :
    Addressed deriveChunkId S (chunks.writeChunk id data).1 inlined ∧
      ∀ c b, Stored chunks inlined c b → Stored (chunks.writeChunk id data).1 inlined c b := by
  constructor
  · rintro c b (hb | hb)
    · exact h c b (.inl hb)
    · rw [ChunkStore.readChunk_writeChunk, or_eq_some_iff] at hb
      rcases hb with hb | ⟨_, hb⟩
      · exact h c b (.inr hb)
      · split at hb
        · subst c
          cases hb
          exact ⟨hdata, hid⟩
        · cases hb
  · rintro c b (hb | hb)
    · exact .inl hb
    · right
      rw [ChunkStore.readChunk_writeChunk, hb, some_or]

lemma stored_self_writeChunk (hinj : Set.InjOn deriveChunkId S) (hdata : data ∈ S) :
    Stored (chunks.writeChunk (deriveChunkId data) data).1 inlined (deriveChunkId data) data := by
  right
  rw [ChunkStore.readChunk_writeChunk, if_pos rfl]
  cases hread : chunks.readChunk (deriveChunkId data) with
  | none => rfl
  | some b => rw [h.eq_of_stored hinj hdata (.inr hread), some_or]

lemma stored_writeStaged (hinj : Set.InjOn deriveChunkId S) (staged : List (ChunkId × Bytes))
    (hstaged : ∀ chunk ∈ staged, chunk.2 ∈ S ∧ deriveChunkId chunk.2 = chunk.1) :
    Addressed deriveChunkId S (writeStaged chunks staged) inlined ∧
      (∀ c b, Stored chunks inlined c b → Stored (writeStaged chunks staged) inlined c b) ∧
      ∀ chunk ∈ staged, Stored (writeStaged chunks staged) inlined chunk.1 chunk.2 := by
  induction staged generalizing chunks with
  | nil => exact ⟨h, fun _ _ hb => hb, fun _ hc => (nomatch hc)⟩
  | cons chunk staged ih =>
    obtain ⟨id, data⟩ := chunk
    obtain ⟨⟨hdata, hid⟩, hrest⟩ := forall_mem_cons.1 hstaged
    dsimp only at hdata hid
    obtain ⟨hnext, hmono⟩ := stored_writeChunk h hdata hid
    obtain ⟨haddr, hkept, hall⟩ := ih hnext hrest
    refine ⟨haddr, fun c b hb => hkept c b (hmono c b hb), forall_mem_cons.2 ⟨?_, hall⟩⟩
    subst hid
    exact hkept _ _ (stored_self_writeChunk h hinj hdata)

end

end

section
variable {deriveChunkId : Bytes → ChunkId} {gw gw' : InMemoryGateway} {req : WriteRequest}
  {draw : Draw} {st st' : CompositionStore} {id : CompositionId}

lemma prepareWrite_ok {p : Prepared} (h : prepareWrite deriveChunkId gw req draw = .ok p) :
    chainOnBase gw.compositions req (p.landed.map ChunkLanded.id) =
        .ok (p.chunkRefs, p.response.bytesWritten) ∧
      createRow gw.compositions req draw p.chunkRefs p.response.bytesWritten =
        .ok (p.gateway.compositions, p.response.compositionId) ∧
      landPieces deriveChunkId gw req.data draw.inlineTier =
        ⟨p.gateway.chunks, p.gateway.inlined, p.landed, p.staged⟩ := by
  simp only [prepareWrite] at h
  split at h
  · cases h
  · split at h
    · cases h
    · rename_i chunkIds size hchain
      split at h
      · cases h
      · rename_i row id hrow
        cases h
        exact ⟨hchain, hrow, rfl⟩

lemma write_ok (h : write deriveChunkId gw req draw = .ok (gw', resp)) :
    ∃ chunkIds size,
      chainOnBase gw.compositions req ((landPieces deriveChunkId gw req.data
        draw.inlineTier).landed.map ChunkLanded.id) = .ok (chunkIds, size) ∧
      createRow gw.compositions req draw chunkIds size =
        .ok (gw'.compositions, resp.compositionId) ∧
      gw'.chunks = writeStaged (landPieces deriveChunkId gw req.data draw.inlineTier).chunks
        (landPieces deriveChunkId gw req.data draw.inlineTier).staged ∧
      gw'.inlined = (landPieces deriveChunkId gw req.data draw.inlineTier).inlined := by
  rw [write] at h
  cases hprepare : prepareWrite deriveChunkId gw req draw with
  | error e =>
    rw [hprepare] at h
    cases h
  | ok p =>
    rw [hprepare] at h
    cases h
    obtain ⟨hchain, hrow, hlanding⟩ := prepareWrite_ok hprepare
    rw [hlanding]
    exact ⟨p.chunkRefs, p.response.bytesWritten, hchain, hrow, rfl, rfl⟩

lemma mem_chainOnBase (h : chainOnBase st req newChunkIds = .ok (chunkIds, size)) :
    ∀ chunk ∈ newChunkIds, chunk ∈ chunkIds := by
  simp only [chainOnBase] at h
  split at h
  · split at h
    · cases h
      exact fun chunk hchunk => mem_append_right _ hchunk
    · cases h
  · cases h
    exact fun chunk hchunk => hchunk

lemma map_pair_ok {ε α β : Type} {x : Except ε α} {b b' : β} {a : α}
    (h : x.map (·, b) = .ok (a, b')) : x = .ok a ∧ b' = b := by
  cases x with
  | error e => cases h
  | ok a' =>
    cases h
    exact ⟨rfl, rfl⟩

lemma createRow_id (h : createRow st req draw chunkIds size = .ok (st', id)) :
    id = req.compIdOverride.getD draw.id := by
  simp only [createRow] at h
  split at h
  · rename_i hoverride
    rw [hoverride, (map_pair_ok h).2, getD_some]
  · rename_i hoverride _
    rw [hoverride, getD_none]
    split at h
    · exact (map_pair_ok h).2
    · exact (map_pair_ok h).2
  · rename_i hoverride _
    rw [hoverride, getD_none]
    split at h
    · exact (map_pair_ok h).2
    · exact (map_pair_ok h).2

lemma createRow_addsRow (h : createRow st req draw chunkIds size = .ok (st', id))
    (hfresh : st.find id = none) :
    ∃ ns, st.namespace? req.namespaceId = some ns ∧
      st.AddsRow st' (.new ns id chunkIds [] size) := by
  obtain ⟨hpending, hstorage⟩ := find_eq_none.1 hfresh
  simp only [createRow] at h
  split at h
  · obtain ⟨hcreate, rfl⟩ := map_pair_ok h
    obtain ⟨ns, hns, rfl⟩ := createAt_ok hstorage hcreate
    exact ⟨ns, hns, .ofStorage hpending rfl rfl⟩
  · split at h
    · obtain ⟨hcreate, rfl⟩ := map_pair_ok h
      obtain ⟨ns, hns, rfl | rfl⟩ := createWithNameVolatile_ok hcreate
      · exact ⟨ns, writable_ok hns, .ofStorage hpending rfl (compositions_putWithName _)⟩
      · exact ⟨ns, writable_ok hns, .ofPending hstorage rfl rfl⟩
    · obtain ⟨hcreate, rfl⟩ := map_pair_ok h
      obtain ⟨ns, hns, rfl⟩ := createWithName_ok hcreate
      exact ⟨ns, writable_ok hns, .ofStorage hpending rfl (compositions_putWithName _)⟩
  · split at h
    · obtain ⟨hcreate, rfl⟩ := map_pair_ok h
      obtain ⟨ns, hns, rfl | rfl⟩ := createVolatile_ok hcreate
      · exact ⟨ns, writable_ok hns, .ofStorage hpending rfl rfl⟩
      · exact ⟨ns, writable_ok hns, .ofPending hstorage rfl rfl⟩
    · obtain ⟨hcreate, rfl⟩ := map_pair_ok h
      obtain ⟨ns, hns, rfl⟩ := createWithLens_ok hcreate
      exact ⟨ns, writable_ok hns, .ofStorage hpending rfl rfl⟩

lemma completeMultipart_addsRow {upload : MultipartUpload}
    (hlookup : gw.compositions.multiparts.lookup uploadId = some (upload, nsId))
    (hfresh : gw.compositions.find id = none)
    (h : completeMultipart gw uploadId name id = .ok gw') :
    gw'.chunks = gw.chunks ∧ gw'.inlined = gw.inlined ∧
      ∃ ns, gw.compositions.namespace? nsId = some ns ∧
        gw.compositions.AddsRow gw'.compositions
          (.new ns id (upload.parts.map MultipartPart.chunkId)
            (upload.parts.map fun part => min part.size u32Max)
            upload.totalSize) := by
  obtain ⟨hpending, _⟩ := find_eq_none.1 hfresh
  simp only [completeMultipart] at h
  cases hfinal : gw.compositions.finalizeMultipart uploadId id with
  | error e =>
    rw [hfinal] at h
    cases h
  | ok st =>
    rw [hfinal] at h
    simp only [finalizeMultipart, hlookup] at hfinal
    split at hfinal
    · obtain ⟨ns, hns, rfl⟩ := createWithLens_ok hfinal
      have hns' := writable_ok hns
      dsimp only at h
      split at h
      · cases h
      · cases h
        exact ⟨rfl, rfl, ns, hns', .ofStorage hpending rfl rfl⟩
      · cases h
        exact ⟨rfl, rfl, ns, hns', .ofStorage hpending rfl compositions_bind⟩
    · cases hfinal

end

end Kiseki.Gateway
