import Kiseki.Gateway.Write

namespace Kiseki.Gateway
open Compositions Segments List Nat CompositionStore

structure ReadResponse where
  data : Bytes
  eof : Bool
deriving DecidableEq, Repr

def InMemoryGateway.fetch (gw : InMemoryGateway) (id : ChunkId) : Option Bytes :=
  (gw.inlined.lookup id).or (gw.chunks.readChunk id)

def copyChunkRangeInto (plaintext : Bytes) (chunkStart start stop : Nat) : Bytes :=
  let chunkEnd := chunkStart + plaintext.length
  let byteLo := start - chunkStart
  let byteHi := min (min stop chunkEnd - chunkStart) plaintext.length
  if byteLo < byteHi then plaintext.extract byteLo byteHi else []

/-- Regular layout: chunk `i` is held to start at `i` times the chunk size. -/
def gridChunks (start stop : Nat) (chunks : List β) : List (β × Nat) :=
  let firstChunk := start / maxPlaintextPerChunk
  let lastChunk := min ((stop - 1) / maxPlaintextPerChunk) (chunks.length - 1)
  ((onGrid maxPlaintextPerChunk 0 chunks).drop firstChunk).take (lastChunk - firstChunk + 1)

/-- Every chunk is walked and those that meet the range are kept. -/
def walkChunks (start stop : Nat) : Nat → List β → List Nat → List (β × Nat)
  | _, [], _ => []
  | pos, chunk :: chunks, lens =>
    let chunkEnd := pos + lens.headD 0
    let rest := walkChunks start stop chunkEnd chunks lens.tail
    if start < chunkEnd ∧ pos < stop then (chunk, pos) :: rest else rest

def chunksToRead (chunkPlaintextLens : List Nat) (chunks : List β) (start stop : Nat) :
    List (β × Nat) :=
  if chunkPlaintextLens = [] then gridChunks start stop chunks
  else walkChunks start stop 0 chunks chunkPlaintextLens

namespace InMemoryGateway

def readChunks (gw : InMemoryGateway) (start stop : Nat) :
    List (ChunkId × Nat) → Except GatewayError Bytes
  | [] => .ok []
  | (id, pos) :: rest =>
    match gw.fetch id with
    | none => .error (.chunkLost id)
    | some plaintext =>
      (gw.readChunks start stop rest).map (copyChunkRangeInto plaintext pos start stop ++ ·)

def readRange (gw : InMemoryGateway) (comp : Composition) (offset length : Nat) :
    Except GatewayError ReadResponse :=
  if comp.size ≤ offset then .ok ⟨[], true⟩
  else
    let stop := min (offset + length) comp.size
    let eof := decide (comp.size ≤ stop)
    if offset = stop then .ok ⟨[], eof⟩
    else
      (gw.readChunks offset stop
        (chunksToRead comp.chunkPlaintextLens comp.chunks offset stop)).map (⟨·, eof⟩)

def read (gw : InMemoryGateway) (tenantId : OrgId) (id : CompositionId) (offset length : Nat) :
    Except GatewayError ReadResponse :=
  match gw.compositions.get id with
  | .error e => .error (.upstream e)
  | .ok comp =>
    if comp.tenantId = tenantId then gw.readRange comp offset length
    else .error .authenticationFailed

end InMemoryGateway

lemma maxPlaintextPerChunk_pos : 0 < maxPlaintextPerChunk := by decide

lemma copyChunkRangeInto_eq (plaintext : Bytes) (chunkStart start stop : Nat) :
    copyChunkRangeInto plaintext chunkStart start stop =
      plaintext.extract (start - chunkStart) (stop - chunkStart) := by
  simp only [copyChunkRangeInto, extract_eq_take_drop]
  split
  · apply take_eq_take_iff.2
    rw [length_drop]
    omega
  · symm
    rw [take_eq_nil_iff, drop_eq_nil_iff]
    omega

variable {f : β → γ} {start stop : Nat} {chunks : List β}

lemma gridChunks_map :
    gridChunks start stop (chunks.map f) =
      (gridChunks start stop chunks).map fun chunk => (f chunk.1, chunk.2) := by
  simp only [gridChunks, onGrid_map, length_map, map_drop, map_take]

lemma walkChunks_map (start stop pos : Nat) (lens : List Nat) :
    walkChunks start stop pos (chunks.map f) lens =
      (walkChunks start stop pos chunks lens).map fun chunk => (f chunk.1, chunk.2) := by
  induction chunks generalizing pos lens with
  | nil => rfl
  | cons chunk chunks ih =>
    simp only [map_cons, walkChunks, ih]
    split <;> rfl

lemma mem_gridChunks {chunk : β × Nat} (h : chunk ∈ gridChunks start stop chunks) :
    chunk.1 ∈ chunks := by
  have hmem := mem_of_mem_drop (mem_of_mem_take h)
  obtain ⟨⟨x, i⟩, hx, rfl⟩ := mem_map.1 hmem
  rw [(mem_zipIdx hx).2.2]
  exact getElem_mem _

lemma mem_walkChunks {chunk : β × Nat} (h : chunk ∈ walkChunks start stop pos chunks lens) :
    chunk.1 ∈ chunks := by
  induction chunks generalizing pos lens with
  | nil => cases h
  | cons c chunks ih =>
    simp only [walkChunks] at h
    split at h
    · rcases mem_cons.1 h with rfl | h
      · exact mem_cons_self
      · exact mem_cons_of_mem _ (ih h)
    · exact mem_cons_of_mem _ (ih h)

def recordedLens (parts : List Bytes) : List Nat :=
  parts.map fun part => min part.length CompositionStore.u32Max

lemma window_walkChunks (parts : List Bytes) (start stop pos : Nat)
    (h : ∀ part ∈ parts, part.length < 2 ^ 32) :
    window start stop (walkChunks start stop pos parts (recordedLens parts)) =
      parts.flatten.extract (start - pos) (stop - pos) := by
  rw [← window_placed]
  induction parts generalizing pos with
  | nil => rfl
  | cons part parts ih =>
    obtain ⟨hpart, hparts⟩ := forall_mem_cons.1 h
    have hlen : min part.length u32Max = part.length :=
      min_eq_left (le_of_lt_succ hpart)
    have hrest := ih (pos + part.length) hparts
    simp only [recordedLens, map_cons, walkChunks, headD_cons, tail_cons, hlen]
    simp only [recordedLens] at hrest
    rw [placed, window_cons]
    split
    · rw [window_cons, hrest]
    · rw [hrest, extract_outside part (by omega), nil_append]

lemma sum_walkChunks_le (start stop pos : Nat) (parts : List Bytes) (lens : List Nat) :
    ((walkChunks start stop pos parts lens).map fun seg => seg.1.length).sum ≤
      parts.flatten.length := by
  induction parts generalizing pos lens with
  | nil => exact le_refl 0
  | cons part parts ih =>
    have hrest := ih (pos + lens.headD 0) lens.tail
    simp only [walkChunks, flatten_cons, length_append]
    split
    · rw [map_cons, sum_cons]
      exact Nat.add_le_add_left hrest _
    · exact le_trans hrest (le_add_left _ _)

lemma window_walkChunks_short (parts : List Bytes) (pos : Nat)
    (h : ∃ part ∈ parts, 2 ^ 32 ≤ part.length) :
    ∃ start, pos ≤ start ∧ start < pos + parts.flatten.length ∧
      (window start (pos + parts.flatten.length) (walkChunks start (pos + parts.flatten.length)
        pos parts (recordedLens parts))).length < pos + parts.flatten.length - start := by
  induction parts generalizing pos with
  | nil =>
    obtain ⟨_, hmem, _⟩ := h
    cases hmem
  | cons part parts ih =>
    rw [flatten_cons, length_append]
    simp only [recordedLens, map_cons, walkChunks, headD_cons, tail_cons]
    by_cases hpart : 2 ^ 32 ≤ part.length
    · refine ⟨pos + u32Max, by omega, ?_, ?_⟩
      · simp only [u32Max]
        omega
      · have hcap : min part.length u32Max = u32Max :=
          min_eq_right (le_trans (sub_le _ 1) hpart)
        rw [hcap, if_neg fun hmeets => lt_irrefl _ hmeets.1]
        apply lt_of_le_of_lt (le_trans (length_window_le _ _ _) (sum_walkChunks_le _ _ _ _ _))
        simp only [u32Max]
        omega
    · have hlen : min part.length u32Max = part.length :=
        min_eq_left (by simp only [u32Max]; omega)
      obtain ⟨part', hmem, hlarge⟩ := h
      rcases mem_cons.1 hmem with rfl | hmem
      · exact absurd hlarge hpart
      · obtain ⟨start, hge, hlt, hshort⟩ := ih (pos + part.length) ⟨part', hmem, hlarge⟩
        rw [add_assoc] at hlt hshort
        refine ⟨start, le_trans (le_add_right _ _) hge, hlt, ?_⟩
        rw [hlen, if_neg fun hmeets => not_lt.2 hge hmeets.1]
        exact hshort

lemma chunksToRead_map (lens : List Nat) :
    chunksToRead lens (chunks.map f) start stop =
      (chunksToRead lens chunks start stop).map fun chunk => (f chunk.1, chunk.2) := by
  simp only [chunksToRead]
  split
  · exact gridChunks_map
  · exact walkChunks_map start stop 0 lens

lemma mem_chunksToRead {chunk : β × Nat} (h : chunk ∈ chunksToRead lens chunks start stop) :
    chunk.1 ∈ chunks := by
  simp only [chunksToRead] at h
  split at h
  · exact mem_gridChunks h
  · exact mem_walkChunks h

structure Holds (deriveChunkId : Bytes → ChunkId) (gw : InMemoryGateway) (comp : Composition)
    (pieces : List Bytes) : Prop where
  chunks : comp.chunks = pieces.map deriveChunkId
  size : comp.size = pieces.flatten.length
  fetch : ∀ piece ∈ pieces, gw.fetch (deriveChunkId piece) = some piece

section
variable {deriveChunkId : Bytes → ChunkId} {gw : InMemoryGateway} {comp : Composition}
  {pieces : List Bytes}

lemma readChunks_map (segs : List (Bytes × Nat))
    (h : ∀ seg ∈ segs, gw.fetch (deriveChunkId seg.1) = some seg.1) :
    gw.readChunks start stop (segs.map fun seg => (deriveChunkId seg.1, seg.2)) =
      .ok (window start stop segs) := by
  induction segs with
  | nil => rfl
  | cons seg segs ih =>
    obtain ⟨hseg, hsegs⟩ := forall_mem_cons.1 h
    rw [map_cons, InMemoryGateway.readChunks, ih hsegs, hseg, window_cons, ← copyChunkRangeInto_eq]
    rfl

lemma Holds.readChunks (h : Holds deriveChunkId gw comp pieces) (start stop : Nat) :
    gw.readChunks start stop (chunksToRead comp.chunkPlaintextLens comp.chunks start stop) =
      .ok (window start stop (chunksToRead comp.chunkPlaintextLens pieces start stop)) := by
  rw [h.chunks, chunksToRead_map]
  exact readChunks_map _ fun seg hseg => h.fetch seg.1 (mem_chunksToRead hseg)

lemma Holds.readRange_iff (h : Holds deriveChunkId gw comp pieces) :
    (∀ offset length, gw.readRange comp offset length =
      .ok ⟨pieces.flatten.extract offset (offset + length),
        decide (pieces.flatten.length ≤ offset + length)⟩) ↔
    ∀ start stop, start < stop → stop ≤ pieces.flatten.length →
      window start stop (chunksToRead comp.chunkPlaintextLens pieces start stop) =
        pieces.flatten.extract start stop := by
  simp only [InMemoryGateway.readRange, h.size, h.readChunks]
  constructor
  · intro hreads start stop hlt hle
    have hread := hreads start (stop - start)
    rw [Nat.add_sub_cancel' (Nat.le_of_lt hlt), Nat.min_eq_left hle,
      if_neg (Nat.not_le.2 (Nat.lt_of_lt_of_le hlt hle)), if_neg (Nat.ne_of_lt hlt)] at hread
    exact congrArg ReadResponse.data (Except.ok.inj hread)
  · intro hwindows offset length
    split
    · rename_i hbeyond
      rw [extract_eq_take_drop, drop_eq_nil_of_le hbeyond, take_nil,
        decide_eq_true (le_trans hbeyond (le_add_right _ _))]
    · rename_i hinside
      have heof : decide (pieces.flatten.length ≤ min (offset + length) pieces.flatten.length) =
          decide (pieces.flatten.length ≤ offset + length) := by
        rw [decide_eq_decide]
        omega
      rw [heof, ← extract_min_length]
      split
      · rename_i hempty
        rw [← hempty, extract_eq_take_drop, Nat.sub_self, take_zero]
      · have hlt : offset < min (offset + length) pieces.flatten.length := by omega
        rw [hwindows offset _ hlt (min_le_right _ _)]
        rfl

end

/-- A chain of writes, or the parts of an upload. -/
inductive Object where
  | chain (writes : List Bytes)
  | multipart (parts : List Bytes)

namespace Object

def content : Object → Bytes
  | chain writes => writes.flatten
  | multipart parts => parts.flatten

def pieces : Object → List Bytes
  | chain writes => writes.flatMap rawPieces
  | multipart parts => parts

def lens : Object → List Nat
  | chain _ => []
  | multipart parts => recordedLens parts

/-- Writes end at the end of a chunk; parts fit a `u32`. -/
def Regular : Object → Prop
  | chain writes => writes.Pairwise fun data later =>
      later ≠ [] → data ≠ [] ∧ maxPlaintextPerChunk ∣ data.length
  | multipart parts => ∀ part ∈ parts, part.length < 2 ^ 32

end Object

lemma flatten_rawPieces (data : Bytes) : (rawPieces data).flatten = data := by
  rw [rawPieces]
  split
  · subst data
    rfl
  · exact flatten_pieces maxPlaintextPerChunk_pos data

lemma length_le_of_mem_rawPieces (h : piece ∈ rawPieces data) :
    piece.length ≤ maxPlaintextPerChunk := by
  rw [rawPieces] at h
  split at h
  · rw [mem_singleton.1 h]
    exact zero_le _
  · exact length_le_of_mem_pieces h

lemma filled_rawPieces (data : Bytes) : Filled maxPlaintextPerChunk (rawPieces data) := by
  rw [rawPieces]
  split
  · exact pairwise_singleton _ _
  · exact filled_pieces maxPlaintextPerChunk_pos

lemma full_rawPieces_iff (data : Bytes) :
    (∀ piece ∈ rawPieces data, piece.length = maxPlaintextPerChunk) ↔
      data ≠ [] ∧ maxPlaintextPerChunk ∣ data.length := by
  rw [rawPieces]
  split
  · rename_i hempty
    refine ⟨fun h => ?_, fun h => absurd hempty h.1⟩
    exact absurd (h [] mem_cons_self) (by decide)
  · rename_i hdata
    rw [full_pieces_iff maxPlaintextPerChunk_pos]
    exact (and_iff_right hdata).symm

lemma exists_mem_rawPieces_iff (data : Bytes) :
    (∃ piece ∈ rawPieces data, piece ≠ []) ↔ data ≠ [] := by
  rw [rawPieces]
  split
  · rename_i hempty
    refine ⟨?_, fun h => absurd hempty h⟩
    rintro ⟨piece, hmem, hne⟩
    exact absurd (mem_singleton.1 hmem) hne
  · rename_i hdata
    refine ⟨fun _ => hdata, fun _ => ?_⟩
    obtain ⟨piece, hpiece⟩ := exists_mem_of_ne_nil _ (pieces_ne_nil maxPlaintextPerChunk_pos hdata)
    exact ⟨piece, hpiece, ne_nil_of_mem_pieces maxPlaintextPerChunk_pos hpiece⟩

lemma Object.flatten_pieces (obj : Object) : obj.pieces.flatten = obj.content := by
  cases obj with
  | multipart parts => rfl
  | chain writes =>
    induction writes with
    | nil => rfl
    | cons data writes ih =>
      rw [pieces, flatMap_cons, flatten_append, flatten_rawPieces]
      exact congrArg (data ++ ·) ih

lemma filled_flatMap_rawPieces_iff (writes : List Bytes) :
    Filled maxPlaintextPerChunk (writes.flatMap rawPieces) ↔ (Object.chain writes).Regular := by
  rw [Filled, pairwise_flatMap]
  refine (and_iff_right fun data _ => filled_rawPieces data).trans ?_
  apply List.Pairwise.iff
  intro data later
  rw [← full_rawPieces_iff, ← exists_mem_rawPieces_iff later]
  constructor
  · rintro h ⟨piece, hpiece, hne⟩ seg hseg
    exact h seg hseg piece hpiece hne
  · intro h seg hseg piece hpiece hne
    exact h ⟨piece, hpiece, hne⟩ seg hseg

lemma gridChunks_windows_iff {segs : List Bytes}
    (hlen : ∀ seg ∈ segs, seg.length ≤ maxPlaintextPerChunk) :
    (∀ start stop, start < stop → stop ≤ segs.flatten.length →
      window start stop (gridChunks start stop segs) = segs.flatten.extract start stop) ↔
        Filled maxPlaintextPerChunk segs := by
  constructor
  · intro hwindows
    rw [← window_onGrid_all_iff hlen]
    rcases segs.flatten.length.eq_zero_or_pos with hzero | hpos
    · rw [length_eq_zero_iff.1 hzero]
      exact window_onGrid_of_empty (flatten_eq_nil_iff.1 (length_eq_zero_iff.1 hzero))
    · rw [← window_grid_cells maxPlaintextPerChunk_pos hlen hpos]
      refine (hwindows 0 _ hpos (le_refl _)).trans ?_
      rw [extract_eq_take_drop, drop_zero, Nat.sub_zero, take_length]
  · intro hfilled start stop hlt _
    refine (window_grid_cells maxPlaintextPerChunk_pos hlen hlt).trans ?_
    rw [window_onGrid hfilled, Nat.zero_mul, Nat.sub_zero, Nat.sub_zero]

lemma walkChunks_windows_iff (parts : List Bytes) :
    (∀ start stop, start < stop → stop ≤ parts.flatten.length →
      window start stop (walkChunks start stop 0 parts (recordedLens parts)) =
        parts.flatten.extract start stop) ↔ ∀ part ∈ parts, part.length < 2 ^ 32 := by
  constructor
  · intro hwindows
    by_contra hlarge
    obtain ⟨start, _, hlt, hshort⟩ := window_walkChunks_short parts 0
      (by simpa only [not_forall, not_lt, exists_prop] using hlarge)
    rw [zero_add] at hlt hshort
    rw [hwindows start _ hlt (le_refl _), extract_eq_take_drop, length_take, length_drop] at hshort
    omega
  · intro hparts start stop _ _
    exact window_walkChunks parts start stop 0 hparts

lemma Object.windows_iff (obj : Object) :
    (∀ start stop, start < stop → stop ≤ obj.pieces.flatten.length →
      window start stop (chunksToRead obj.lens obj.pieces start stop) =
        obj.pieces.flatten.extract start stop) ↔ obj.Regular := by
  cases obj with
  | chain writes =>
    rw [← filled_flatMap_rawPieces_iff]
    apply gridChunks_windows_iff
    intro seg hseg
    obtain ⟨data, _, hseg⟩ := mem_flatMap.1 hseg
    exact length_le_of_mem_rawPieces hseg
  | multipart parts =>
    cases parts with
    | nil => exact ⟨fun _ _ h => (nomatch h), fun _ _ _ hlt hle => absurd hle (not_le.2
        (lt_of_le_of_lt (zero_le _) hlt))⟩
    | cons part parts => exact walkChunks_windows_iff (part :: parts)

/-- Whatever else happens, what is stored stays and is stored under its own id. -/
@[mk_iff] structure InMemoryGateway.Keeps (deriveChunkId : Bytes → ChunkId) (S : Set Bytes)
    (gw gw' : InMemoryGateway) : Prop where
  stored : ∀ id data, Stored gw.chunks gw.inlined id data → Stored gw'.chunks gw'.inlined id data
  addressed : Addressed deriveChunkId S gw'.chunks gw'.inlined

inductive Uploading (deriveChunkId : Bytes → ChunkId) (S : Set Bytes) (uploadId : String) :
    InMemoryGateway → List Bytes → Prop where
  | start (haddressed : Addressed deriveChunkId S gw.chunks gw.inlined)
      (h : startMultipart gw uploadId nsId = .ok gw') : Uploading deriveChunkId S uploadId gw' []
  | part (hup : Uploading deriveChunkId S uploadId gw parts) (hdata : data ∈ S)
      (h : uploadPart deriveChunkId gw uploadId partNumber data = .ok gw') :
      Uploading deriveChunkId S uploadId gw' (parts ++ [data])
  | keep (hup : Uploading deriveChunkId S uploadId gw parts) (hkeeps : gw.Keeps deriveChunkId S gw')
      (hupload : gw'.compositions.multiparts.lookup uploadId =
        gw.compositions.multiparts.lookup uploadId) :
      Uploading deriveChunkId S uploadId gw' parts

inductive Built (deriveChunkId : Bytes → ChunkId) (S : Set Bytes) :
    InMemoryGateway → CompositionId → Object → Prop where
  | write (haddressed : Addressed deriveChunkId S gw.chunks gw.inlined)
      (hdata : ∀ piece ∈ rawPieces req.data, piece ∈ S) (hbase : req.baseCompositionId = none)
      (hoverride : req.compIdOverride = none) (hfresh : gw.compositions.find draw.id = none)
      (h : write deriveChunkId gw req draw = .ok (gw', resp)) :
      Built deriveChunkId S gw' resp.compositionId (.chain [req.data])
  | chain (hbuilt : Built deriveChunkId S gw baseId (.chain writes))
      (hdata : ∀ piece ∈ rawPieces req.data, piece ∈ S)
      (hbase : req.baseCompositionId = some baseId)
      (hbytes : ∀ base, gw.compositions.find baseId = some base → req.baseBytes = base.size)
      (hoverride : req.compIdOverride = none) (hfresh : gw.compositions.find draw.id = none)
      (h : write deriveChunkId gw req draw = .ok (gw', resp)) :
      Built deriveChunkId S gw' resp.compositionId (.chain (writes ++ [req.data]))
  | multipart {id : CompositionId} (hup : Uploading deriveChunkId S uploadId gw parts)
      (hfresh : gw.compositions.find id = none)
      (h : completeMultipart gw uploadId name id = .ok gw') :
      Built deriveChunkId S gw' id (.multipart parts)
  | keep {id : CompositionId} (hbuilt : Built deriveChunkId S gw id obj)
      (hkeeps : gw.Keeps deriveChunkId S gw')
      (hrow : gw'.compositions.find id = gw.compositions.find id) :
      Built deriveChunkId S gw' id obj

structure Layout (deriveChunkId : Bytes → ChunkId) (S : Set Bytes) (gw : InMemoryGateway)
    (comp : Composition) (obj : Object) : Prop where
  addressed : Addressed deriveChunkId S gw.chunks gw.inlined
  chunks : comp.chunks = obj.pieces.map deriveChunkId
  lens : comp.chunkPlaintextLens = obj.lens
  size : comp.size = obj.content.length
  mem : ∀ piece ∈ obj.pieces, piece ∈ S
  stored : ∀ piece ∈ obj.pieces, Stored gw.chunks gw.inlined (deriveChunkId piece) piece

section
variable {deriveChunkId : Bytes → ChunkId} {S : Set Bytes} {gw gw' : InMemoryGateway}
  {obj : Object} {comp : Composition}

lemma Layout.holds (h : Layout deriveChunkId S gw comp obj) (hinj : Set.InjOn deriveChunkId S) :
    Holds deriveChunkId gw comp obj.pieces := by
  refine ⟨h.chunks, ?_, ?_⟩
  · rw [h.size, obj.flatten_pieces]
  · intro piece hpiece
    have hstored := h.stored piece hpiece
    rw [InMemoryGateway.fetch]
    cases hinline : gw.inlined.lookup (deriveChunkId piece) with
    | some data =>
      rw [h.addressed.eq_of_stored hinj (h.mem piece hpiece) (.inl hinline), Option.some_or]
    | none =>
      rcases hstored with hstored | hstored
      · rw [hinline] at hstored
        cases hstored
      · rw [Option.none_or, hstored]

lemma Layout.keep (h : Layout deriveChunkId S gw comp obj)
    (hkeeps : gw.Keeps deriveChunkId S gw') : Layout deriveChunkId S gw' comp obj :=
  { h with
    addressed := hkeeps.addressed
    stored := fun piece hpiece => hkeeps.stored _ _ (h.stored piece hpiece) }

lemma write_stores (hinj : Set.InjOn deriveChunkId S)
    (haddressed : Addressed deriveChunkId S gw.chunks gw.inlined)
    (hdata : ∀ piece ∈ rawPieces req.data, piece ∈ S)
    (h : write deriveChunkId gw req draw = .ok (gw', resp)) :
    gw.Keeps deriveChunkId S gw' ∧ ∀ piece ∈ rawPieces req.data,
      Stored gw'.chunks gw'.inlined (deriveChunkId piece) piece := by
  obtain ⟨_, _, _, _, hchunks, hinlined⟩ := write_ok h
  have hsound := landPieces_sound haddressed hinj hdata draw.inlineTier
  obtain ⟨haddr, hkept, hstaged⟩ :=
    stored_writeStaged hsound.addressed hinj _ hsound.staged
  rw [InMemoryGateway.keeps_iff, hchunks, hinlined]
  refine ⟨⟨fun id data hstored => hkept id data (hsound.kept id data hstored), haddr⟩, ?_⟩
  intro piece hpiece
  rcases hsound.present piece hpiece with hstored | hmem
  · exact hkept _ _ hstored
  · exact hstaged _ hmem

lemma landed_ids (hinj : Set.InjOn deriveChunkId S)
    (haddressed : Addressed deriveChunkId S gw.chunks gw.inlined)
    (hdata : ∀ piece ∈ rawPieces data, piece ∈ S) (inlineTier : Bool) :
    (landPieces deriveChunkId gw data inlineTier).landed.map ChunkLanded.id =
      (rawPieces data).map deriveChunkId :=
  (landPieces_sound haddressed hinj hdata inlineTier).ids

structure UploadLayout (deriveChunkId : Bytes → ChunkId) (S : Set Bytes) (gw : InMemoryGateway)
    (upload : MultipartUpload) (parts : List Bytes) : Prop where
  addressed : Addressed deriveChunkId S gw.chunks gw.inlined
  ids : upload.parts.map MultipartPart.chunkId = parts.map deriveChunkId
  sizes : upload.parts.map MultipartPart.size = parts.map List.length
  mem : ∀ part ∈ parts, part ∈ S
  stored : ∀ part ∈ parts, Stored gw.chunks gw.inlined (deriveChunkId part) part

lemma UploadLayout.uploadPart {upload : MultipartUpload}
    (h : UploadLayout deriveChunkId S gw upload parts) (hinj : Set.InjOn deriveChunkId S)
    (hdata : data ∈ S)
    (hlookup : gw.compositions.multiparts.lookup uploadId = some (upload, nsId))
    (hok : Gateway.uploadPart deriveChunkId gw uploadId partNumber data = .ok gw') :
    ∃ upload', gw'.compositions.multiparts.lookup uploadId = some (upload', nsId) ∧
      UploadLayout deriveChunkId S gw' upload' (parts ++ [data]) := by
  obtain ⟨haddr, hkept⟩ := stored_writeChunk h.addressed hdata rfl
  have hself := stored_self_writeChunk h.addressed hinj hdata
  simp only [Gateway.uploadPart, CompositionStore.uploadPart, hlookup] at hok
  cases hadd : upload.addPart ⟨partNumber, deriveChunkId data, data.length,
    (gw.chunks.writeChunk (deriveChunkId data) data).2⟩ with
  | none =>
    rw [hadd] at hok
    cases hok
  | some upload' =>
    rw [hadd] at hok
    cases hok
    have hread : ∀ c, ChunkStore.readChunk (if (gw.chunks.writeChunk (deriveChunkId data) data).2
        then (gw.chunks.writeChunk (deriveChunkId data) data).1
        else (gw.chunks.writeChunk (deriveChunkId data) data).1.incrementRefcount
          (deriveChunkId data)) c =
        (gw.chunks.writeChunk (deriveChunkId data) data).1.readChunk c := by
      intro c
      split
      · rfl
      · exact ChunkStore.readChunk_incrementRefcount
    have hparts : upload'.parts = upload.parts ++ [⟨partNumber, deriveChunkId data, data.length,
        (gw.chunks.writeChunk (deriveChunkId data) data).2⟩] := by
      rw [MultipartUpload.addPart] at hadd
      split at hadd
      · cases hadd
        rfl
      · cases hadd
    refine ⟨upload', Finmap.lookup_insert _, ?_, ?_, ?_, ?_, ?_⟩
    · intro id b hb
      rw [Stored, hread] at hb
      exact haddr id b hb
    · rw [hparts, map_append, h.ids, map_append]
      rfl
    · rw [hparts, map_append, h.sizes, map_append]
      rfl
    · exact forall_mem_append.2 ⟨h.mem, forall_mem_singleton.2 hdata⟩
    · simp only [Stored, hread]
      exact forall_mem_append.2 ⟨fun part hold => hkept _ _ (h.stored part hold),
        forall_mem_singleton.2 hself⟩

lemma Uploading.layout (h : Uploading deriveChunkId S uploadId gw parts)
    (hinj : Set.InjOn deriveChunkId S) :
    ∃ upload nsId, gw.compositions.multiparts.lookup uploadId = some (upload, nsId) ∧
      UploadLayout deriveChunkId S gw upload parts := by
  induction h with
  | @start gw nsId gw' haddressed h =>
    simp only [startMultipart, CompositionStore.startMultipart] at h
    cases hns : gw.compositions.namespace? nsId with
    | none =>
      rw [hns] at h
      cases h
    | some ns =>
      rw [hns] at h
      cases h
      exact ⟨_, nsId, Finmap.lookup_insert _, haddressed, rfl, rfl, fun _ h => (nomatch h),
        fun _ h => (nomatch h)⟩
  | part _ hdata h ih =>
    obtain ⟨upload, nsId, hlookup, hlayout⟩ := ih
    obtain ⟨upload', hlookup', hlayout'⟩ := hlayout.uploadPart hinj hdata hlookup h
    exact ⟨upload', nsId, hlookup', hlayout'⟩
  | keep _ hkeeps hupload ih =>
    obtain ⟨upload, nsId, hlookup, hlayout⟩ := ih
    exact ⟨upload, nsId, hupload.trans hlookup, { hlayout with
      addressed := hkeeps.addressed
      stored := fun part hpart => hkeeps.stored _ _ (hlayout.stored part hpart) }⟩

lemma Layout.ofWrite (writes : List Bytes) (ns : Namespace) (id : CompositionId)
    (hinj : Set.InjOn deriveChunkId S)
    (haddressed : Addressed deriveChunkId S gw.chunks gw.inlined)
    (hbefore : ∀ piece ∈ writes.flatMap rawPieces, piece ∈ S ∧
      Stored gw.chunks gw.inlined (deriveChunkId piece) piece)
    (hdata : ∀ piece ∈ rawPieces req.data, piece ∈ S)
    (h : write deriveChunkId gw req draw = .ok (gw', resp)) :
    Layout deriveChunkId S gw' (.new ns id ((writes.flatMap rawPieces).map deriveChunkId ++
      (rawPieces req.data).map deriveChunkId) [] (writes.flatten.length + req.data.length))
      (.chain (writes ++ [req.data])) := by
  obtain ⟨hkeeps, hstored⟩ := write_stores hinj haddressed hdata h
  have hpieces : (Object.chain (writes ++ [req.data])).pieces =
      writes.flatMap rawPieces ++ rawPieces req.data := by
    rw [Object.pieces, flatMap_append, flatMap_singleton]
  refine ⟨hkeeps.addressed, ?_, rfl, ?_, ?_, ?_⟩
  · rw [hpieces, map_append]
    rfl
  · rw [Object.content, flatten_append, length_append, flatten_singleton]
    rfl
  · rw [hpieces, forall_mem_append]
    exact ⟨fun piece hpiece => (hbefore piece hpiece).1, hdata⟩
  · rw [hpieces, forall_mem_append]
    exact ⟨fun piece hpiece => hkeeps.stored _ _ (hbefore piece hpiece).2, hstored⟩

lemma write_layout (hinj : Set.InjOn deriveChunkId S)
    (haddressed : Addressed deriveChunkId S gw.chunks gw.inlined)
    (hdata : ∀ piece ∈ rawPieces req.data, piece ∈ S) (hbase : req.baseCompositionId = none)
    (hfresh : gw.compositions.find resp.compositionId = none)
    (h : write deriveChunkId gw req draw = .ok (gw', resp)) :
    ∃ comp ns, gw.compositions.namespace? req.namespaceId = some ns ∧
      comp.id = resp.compositionId ∧ comp.tenantId = ns.tenantId ∧
      gw.compositions.AddsRow gw'.compositions comp ∧
      Layout deriveChunkId S gw' comp (.chain [req.data]) := by
  obtain ⟨chunkIds, size, hchain, hcreate, _, _⟩ := write_ok h
  obtain ⟨ns, hns, hadds⟩ := createRow_addsRow hcreate hfresh
  refine ⟨_, ns, hns, rfl, rfl, hadds, ?_⟩
  rw [landed_ids hinj haddressed hdata, chainOnBase, hbase] at hchain
  cases hchain
  have hlayout := Layout.ofWrite [] ns resp.compositionId hinj haddressed
    (fun _ hmem => absurd hmem not_mem_nil) hdata h
  rw [flatten_nil, length_nil, zero_add] at hlayout
  exact hlayout

lemma Built.layout {id : CompositionId} (h : Built deriveChunkId S gw id obj)
    (hinj : Set.InjOn deriveChunkId S) :
    ∃ comp, gw.compositions.find id = some comp ∧ Layout deriveChunkId S gw comp obj := by
  induction h with
  | write haddressed hdata hbase hoverride hfresh h =>
    obtain ⟨_, _, _, hcreate, _, _⟩ := write_ok h
    have hid := createRow_id hcreate
    rw [hoverride, Option.getD_none] at hid
    obtain ⟨comp, _, _, hcomp, _, hadds, hlayout⟩ :=
      write_layout hinj haddressed hdata hbase (hid ▸ hfresh) h
    exact ⟨comp, hcomp ▸ hadds.2, hlayout⟩
  | chain _ hdata hbase hbytes hoverride hfresh h ih =>
    obtain ⟨base, hrow, hlayout⟩ := ih
    obtain ⟨chunkIds, size, hchain, hcreate, _, _⟩ := write_ok h
    have hid := createRow_id hcreate
    rw [hoverride, Option.getD_none] at hid
    obtain ⟨ns, _, hadds⟩ := createRow_addsRow hcreate (hid ▸ hfresh)
    refine ⟨_, hadds.2, ?_⟩
    rw [landed_ids hinj hlayout.addressed hdata, chainOnBase, hbase] at hchain
    simp only [get_eq_ok.2 hrow, hbytes base hrow] at hchain
    cases hchain
    rw [hlayout.chunks, hlayout.size]
    exact Layout.ofWrite _ ns _ hinj hlayout.addressed
      (fun piece hpiece => ⟨hlayout.mem piece hpiece, hlayout.stored piece hpiece⟩) hdata h
  | multipart hup hfresh h =>
    obtain ⟨upload, nsId, hlookup, hlayout⟩ := hup.layout hinj
    obtain ⟨hchunks, hinlined, ns, _, hadds⟩ := completeMultipart_addsRow hlookup hfresh h
    refine ⟨_, hadds.2, ?_, hlayout.ids, ?_, ?_, hlayout.mem, ?_⟩
    · rw [hchunks, hinlined]
      exact hlayout.addressed
    · have hlens := congrArg (map (min · u32Max)) hlayout.sizes
      rw [map_map, map_map] at hlens
      exact hlens
    · rw [Object.content, length_flatten, ← hlayout.sizes]
      rfl
    · rw [hchunks, hinlined]
      exact hlayout.stored
  | keep _ hkeeps hrow ih =>
    obtain ⟨comp, hfind, hlayout⟩ := ih
    exact ⟨comp, hrow.trans hfind, hlayout.keep hkeeps⟩

lemma Layout.read_iff {id : CompositionId} (h : Layout deriveChunkId S gw comp obj)
    (hinj : Set.InjOn deriveChunkId S) (hrow : gw.compositions.find id = some comp) :
    (∀ offset length, gw.read comp.tenantId id offset length =
      .ok ⟨obj.content.extract offset (offset + length),
        decide (obj.content.length ≤ offset + length)⟩) ↔ obj.Regular := by
  have hread : ∀ offset length, gw.read comp.tenantId id offset length =
      gw.readRange comp offset length := by
    intro offset length
    simp only [InMemoryGateway.read, get_eq_ok.2 hrow, if_true]
  simp only [hread]
  rw [← obj.flatten_pieces, (h.holds hinj).readRange_iff, h.lens]
  exact obj.windows_iff

/-- All ranges read as written exactly when the writes or parts are regular. -/
theorem read_returns_written_iff {id : CompositionId} (hinj : Set.InjOn deriveChunkId S)
    (hbuilt : Built deriveChunkId S gw id obj) (hrow : gw.compositions.find id = some comp) :
    (∀ offset length, gw.read comp.tenantId id offset length =
      .ok ⟨obj.content.extract offset (offset + length),
        decide (obj.content.length ≤ offset + length)⟩) ↔ obj.Regular := by
  obtain ⟨comp', hfind, hlayout⟩ := hbuilt.layout hinj
  obtain rfl := Option.some.inj (hrow.symm.trans hfind)
  exact hlayout.read_iff hinj hrow

end

def emptyGateway : InMemoryGateway :=
  ⟨∅, ∅, (CompositionStore.new .memory 16).addNamespace
    ⟨⟨.replicate 16 2⟩, ⟨.replicate 16 1⟩, ⟨.replicate 16 1⟩, false, false⟩⟩

def plainWrite (data : Bytes) : WriteRequest where
  tenantId := ⟨.replicate 16 1⟩
  namespaceId := ⟨.replicate 16 2⟩
  data := data
  surface := .s3

def plainDraw (n : UInt8) : Draw := ⟨⟨.replicate 16 n⟩, ⟨0, 0, 0⟩, false⟩

/-- A stand-in for the content hash that tells apart what starts differently. -/
def plainDerive (data : Bytes) : ChunkId := ⟨Vector.replicate 32 (data.headD 0)⟩

lemma plainDerive_injOn {x y : Bytes} (h : plainDerive x ≠ plainDerive y) :
    Set.InjOn plainDerive {x, y} := by
  rintro data (rfl | rfl) data' (rfl | rfl) heq
  · rfl
  · exact absurd heq h
  · exact absurd heq.symm h
  · rfl

def afterWrite (gw : InMemoryGateway) (req : WriteRequest) (draw : Draw) : InMemoryGateway :=
  match write plainDerive gw req draw with
  | .ok (gw', _) => gw'
  | .error _ => gw

def oneWrite : InMemoryGateway := afterWrite emptyGateway (plainWrite [97, 98, 99]) (plainDraw 9)

lemma addressed_empty {deriveChunkId : Bytes → ChunkId} (S : Set Bytes) :
    Addressed deriveChunkId S emptyGateway.chunks emptyGateway.inlined := by
  rintro id data (h | h) <;> cases h

variable {S : Set Bytes}

lemma built_oneWrite (h : [97, 98, 99] ∈ S) :
    Built plainDerive S oneWrite ⟨.replicate 16 9⟩ (.chain [[97, 98, 99]]) := by
  have hwrite : write plainDerive emptyGateway (plainWrite [97, 98, 99]) (plainDraw 9) =
      .ok (oneWrite, ⟨⟨.replicate 16 9⟩, 3⟩) := rfl
  have hdata : ∀ piece ∈ rawPieces (plainWrite [97, 98, 99]).data, piece ∈ S :=
    forall_mem_singleton.2 h
  exact .write (addressed_empty S) hdata rfl rfl rfl hwrite

theorem read_returns_written_iff_one_write :
    ∃ comp, oneWrite.compositions.find ⟨.replicate 16 9⟩ = some comp ∧
      ∀ offset length, oneWrite.read comp.tenantId ⟨.replicate 16 9⟩ offset length =
        .ok ⟨(Object.chain [[97, 98, 99]]).content.extract offset (offset + length),
          decide ((Object.chain [[97, 98, 99]]).content.length ≤ offset + length)⟩ := by
  refine ⟨_, rfl, (read_returns_written_iff (Set.injOn_singleton _ [97, 98, 99])
    (built_oneWrite (Set.mem_singleton _)) rfl).2 ?_⟩
  exact pairwise_singleton _ _

def chainedRequest : WriteRequest :=
  { plainWrite [100, 101] with
    baseCompositionId := some ⟨.replicate 16 9⟩
    baseBytes := 3 }

def chainedWrite : InMemoryGateway := afterWrite oneWrite chainedRequest (plainDraw 10)

lemma built_chainedWrite (h : [97, 98, 99] ∈ S) (h' : [100, 101] ∈ S) :
    Built plainDerive S chainedWrite ⟨.replicate 16 10⟩
      (.chain [[97, 98, 99], [100, 101]]) := by
  have hwrite : write plainDerive oneWrite chainedRequest (plainDraw 10) =
      .ok (chainedWrite, ⟨⟨.replicate 16 10⟩, 5⟩) := rfl
  have hdata : ∀ piece ∈ rawPieces chainedRequest.data, piece ∈ S :=
    forall_mem_singleton.2 h'
  have hbytes : ∀ base, oneWrite.compositions.find ⟨.replicate 16 9⟩ = some base →
      chainedRequest.baseBytes = base.size := by
    intro base hbase
    cases hbase
    rfl
  exact .chain (built_oneWrite h) hdata rfl hbytes rfl rfl hwrite

/-- The second write's chunk is held to start a chunk size further. -/
theorem chained_write_not_read :
    ∃ comp, Set.InjOn plainDerive {[97, 98, 99], [100, 101]} ∧
      Built plainDerive {[97, 98, 99], [100, 101]} chainedWrite ⟨.replicate 16 10⟩
        (.chain [[97, 98, 99], [100, 101]]) ∧
      chainedWrite.compositions.find ⟨.replicate 16 10⟩ = some comp ∧
      chainedWrite.read comp.tenantId ⟨.replicate 16 10⟩ 0 5 = .ok ⟨[97, 98, 99], true⟩ ∧
      (Object.chain [[97, 98, 99], [100, 101]]).content = [97, 98, 99, 100, 101] := by
  have hinj : Set.InjOn plainDerive {[97, 98, 99], [100, 101]} := plainDerive_injOn (by decide)
  exact ⟨_, hinj, built_chainedWrite (.inl rfl) (.inr rfl), rfl, rfl, rfl⟩

end Kiseki.Gateway
