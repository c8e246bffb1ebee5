import Kiseki.Block.Backend
import Kiseki.Lib.LittleEndian
import Kiseki.Lib.Overlay

namespace Kiseki.Block
open Overlay LittleEndian List Nat Extent BitmapAllocator

/-- The layout of a device file: superblock, two bitmaps, data region. -/
structure Superblock where
  deviceId : Uuid
  blockSize : Nat
  totalBlocks : Nat
  bitmapOffset : Nat
  bitmapMirrorOffset : Nat
  bitmapBlocks : Nat
  dataOffset : Nat
  generation : Nat
deriving DecidableEq, Repr

namespace Superblock

def magic : Bytes := [0x4b, 0x49, 0x53, 0x45, 0x4b, 0x49, 0x01, 0x00]

def formatVersion : Nat := 1

def size : Nat := 4096

/-- The bitmaps are sized for a data region that starts right after the superblock. -/
def new (deviceId : Uuid) (deviceBytes blockSize : Nat) : Superblock :=
  let approxDataBlocks := (deviceBytes - size) / blockSize
  let bitmapBlocks := divCeil (divCeil approxDataBlocks 8) blockSize
  let bitmapMirrorOffset := size + bitmapBlocks * blockSize
  let dataOffset := bitmapMirrorOffset + bitmapBlocks * blockSize
  { deviceId := deviceId
    blockSize := blockSize
    totalBlocks := (deviceBytes - dataOffset) / blockSize
    bitmapOffset := size
    bitmapMirrorOffset := bitmapMirrorOffset
    bitmapBlocks := bitmapBlocks
    dataOffset := dataOffset
    generation := 0 }

def toBytes (sb : Superblock) : Bytes :=
  resize 0 size (magic ++ bytes 4 formatVersion ++ sb.deviceId.toList ++
    bytes 4 sb.blockSize ++ bytes 8 sb.totalBlocks ++
    bytes 8 sb.bitmapOffset ++ bytes 8 sb.bitmapMirrorOffset ++
    bytes 8 sb.bitmapBlocks ++ bytes 8 sb.dataOffset ++
    bytes 8 sb.generation)

end Superblock

structure FileBackedDevice (crc32c : Bytes → UInt32) where
  file : Bytes
  superblock : Superblock
  allocator : BitmapAllocator

namespace FileBackedDevice
variable {crc32c : Bytes → UInt32}

def init (deviceId : Uuid) (sizeBytes blockSize : Nat) (h : 0 < blockSize) :
    FileBackedDevice crc32c :=
  let sb := Superblock.new deviceId sizeBytes blockSize
  let emptyBitmap := List.replicate (divCeil sb.totalBlocks 8) 0
  { file := pwrites 0 [(0, sb.toBytes), (sb.bitmapOffset, emptyBitmap),
      (sb.bitmapMirrorOffset, emptyBitmap)] (List.replicate sizeBytes 0)
    superblock := sb
    allocator := .new sb.totalBlocks blockSize h }

section
variable (d : FileBackedDevice crc32c)

def alloc (size : Nat) :
    Except AllocError (Extent × FileBackedDevice crc32c) :=
  match d.allocator.alloc (size + overhead) with
  | .ok (extent, allocator) => .ok (extent, { d with allocator := allocator })
  | .error err => .error err

def free (extent : Extent) :
    Except AllocError (FileBackedDevice crc32c) :=
  match d.allocator.free extent with
  | .ok allocator => .ok { d with allocator := allocator }
  | .error err => .error err

def frame (crc32c : Bytes → UInt32) (absOffset : Nat) (data : Bytes) : List (Nat × Bytes) :=
  [(absOffset, bytes headerSize data.length), (absOffset + headerSize, data),
    (absOffset + headerSize + data.length, bytes crcSize (crc32c data).toNat)]

def write (extent : Extent) (data : Bytes) :
    Except BlockError (FileBackedDevice crc32c) :=
  if data.length > u32Max then .error (.invalidInput "data exceeds 4GB")
  else
    let payloadCapacity := extent.length - overhead
    if data.length > payloadCapacity then
      .error (.invalidInput ("data (" ++ toString data.length ++
        " bytes) exceeds extent payload capacity (" ++ toString payloadCapacity ++ " bytes)"))
    else
      .ok { d with
        file := pwrites 0 (frame crc32c (d.superblock.dataOffset + extent.offset) data) d.file }

def readExact (file : Bytes) (offset n : Nat) : Except BlockError Bytes :=
  if (slice file offset n).length = n then .ok (slice file offset n) else .error .unexpectedEof

def read (extent : Extent) : Except BlockError Bytes := do
  let absOffset := d.superblock.dataOffset + extent.offset
  let lenBuf ← readExact d.file absOffset headerSize
  let dataLen := value lenBuf
  let payloadCapacity := extent.length - overhead
  if dataLen > payloadCapacity then throw (.corruption extent.offset 0 0)
  let data ← readExact d.file (absOffset + headerSize) dataLen
  let crcBuf ← readExact d.file (absOffset + headerSize + dataLen) crcSize
  let storedCrc := UInt32.ofNat (value crcBuf)
  let computedCrc := crc32c data
  if storedCrc ≠ computedCrc then throw (.corruption extent.offset storedCrc computedCrc)
  return data

def reopen : FileBackedDevice crc32c :=
  { d with
    allocator := .fromBitmap d.allocator.bitmap d.allocator.totalBlocks d.allocator.blockSize
      d.allocator.blockSize_pos }

end

instance : DeviceBackend (FileBackedDevice crc32c) where
  alloc := alloc
  write := write
  read := read
  free := free
  capacity := fun d => (d.allocator.usedBytes, d.allocator.totalBytes)
  tier := fun _ => .bulk
  reopen := reopen

/-- The extents that are out have room for header and trailer, inside the file. -/
structure Holds (d : FileBackedDevice crc32c) (live : Finset Extent) : Prop where
  allocated : d.allocator.Live live
  framed : ∀ e ∈ live, overhead ≤ e.length
  reaches : 0 < d.allocator.totalBlocks →
    d.superblock.dataOffset + d.allocator.totalBytes ≤ d.file.length

section
variable (d : FileBackedDevice crc32c)

def InExtent (e : Extent) (i : Nat) : Prop :=
  d.superblock.dataOffset + e.offset ≤ i ∧ i < d.superblock.dataOffset + e.stop

def storedLen (e : Extent) : Nat :=
  value (slice d.file (d.superblock.dataOffset + e.offset) headerSize)

def storedData (e : Extent) : Bytes :=
  slice d.file (d.superblock.dataOffset + e.offset + headerSize) (d.storedLen e)

def storedCrc (e : Extent) : UInt32 :=
  .ofNat (value
    (slice d.file (d.superblock.dataOffset + e.offset + headerSize + d.storedLen e) crcSize))

end

variable {d d' : FileBackedDevice crc32c} {live : Finset Extent} {e e' : Extent} {data : Bytes}
  {i size : Nat}

lemma readExact_eq {file : Bytes} {offset n : Nat} (h : offset + n ≤ file.length) :
    readExact file offset n = .ok (slice file offset n) := by
  rw [readExact, if_pos (length_slice h)]

lemma Holds.inside (h : d.Holds live) (he : e ∈ live) :
    d.superblock.dataOffset + e.stop ≤ d.file.length ∧ overhead ≤ e.length ∧
      e.stop ≤ d.allocator.totalBytes := by
  obtain ⟨s, n, hpos, rfl, hin⟩ := h.allocated.aligned e he
  have hstop : (ofBlocks d.allocator.blockSize s n).stop ≤ d.allocator.totalBytes := by
    rw [stop_ofBlocks]
    exact mul_le_mul_right _ hin
  have hreach := h.reaches (by omega)
  exact ⟨by omega, h.framed _ he, hstop⟩

lemma Holds.read_eq (h : d.Holds live) (he : e ∈ live) :
    d.read e =
      if d.storedLen e > e.length - overhead then .error (.corruption e.offset 0 0)
      else if d.storedCrc e ≠ crc32c (d.storedData e) then
        .error (.corruption e.offset (d.storedCrc e) (crc32c (d.storedData e)))
      else .ok (d.storedData e) := by
  obtain ⟨hfile, hframed, _⟩ := h.inside he
  rw [stop] at hfile
  rw [overhead, headerSize, crcSize] at hframed
  rw [read, readExact_eq (by rw [headerSize]; omega)]
  change (if d.storedLen e > e.length - overhead then _ else _) = _
  by_cases hlen : d.storedLen e > e.length - overhead
  · rw [if_pos hlen, if_pos hlen]
    rfl
  · rw [if_neg hlen, if_neg hlen]
    rw [overhead, headerSize, crcSize] at hlen
    have hdata : readExact d.file (d.superblock.dataOffset + e.offset + headerSize)
        (d.storedLen e) =
        .ok (d.storedData e) := readExact_eq (by rw [headerSize]; omega)
    have hcrc : readExact d.file
        (d.superblock.dataOffset + e.offset + headerSize + d.storedLen e) crcSize = .ok _ :=
      readExact_eq (by rw [headerSize, crcSize]; omega)
    change (do
      let data ← readExact d.file (d.superblock.dataOffset + e.offset + headerSize) (d.storedLen e)
      let crcBuf ← readExact d.file
        (d.superblock.dataOffset + e.offset + headerSize + d.storedLen e) crcSize
      if UInt32.ofNat (value crcBuf) ≠ crc32c data then
        throw (BlockError.corruption e.offset (UInt32.ofNat (value crcBuf))
          (crc32c data))
      return data) = _
    rw [hdata, hcrc]
    change (if d.storedCrc e ≠ crc32c (d.storedData e) then _ else _) = _
    split
    · rfl
    · rfl

lemma write_eq (h : e.Fits data) : d.write e data = .ok { d with
    file := pwrites 0 (frame crc32c (d.superblock.dataOffset + e.offset) data) d.file } := by
  rw [write, if_neg (Nat.not_lt_of_le h.1), if_neg (Nat.not_lt_of_le h.2)]

lemma write_error_iff : (∃ err, d.write e data = .error err) ↔ ¬e.Fits data := by
  rw [write, Extent.Fits]
  by_cases hmax : data.length > u32Max
  · rw [if_pos hmax]
    exact iff_of_true ⟨_, rfl⟩ fun hfits => Nat.not_lt_of_le hfits.1 hmax
  · rw [if_neg hmax]
    by_cases hcap : data.length > e.length - overhead
    · rw [if_pos hcap]
      exact iff_of_true ⟨_, rfl⟩ fun hfits => Nat.not_lt_of_le hfits.2 hcap
    · rw [if_neg hcap]
      apply iff_of_false
      · intro hex
        obtain ⟨_, herr⟩ := hex
        cases herr
      · intro hnot
        exact hnot ⟨Nat.le_of_not_lt hmax, Nat.le_of_not_lt hcap⟩

lemma inExtent_of_covers (hframed : overhead ≤ e.length) (hfits : e.Fits data)
    (hcovers : Covers (frame crc32c (d.superblock.dataOffset + e.offset) data) i) :
    d.InExtent e i := by
  have hroom := hfits.2
  rw [overhead, headerSize, crcSize] at hframed hroom
  obtain ⟨w, hw, hlo, hhi⟩ := hcovers
  rw [InExtent, stop]
  simp only [frame, mem_cons, not_mem_nil, or_false] at hw
  rcases hw with rfl | rfl | rfl
  · dsimp only at hlo hhi
    rw [length_bytes, headerSize] at hhi
    omega
  · dsimp only at hlo hhi
    rw [headerSize] at hlo hhi
    omega
  · dsimp only at hlo hhi
    rw [length_bytes, crcSize, headerSize] at hhi
    rw [headerSize] at hlo
    omega

lemma Holds.write_frame (h : d.Holds live) (he : e ∈ live) (hok : d.write e data = .ok d') :
    (∀ i, ¬d.InExtent e i → d'.file.getD i 0 = d.file.getD i 0) ∧
      d'.file.length = d.file.length ∧ d'.superblock = d.superblock ∧
      d'.allocator = d.allocator ∧ e.Fits data := by
  have hfits : e.Fits data := by
    by_contra hnot
    obtain ⟨err, herr⟩ := write_error_iff.2 hnot
    rw [herr] at hok
    cases hok
  rw [write_eq hfits] at hok
  obtain rfl := Except.ok.inj hok
  obtain ⟨hfile, hframed, _⟩ := h.inside he
  have hreach : reach (frame crc32c (d.superblock.dataOffset + e.offset) data) ≤ d.file.length := by
    apply reach_le
    intro i hcovers
    exact lt_of_lt_of_le (inExtent_of_covers hframed hfits hcovers).2 hfile
  refine ⟨?_, ?_, rfl, rfl, hfits⟩
  · intro i hi
    apply getD_pwrites_of_not_covers
    intro hcovers
    exact hi (inExtent_of_covers hframed hfits hcovers)
  · rw [length_pwrites, max_eq_left hreach]

lemma Holds.write (h : d.Holds live) (he : e ∈ live) (hok : d.write e data = .ok d') :
    d'.Holds live := by
  obtain ⟨_, hlen, hsb, halloc, _⟩ := h.write_frame he hok
  constructor
  · rw [halloc]
    exact h.allocated
  · exact h.framed
  · rw [hsb, halloc, hlen]
    exact h.reaches

lemma Holds.read_congr (h : d.Holds live) (h' : d'.Holds live) (he : e ∈ live)
    (hsb : d'.superblock = d.superblock)
    (hbytes : ∀ i, d.InExtent e i → d'.file.getD i 0 = d.file.getD i 0) : d'.read e = d.read e := by
  obtain ⟨hfile, hframed, _⟩ := h.inside he
  have hfile' := (h'.inside he).1
  rw [hsb] at hfile'
  have hslice : ∀ offset n, d.superblock.dataOffset + e.offset ≤ offset →
      offset + n ≤ d.superblock.dataOffset + e.stop →
      slice d'.file offset n = slice d.file offset n := by
    intro offset n hlo hhi
    apply slice_congr (by omega) (by omega)
    intro i hi hlt
    exact hbytes i ⟨by omega, by omega⟩
  rw [stop] at hslice
  rw [overhead, headerSize, crcSize] at hframed
  have hlen : d'.storedLen e = d.storedLen e := by
    rw [storedLen, storedLen, hsb, hslice _ _ le_rfl (by rw [headerSize]; omega)]
  rw [h'.read_eq he, h.read_eq he, hlen]
  by_cases hcap : d.storedLen e > e.length - overhead
  · rw [if_pos hcap, if_pos hcap]
  · rw [if_neg hcap, if_neg hcap]
    rw [overhead, headerSize, crcSize] at hcap
    have hdata : d'.storedData e = d.storedData e := by
      rw [storedData, storedData, hsb, hlen,
        hslice _ _ (by omega) (by rw [headerSize]; omega)]
    have hcrc : d'.storedCrc e = d.storedCrc e := by
      rw [storedCrc, storedCrc, hsb, hlen,
        hslice _ _ (by omega) (by rw [headerSize, crcSize]; omega)]
    rw [hdata, hcrc]

lemma slice_frame {file : Bytes} {start : Nat}
    (hend : start + headerSize + data.length + crcSize ≤
      (pwrites 0 (frame crc32c start data) file).length) :
    slice (pwrites 0 (frame crc32c start data) file) start headerSize =
        bytes headerSize data.length ∧
      slice (pwrites 0 (frame crc32c start data) file) (start + headerSize) data.length = data ∧
      slice (pwrites 0 (frame crc32c start data) file) (start + headerSize + data.length) crcSize =
        bytes crcSize (crc32c data).toNat := by
  let header := bytes headerSize data.length
  let trailer := bytes crcSize (crc32c data).toNat
  have hheader : header.length = headerSize := length_bytes _ _
  have htrailer : trailer.length = crcSize := length_bytes _ _
  -- no part reaches into the ones before it
  have hlater : ∀ i, i < start + headerSize + data.length →
      ¬Covers [(start + headerSize + data.length, trailer)] i := by
    intro i hi hcovers
    obtain ⟨w, hw, hlo, _⟩ := hcovers
    rw [mem_singleton.1 hw] at hlo
    exact Nat.not_lt_of_le hlo hi
  refine ⟨?_, ?_, ?_⟩
  · have hslice := slice_pwrites 0 []
      [(start + headerSize, data), (start + headerSize + data.length, trailer)] (start, header) file
      (fun i _ hhi hcovers => by
        dsimp only at hhi
        obtain ⟨w, hw, hlo, hlt⟩ := hcovers
        rcases mem_cons.1 hw with rfl | hw
        · dsimp only at hlo
          omega
        · exact hlater i (by omega) ⟨w, hw, hlo, hlt⟩)
      (by
        refine le_trans ?_ hend
        dsimp only
        omega)
    dsimp only at hslice
    rw [hheader] at hslice
    exact hslice
  · exact slice_pwrites 0 [(start, header)] _ (start + headerSize, data) file
      (fun i _ hhi => hlater i hhi)
      (le_trans (le_add_right _ _) hend)
  · have hslice := slice_pwrites 0 [(start, header), (start + headerSize, data)] []
      (start + headerSize + data.length, trailer) file
      (fun i _ _ hcovers => by
        obtain ⟨w, hw, _⟩ := hcovers
        exact absurd hw not_mem_nil)
      (by
        dsimp only
        rw [htrailer]
        exact hend)
    dsimp only at hslice
    rw [htrailer] at hslice
    exact hslice

lemma Holds.read_write (h : d.Holds live) (he : e ∈ live) (hok : d.write e data = .ok d') :
    d'.read e = .ok data := by
  have h' := h.write he hok
  obtain ⟨_, hlength, hsb, _, hfits⟩ := h.write_frame he hok
  obtain ⟨hfile, hframed, _⟩ := h.inside he
  have hroom := hfits.2
  rw [stop] at hfile
  rw [write_eq hfits] at hok
  have hwritten : pwrites 0 (frame crc32c (d'.superblock.dataOffset + e.offset) data) d.file =
      d'.file := by
    rw [hsb]
    exact congrArg FileBackedDevice.file (Except.ok.inj hok)
  have hend : d'.superblock.dataOffset + e.offset + headerSize + data.length + crcSize ≤
      (pwrites 0 (frame crc32c (d'.superblock.dataOffset + e.offset) data) d.file).length := by
    rw [hwritten, hlength, hsb]
    rw [overhead] at hroom hframed
    omega
  obtain ⟨hheader, hpayload, htrailer⟩ := slice_frame hend
  rw [hwritten] at hheader hpayload htrailer
  have hlen : d'.storedLen e = data.length := by
    have hmax := hfits.1
    rw [u32Max] at hmax
    rw [storedLen, hheader, value_bytes (by rw [headerSize]; omega)]
  have hdata : d'.storedData e = data := by
    rw [storedData, hlen, hpayload]
  have hcrc : d'.storedCrc e = crc32c data := by
    rw [storedCrc, hlen, htrailer, value_bytes (UInt32.toNat_lt _), UInt32.ofNat_toNat]
  rw [h'.read_eq he, hlen, hdata, hcrc, if_neg (Nat.not_lt_of_le hroom), if_neg (not_not_intro rfl)]

lemma Holds.read_write_ne (h : d.Holds live) (he : e ∈ live) (he' : e' ∈ live) (hne : e' ≠ e)
    (hok : d.write e data = .ok d') : d'.read e' = d.read e' := by
  obtain ⟨hbytes, _, hsb, _, _⟩ := h.write_frame he hok
  apply h.read_congr (h.write he hok) he' hsb
  intro i hi
  apply hbytes
  intro hin
  rcases h.allocated.disjoint e' he' e he hne with hapart | hapart
  · have := hi.2
    have := hin.1
    omega
  · have := hi.1
    have := hin.2
    omega

/-- A sequence of write calls, of which the rejected ones have no effect. -/
def writeAll (d : FileBackedDevice crc32c) : List (Extent × Bytes) → FileBackedDevice crc32c
  | [] => d
  | w :: ws =>
    match d.write w.1 w.2 with
    | .ok d' => d'.writeAll ws
    | .error _ => d.writeAll ws

def lastWritten (e : Extent) : List (Extent × Bytes) → Option Bytes
  | [] => none
  | w :: ws => (lastWritten e ws).or (if w.1 = e ∧ e.Fits w.2 then some w.2 else none)

lemma Holds.writeAll (h : d.Holds live) {ws : List (Extent × Bytes)}
    (hws : ∀ w ∈ ws, w.1 ∈ live) :
    (d.writeAll ws).Holds live ∧ (d.writeAll ws).superblock = d.superblock ∧
      (d.writeAll ws).allocator = d.allocator ∧
      (d.writeAll ws).file.length = d.file.length ∧
      (∀ i, (∀ w ∈ ws, ¬d.InExtent w.1 i) → (d.writeAll ws).file.getD i 0 = d.file.getD i 0) ∧
      ∀ e ∈ live, (d.writeAll ws).read e =
        ((lastWritten e ws).map Except.ok).getD (d.read e) := by
  induction ws generalizing d with
  | nil => exact ⟨h, rfl, rfl, rfl, fun _ _ => rfl, fun _ _ => rfl⟩
  | cons w ws ih =>
    obtain ⟨hw, hrest⟩ := forall_mem_cons.1 hws
    cases hok : d.write w.1 w.2 with
    | error err =>
      have hskip : d.writeAll (w :: ws) = d.writeAll ws := by
        rw [FileBackedDevice.writeAll, hok]
      have hfits := write_error_iff.1 ⟨err, hok⟩
      obtain ⟨hholds, hsb, halloc, hlen, hbytes, hreads⟩ := ih h hrest
      rw [hskip]
      refine ⟨hholds, hsb, halloc, hlen, ?_, ?_⟩
      · intro i hi
        exact hbytes i fun w' hw' => hi w' (mem_cons_of_mem _ hw')
      · intro e he
        have hnot : ¬(w.1 = e ∧ e.Fits w.2) := by
          intro hand
          exact hfits (hand.1 ▸ hand.2)
        rw [hreads e he, lastWritten, if_neg hnot, Option.or_none]
    | ok d₁ =>
      have hstep : d.writeAll (w :: ws) = d₁.writeAll ws := by
        rw [FileBackedDevice.writeAll, hok]
      obtain ⟨hframe, hlen₁, hsb₁, halloc₁, hfits⟩ := h.write_frame hw hok
      obtain ⟨hholds, hsb, halloc, hlen, hbytes, hreads⟩ := ih (h.write hw hok) hrest
      rw [hstep]
      refine ⟨hholds, hsb.trans hsb₁, halloc.trans halloc₁, hlen.trans hlen₁, ?_, ?_⟩
      · intro i hi
        obtain ⟨hfirst, hlater⟩ := forall_mem_cons.1 hi
        rw [hbytes i fun w' hw' => by rw [InExtent, hsb₁]; exact hlater w' hw', hframe i hfirst]
      · intro e he
        rw [hreads e he, lastWritten]
        cases hlast : lastWritten e ws with
        | some data => rfl
        | none =>
          rw [Option.none_or]
          by_cases hsame : w.1 = e
          · rw [if_pos ⟨hsame, hsame ▸ hfits⟩, ← hsame]
            exact h.read_write hw hok
          · rw [if_neg fun hand => hsame hand.1]
            exact h.read_write_ne hw he (Ne.symm hsame) hok

lemma getElem?_eq_of_getD {xs ys : Bytes} (hlen : xs.length = ys.length)
    (h : xs.getD i 0 = ys.getD i 0) : xs[i]? = ys[i]? := by
  rcases lt_or_ge i xs.length with hlt | hge
  · rw [getD_eq_getElem _ _ hlt, getD_eq_getElem _ _ (hlen ▸ hlt)] at h
    rw [getElem?_eq_getElem hlt, getElem?_eq_getElem (hlen ▸ hlt), h]
  · rw [getElem?_eq_none hge, getElem?_eq_none (hlen ▸ hge)]

/-- A read returns what was written last; damage is a corruption error. -/
theorem file_device_isolation (h : d.Holds live) {ws : List (Extent × Bytes)}
    (hws : ∀ w ∈ ws, w.1 ∈ live) :
    (∀ e ∈ live, (d.writeAll ws).read e = ((lastWritten e ws).map Except.ok).getD (d.read e)) ∧
      (∀ i : Nat, (∀ w ∈ ws, ¬d.InExtent w.1 i) → (d.writeAll ws).file[i]? = d.file[i]?) ∧
      (∀ i : Nat, i < d.superblock.dataOffset → (d.writeAll ws).file[i]? = d.file[i]?) ∧
      (∀ e data, (∃ err, d.write e data = .error err) ↔ ¬e.Fits data) ∧
      (∀ e ∈ live, e.length - overhead < d.storedLen e →
        d.read e = .error (.corruption e.offset 0 0)) ∧
      (∀ e ∈ live, d.storedLen e ≤ e.length - overhead →
        d.storedCrc e ≠ crc32c (d.storedData e) →
        d.read e = .error (.corruption e.offset (d.storedCrc e) (crc32c (d.storedData e)))) ∧
      ∀ e ∈ live, ∀ data, d.read e = .ok data →
        data = d.storedData e ∧ data.length = d.storedLen e ∧
          headerSize + d.storedLen e + crcSize ≤ e.length := by
  obtain ⟨_, _, _, hlen, hbytes, hreads⟩ := h.writeAll hws
  have hfile : ∀ i : Nat, (∀ w ∈ ws, ¬d.InExtent w.1 i) →
      (d.writeAll ws).file[i]? = d.file[i]? := by
    intro i hi
    exact getElem?_eq_of_getD hlen (hbytes i hi)
  apply And.intro hreads
  apply And.intro hfile
  apply And.intro
  · intro i hi
    apply hfile
    intro w _ hin
    have := hin.1
    omega
  apply And.intro fun e data => write_error_iff
  apply And.intro
  · intro e he hbig
    rw [h.read_eq he, if_pos hbig]
  apply And.intro
  · intro e he hsmall hcrc
    rw [h.read_eq he, if_neg (Nat.not_lt_of_le hsmall), if_pos hcrc]
  · intro e he data hok
    obtain ⟨hin, hframed, _⟩ := h.inside he
    rw [stop] at hin
    rw [h.read_eq he] at hok
    split at hok
    · cases hok
    · rename_i hcap
      split at hok
      · cases hok
      · obtain rfl := Except.ok.inj hok
        rw [overhead] at hcap hframed
        refine ⟨rfl, ?_, by omega⟩
        exact length_slice (by omega)

lemma holds_init {deviceId : Uuid} {sizeBytes blockSize : Nat} (hbs : 0 < blockSize) :
    (init deviceId sizeBytes blockSize hbs : FileBackedDevice crc32c).Holds ∅ where
  allocated := live_new hbs
  framed := by
    intro e he
    exact absurd he (Finset.notMem_empty e)
  reaches := by
    intro hpos
    change 0 < (sizeBytes - (Superblock.new deviceId sizeBytes blockSize).dataOffset) / blockSize
      at hpos
    change _ + (sizeBytes - (Superblock.new deviceId sizeBytes blockSize).dataOffset) / blockSize *
      blockSize ≤ (pwrites 0 _ (replicate sizeBytes 0)).length
    have hle := div_mul_le_self
      (sizeBytes - (Superblock.new deviceId sizeBytes blockSize).dataOffset) blockSize
    have hlt : (Superblock.new deviceId sizeBytes blockSize).dataOffset < sizeBytes := by
      by_contra hge
      rw [Nat.sub_eq_zero_of_le (Nat.le_of_not_lt hge), Nat.zero_div] at hpos
      exact lt_irrefl 0 hpos
    rw [length_pwrites, length_replicate]
    refine le_trans ?_ (le_max_left _ _)
    change (Superblock.new deviceId sizeBytes blockSize).dataOffset + _ ≤ _
    omega

lemma Holds.alloc (h : d.Holds live) (hok : d.alloc size = .ok (e, d')) :
    d'.Holds (insert e live) ∧ (∀ e' ∈ live, e.Disjoint e') ∧ size + overhead ≤ e.length ∧
      d'.superblock = d.superblock ∧ d'.file = d.file ∧
      d'.allocator.totalBytes = d.allocator.totalBytes := by
  rw [FileBackedDevice.alloc] at hok
  split at hok
  · rename_i extent allocator halloc
    cases hok
    obtain ⟨hlive, hapart, hsize⟩ := h.allocated.alloc halloc
    obtain ⟨s, l, _, _, _, _, rfl⟩ := alloc_ok halloc
    refine ⟨⟨hlive, ?_, h.reaches⟩, hapart, hsize, rfl, rfl, rfl⟩
    intro e' he'
    rcases Finset.mem_insert.1 he' with rfl | he'
    · exact le_trans (le_add_left _ _) hsize
    · exact h.framed e' he'
  · cases hok

lemma Holds.free (h : d.Holds live) (he : e ∈ live) :
    ∃ d', d.free e = .ok d' ∧ d'.Holds (live.erase e) ∧ d'.superblock = d.superblock ∧
      d'.file = d.file ∧ d'.allocator.totalBytes = d.allocator.totalBytes := by
  obtain ⟨allocator, hfree, hlive, htotal, hsize⟩ := h.allocated.free he
  have hbytes : allocator.totalBytes = d.allocator.totalBytes := by
    rw [totalBytes, totalBytes, htotal, hsize]
  refine ⟨{ d with allocator := allocator }, ?_, ⟨hlive, ?_, ?_⟩, rfl, rfl, hbytes⟩
  · rw [FileBackedDevice.free, hfree]
  · intro e' he'
    exact h.framed e' (Finset.mem_of_mem_erase he')
  · rw [htotal, hbytes]
    exact h.reaches

instance : LawfulBackend (FileBackedDevice crc32c) where
  Holds := Holds
  Marked := fun d e => ∀ i, i < d.allocator.totalBlocks → e.Covers (i * d.allocator.blockSize) →
    getBit d.allocator.bitmap i = true
  marked := by
    intro d live e h he i hi hcovers
    exact (h.allocated.bits i hi).2 ⟨e, he, hcovers⟩
  reopen := by
    intro d live h
    change { d with allocator := _ } = d
    rw [h.allocated.exact.fromBitmap_eq]
  inside := by
    intro d live e h he
    have hframed := h.framed e he
    rw [overhead, headerSize, crcSize] at hframed
    exact ⟨by omega, (h.inside he).2.2⟩
  apart := by
    intro d live e e' h he he' hne
    exact h.allocated.disjoint e he e' he' hne
  alloc := by
    intro d d' live e size h hok
    obtain ⟨hholds, hapart, hsize, hsb, hfile, htotal⟩ := Holds.alloc h hok
    exact ⟨hholds, hapart, hsize, htotal, rfl, fun e' he' => by
      change d'.read e' = d.read e'
      rw [read, read, hsb, hfile]⟩
  allocInTier := by
    intro d d' live e size hint h hok
    obtain ⟨hholds, hapart, hsize, hsb, hfile, htotal⟩ := Holds.alloc h hok
    exact ⟨hholds, hapart, hsize, htotal, rfl, fun e' he' => by
      change d'.read e' = d.read e'
      rw [read, read, hsb, hfile]⟩
  free := by
    intro d live e h he
    obtain ⟨d', hok, hholds, hsb, hfile, htotal⟩ := Holds.free h he
    refine ⟨d', hok, hholds, htotal, rfl, fun e' he' => ?_⟩
    change d'.read e' = d.read e'
    rw [read, read, hsb, hfile]
  write := by
    intro d live e data h he hfits
    refine ⟨_, write_eq hfits, h.write he (write_eq hfits), h.read_write he (write_eq hfits), ?_⟩
    refine ⟨rfl, rfl, fun e' he' => ?_⟩
    obtain ⟨hne, he'⟩ := Finset.mem_erase.1 he'
    exact h.read_write_ne he he' hne (write_eq hfits)
  rejects := by
    intro d live e data _ _ hfits
    exact write_error_iff.2 hfits

def tiny : FileBackedDevice fun _ => 0 := init (.replicate 16 0) 4296 16 (by decide)

lemma tiny_alloc : ∃ d, tiny.alloc 5 = .ok (⟨0, 16⟩, d) ∧ d.Holds {⟨0, 16⟩} := by
  have hfirst : (tiny.allocator.alloc (5 + overhead)).map Prod.fst = .ok ⟨0, 16⟩ := by decide
  cases hok : tiny.allocator.alloc (5 + overhead) with
  | error err =>
    rw [hok] at hfirst
    cases hfirst
  | ok r =>
    rw [hok] at hfirst
    have hextent : r.1 = ⟨0, 16⟩ := Except.ok.inj hfirst
    have halloc : tiny.alloc 5 = .ok (⟨0, 16⟩, { tiny with allocator := r.2 }) := by
      rw [alloc, hok, ← hextent]
    exact ⟨_, halloc, (Holds.alloc (holds_init _) halloc).1⟩

theorem file_device_isolation_tiny :
    ∃ d, tiny.alloc 5 = .ok (⟨0, 16⟩, d) ∧
      (d.writeAll [(⟨0, 16⟩, [1, 2, 3])]).read ⟨0, 16⟩ = .ok [1, 2, 3] := by
  obtain ⟨d, halloc, hholds⟩ := tiny_alloc
  have hmem : (⟨0, 16⟩ : Extent) ∈ ({⟨0, 16⟩} : Finset Extent) := Finset.mem_singleton_self _
  have hws : ∀ w ∈ [((⟨0, 16⟩ : Extent), ([1, 2, 3] : Bytes))],
      w.1 ∈ ({⟨0, 16⟩} : Finset Extent) := by
    intro w hw
    rw [mem_singleton.1 hw]
    exact hmem
  exact ⟨d, halloc, (file_device_isolation hholds hws).1 _ hmem⟩

end FileBackedDevice

end Kiseki.Block
