import Kiseki.Block.FileDevice
import Kiseki.Chunk.Reclaim

namespace Kiseki.Chunk

open Crash Kiseki.Block Function Relation Option FileBackedDevice Prog Except

structure Life where
  first : Envelope
  writes : Nat
  increments : Nat
  decrements : Nat
  holds : List String
deriving DecidableEq

def Life.count (l : Life) : Nat := l.writes + l.increments - l.decrements

/-- A reference-counted map: what the store is for. -/
abbrev Lives := ChunkId → Option Life

inductive Op where
  | writeChunk (envelope : Envelope) (pool : String)
  | incrementRefcount (id : ChunkId)
  | decrementRefcount (id : ChunkId)
  | tryIncrementIfExists (id : ChunkId)
  | setRetentionHold (id : ChunkId) (name : String)
  | releaseRetentionHold (id : ChunkId) (name : String)
  | gc (order : List ChunkId)
  | writeFragment (id : ChunkId) (index : Nat) (data : Bytes) (tier : Option StorageTier)
  | deleteFragment (id : ChunkId) (index : Nat)

def Op.run [DeviceBackend D] : Op → Call D Bool
  | .writeChunk envelope pool => do
    let r ← Chunk.writeChunk envelope pool
    pure r.isOk
  | .incrementRefcount id => do
    let r ← Chunk.incrementRefcount id
    pure r.isOk
  | .decrementRefcount id => do
    let r ← Chunk.decrementRefcount id
    pure r.isOk
  | .tryIncrementIfExists id => do
    let r ← Chunk.tryIncrementIfExists id
    pure r.isOk
  | .setRetentionHold id name => do
    let r ← Chunk.setRetentionHold id name
    pure r.isOk
  | .releaseRetentionHold id name => do
    let r ← Chunk.releaseRetentionHold id name
    pure r.isOk
  | .gc order => do
    let _ ← Chunk.gc order
    pure true
  | .writeFragment id index data tier => do
    let r ← writeFragmentTier id index data tier
    pure r.isOk
  | .deleteFragment id index => do
    let r ← Chunk.deleteFragment id index
    pure r.isOk

def Op.Iterates (v : Index) : Op → Prop
  | .gc order => order.Nodup ∧ ∀ id, id ∈ order ↔ id ∈ v.chunks
  | _ => True

namespace Lives

def change (lives : Lives) (id : ChunkId) (f : Life → Life) : Lives :=
  update lives id ((lives id).map f)

def collect (lives : Lives) : Lives := fun id =>
  (lives id).filter fun l => !(l.writes + l.increments = l.decrements && l.holds.isEmpty)

def after (lives : Lives) : Op → Lives
  | .writeChunk envelope _ =>
    if lives envelope.chunkId = none then
      update lives envelope.chunkId (some ⟨envelope, 1, 0, 0, []⟩)
    else lives.change envelope.chunkId fun l => { l with writes := l.writes + 1 }
  | .incrementRefcount id => lives.change id fun l => { l with increments := l.increments + 1 }
  | .decrementRefcount id => lives.change id fun l => { l with decrements := l.decrements + 1 }
  | .tryIncrementIfExists id => lives.change id fun l => { l with increments := l.increments + 1 }
  | .setRetentionHold id name => lives.change id fun l =>
    { l with holds := if name ∈ l.holds then l.holds else l.holds ++ [name] }
  | .releaseRetentionHold id name => lives.change id fun l =>
    { l with holds := l.holds.filter (· ≠ name) }
  | .gc _ => lives.collect
  | .writeFragment _ _ _ _ => lives
  | .deleteFragment _ _ => lives

end Lives

structure Records (id : ChunkId) (l : Life) (record : ChunkRecord) (data : Bytes) : Prop where
  count : record.refcount + l.decrements = l.writes + l.increments
  holds : record.retentionHolds = l.holds
  first : l.first = ⟨data, record.authTag, record.nonce, record.systemEpoch, record.tenantEpoch,
    record.tenantWrappedMaterial, id⟩

def Follows (lives : Lives) (K : ChunkRows) (c : Owner → Bytes) : Prop :=
  ∀ id, Option.Rel (fun l record => Records id l record (c (.chunk id))) (lives id) (K.lookup id)

lemma Records.change {id : ChunkId} (h : Records id l record data) (hsame : record.SameData record')
    (hcount : record'.refcount + l'.decrements = l'.writes + l'.increments)
    (hholds : record'.retentionHolds = l'.holds) (hfirst : l'.first = l.first) :
    Records id l' record' data := by
  refine ⟨hcount, hholds, ?_⟩
  rw [hfirst, h.first, hsame]

lemma Records.unused {id : ChunkId} (h : Records id l record data) :
    record.unused = (l.writes + l.increments = l.decrements && l.holds.isEmpty : Bool) := by
  have hcount := h.count
  rw [ChunkRecord.unused, h.holds]
  congr 1
  apply decide_eq_decide.2
  omega

section Follows
variable {lives : Lives} {K : ChunkRows} {c : Owner → Bytes} {id : ChunkId}

section
variable (h : Follows lives K c)

include h

lemma Follows.eq_none : lives id = none ↔ K.lookup id = none := by
  have hid := h id
  generalize lives id = life at hid
  generalize K.lookup id = record at hid
  cases hid with
  | some => exact ⟨fun h => (by cases h), fun h => by cases h⟩
  | none => exact ⟨fun _ => rfl, fun _ => rfl⟩

lemma Follows.record (hl : lives id = some l) :
    ∃ record, K.lookup id = some record ∧ Records id l record (c (.chunk id)) := by
  have hid := h id
  rw [hl] at hid
  generalize K.lookup id = record at hid
  cases hid with
  | some hrecords => exact ⟨_, rfl, hrecords⟩

lemma Follows.change {f : Life → Life} (hold : K.lookup id = some old)
    (hf : ∀ l data, Records id l old data → Records id (f l) new data) :
    Follows (lives.change id f) (K.insert id new) c := by
  intro id'
  by_cases hne : id' = id
  · subst hne
    have hid := h id'
    rw [hold] at hid
    rw [Lives.change, update_self, Finmap.lookup_insert]
    generalize lives id' = life at hid
    cases hid with
    | some hrecords => exact Option.Rel.some (hf _ _ hrecords)
  · rw [Lives.change, update_of_ne hne, Finmap.lookup_insert_of_ne _ hne]
    exact h id'

lemma Follows.insert (envelope : Envelope) (pool : String) (extents : List Extent) :
    Follows (update lives envelope.chunkId (some ⟨envelope, 1, 0, 0, []⟩))
      (K.insert envelope.chunkId (newRecord envelope pool extents))
      (update c (.chunk envelope.chunkId) envelope.ciphertext) := by
  intro id
  by_cases hne : id = envelope.chunkId
  · rw [hne, update_self, update_self, Finmap.lookup_insert]
    exact Option.Rel.some ⟨rfl, rfl, rfl⟩
  · rw [update_of_ne hne, update_of_ne fun heq => hne (Owner.chunk.inj heq),
      Finmap.lookup_insert_of_ne _ hne]
    exact h id

lemma Follows.fragment (key : FragmentKey) (data : Bytes) :
    Follows lives K (update c (.fragment key) data) := by
  intro id
  rw [update_of_ne fun heq => by cases heq]
  exact h id

lemma Follows.collect {order : List ChunkId} (horder : ∀ id, K.lookup id ≠ none → id ∈ order) :
    Follows lives.collect (eraseAll (doomed K order) K) (without (doomed K order) c) := by
  intro id
  have hid := h id
  rw [Lives.collect, lookup_eraseAll]
  cases hrecord : K.lookup id with
  | none =>
    rw [h.eq_none.2 hrecord, ite_self]
    exact Option.Rel.none
  | some record =>
    have hmem : id ∈ doomed K order ↔ record.unused = true := by
      rw [mem_doomed, hrecord]
      constructor
      · intro hd
        obtain ⟨_, _, heq, hunused⟩ := hd
        rw [some.inj heq]
        exact hunused
      · intro hunused
        exact ⟨horder id (by rw [hrecord]; exact some_ne_none _), record, rfl, hunused⟩
    rw [hrecord] at hid
    generalize lives id = life at hid
    cases hid with
    | @some l _ hrecords =>
      rw [filter_some, ← hrecords.unused]
      cases hunused : record.unused with
      | true =>
        rw [if_pos (hmem.2 hunused)]
        exact Option.Rel.none
      | false =>
        have hnot : id ∉ doomed K order := fun hd => by rw [hmem.1 hd] at hunused; cases hunused
        rw [if_neg hnot, without, if_neg hnot]
        exact Option.Rel.some hrecords

end

end Follows

/-- Each piece in turn gets an extent of the device, which takes it. -/
def Room [DeviceBackend D] (tier : Option StorageTier) : D → List Bytes → Prop
  | _, [] => True
  | device, piece :: rest => ∃ e device' device'',
    DeviceBackend.allocInTier device piece.length tier = .ok (e, device') ∧
      DeviceBackend.write device' e piece = .ok device'' ∧ Room tier device'' rest

structure World (D : Type) where
  disk : Durable D
  mem : Index
  lives : Lives

namespace World
variable {D : Type} [DeviceBackend D]

def fresh (device : D) (pools : Finmap fun _ : String => Nat) : World D :=
  ⟨⟨device, ∅, ∅⟩, ⟨∅, ∅, pools⟩, fun _ => none⟩

def call (w : World D) (op : Op) : World D :=
  let o := op.run w.disk w.mem
  ⟨o.disk, o.mem, if o.value then w.lives.after op else w.lives⟩

inductive Step : World D → World D → Prop
  | call (op : Op) (h : op.Iterates w.mem) : Step w (w.call op)

/-- When a call answers `Ok`. -/
def Succeeds (w : World D) : Op → Prop
  | .writeChunk envelope pool =>
    (∀ l, w.lives envelope.chunkId = some l → l.count < u64Max) ∧
      (w.lives envelope.chunkId = none → Room (tierForPool pool) w.disk.device
        (pieces maxExtentPayloadBytes envelope.ciphertext.length envelope.ciphertext))
  | .incrementRefcount id => ∃ l, w.lives id = some l ∧ l.count < u64Max
  | .decrementRefcount id => ∃ l, w.lives id = some l ∧ 0 < l.count
  | .tryIncrementIfExists id => ∀ l, w.lives id = some l → l.count < u64Max
  | .setRetentionHold id _ => ∃ l, w.lives id = some l
  | .releaseRetentionHold id _ => ∃ l, w.lives id = some l
  | .writeFragment _ _ data tier => Room tier w.disk.device [data]
  | .gc _ => True
  | .deleteFragment _ _ => True

variable [LawfulBackend D]

def Tracks (w : World D) : Prop :=
  ∃ K F c, At K F c w.disk w.mem ∧ Follows w.lives K c

lemma tracks_fresh {live : Finset Extent} (h : LawfulBackend.Holds device live)
    (pools : Finmap fun _ : String => Nat) : (fresh (device : D) pools).Tracks := by
  have hkept : Kept device live (tableOf ∅ ∅) fun _ => [] := by
    have hnil : ∀ o, tableOf ∅ ∅ o = [] := by
      intro o
      cases o with
      | chunk id => rfl
      | fragment key => rfl
      | pending => rfl
    refine ⟨h, ?_, ?_, ?_, ?_⟩
    · intro o e he
      rw [hnil] at he
      cases he
    · intro o
      rw [hnil]
      exact List.nodup_nil
    · intro o o' e he
      rw [hnil] at he
      cases he
    · intro o
      rw [hnil]
      rfl
  exact ⟨∅, ∅, fun _ => [], ⟨⟨rfl, rfl, live, hkept⟩, (fun id record h => by cases h),
    ⟨fun id => rfl, fun key => rfl⟩⟩, fun id => Option.Rel.none⟩

lemma follows_update {d : Durable D} {v : Index} {lives : Lives} {id : ChunkId}
    (hat : At K F c d v) (hfollows : Follows lives K c)
    {f : ChunkRecord → Except ChunkError ChunkRecord} {life : Life → Life} (g : ChunkRecord → α)
    (hf : ∀ old new, f old = .ok new → old.SameData new ∧
      ∀ l data, Records id l old data → Records id (life l) new data) :
    let o := (updateRecord id f >>= fun r => pure (r.map g) : Call D (Except ChunkError α)) d v
    ∃ K', At K' F c o.disk o.mem ∧
      Follows (if o.value.isOk then lives.change id life else lives) K' c := by
  intro o
  have hspec := updateRecord_map_spec (D := D) (K := K) (F := F) (c := c) id
    (fun old new h => (hf old new h).1) g
  rcases (hspec d v hat).2 with ⟨err, hr, hat'⟩ | ⟨old, new, hr, hold, hnew, hat'⟩
  · refine ⟨K, hat', ?_⟩
    rw [show o.value = .error err from hr]
    exact hfollows
  · refine ⟨K.insert id new, hat', ?_⟩
    rw [show o.value = .ok (g new) from hr]
    exact hfollows.change hold (hf old new hnew).2

section Lifes
variable {id : ChunkId} {old new : ChunkRecord} {l : Life} {data : Bytes}

lemma records_write (hnew : old.bump = .ok new) (h : Records id l old data) :
    Records id { l with writes := l.writes + 1 } new data := by
  obtain ⟨hcount, hholds, hsame⟩ := bump_ok hnew
  have hbefore := h.count
  have hafter : new.refcount + l.decrements = l.writes + 1 + l.increments := by omega
  exact h.change hsame hafter (hholds.trans h.holds) rfl

lemma records_increment (hnew : old.bump = .ok new) (h : Records id l old data) :
    Records id { l with increments := l.increments + 1 } new data := by
  obtain ⟨hcount, hholds, hsame⟩ := bump_ok hnew
  have hbefore := h.count
  have hafter : new.refcount + l.decrements = l.writes + (l.increments + 1) := by omega
  exact h.change hsame hafter (hholds.trans h.holds) rfl

lemma records_decrement (hnew : old.drop id = .ok new) (h : Records id l old data) :
    Records id { l with decrements := l.decrements + 1 } new data := by
  obtain ⟨hcount, hholds, hsame⟩ := drop_ok hnew
  have hbefore := h.count
  have hafter : new.refcount + (l.decrements + 1) = l.writes + l.increments := by omega
  exact h.change hsame hafter (hholds.trans h.holds) rfl

lemma records_hold (hnew : old.hold name = .ok new) (h : Records id l old data) :
    Records id { l with holds := if name ∈ l.holds then l.holds else l.holds ++ [name] } new
      data := by
  obtain ⟨hcount, hsame⟩ := hold_ok hnew
  have hholds : new.retentionHolds = if name ∈ l.holds then l.holds else l.holds ++ [name] := by
    rw [← h.holds]
    rw [ChunkRecord.hold] at hnew
    split at hnew
    · cases hnew
      rw [if_pos ‹_›]
    · cases hnew
      rw [if_neg ‹_›]
  exact h.change hsame (hcount ▸ h.count) hholds rfl

lemma records_release (hnew : old.release name = .ok new) (h : Records id l old data) :
    Records id { l with holds := l.holds.filter (· ≠ name) } new data := by
  obtain ⟨hcount, hsame⟩ := release_ok hnew
  have hholds : new.retentionHolds = l.holds.filter (· ≠ name) := by
    cases hnew
    rw [← h.holds]
  exact h.change hsame (hcount ▸ h.count) hholds rfl

end Lifes

section
variable {w : World D} (h : w.Tracks)

include h

lemma Tracks.writeChunk (envelope : Envelope) (pool : String) :
    (w.call (.writeChunk envelope pool)).Tracks := by
  obtain ⟨K, F, c, hat, hfollows⟩ := h
  rcases (writeChunk_spec w.disk w.mem hat).2 with
    ⟨err, hr, hat'⟩ | ⟨old, new, hr, hold, hnew, hat'⟩ | ⟨extents, hr, hnone, hat'⟩
  · refine ⟨K, F, c, hat', ?_⟩
    change Follows (if isOk _ then _ else _) K c
    rw [hr]
    exact hfollows
  · refine ⟨_, F, c, hat', ?_⟩
    change Follows (if isOk _ then _ else _) _ c
    have hsome : w.lives envelope.chunkId ≠ none := by
      rw [Ne, hfollows.eq_none, hold]
      exact some_ne_none old
    rw [hr, Lives.after, if_neg hsome]
    exact hfollows.change hold fun l data => records_write hnew
  · refine ⟨_, F, _, hat', ?_⟩
    change Follows (if isOk _ then _ else _) _ _
    rw [hr, Lives.after, if_pos (hfollows.eq_none.2 hnone)]
    exact hfollows.insert envelope pool extents

lemma Tracks.tryIncrementIfExists (id : ChunkId) :
    (w.call (.tryIncrementIfExists id)).Tracks := by
  obtain ⟨K, F, c, hat, hfollows⟩ := h
  rcases (tryIncrementIfExists_spec w.disk w.mem hat).2 with
    ⟨hr, hnone, hat'⟩ | ⟨err, hr, hat'⟩ | ⟨old, new, hr, hold, hnew, hat'⟩
  · refine ⟨K, F, c, hat', ?_⟩
    change Follows (if isOk _ then _ else _) K c
    rw [hr, Lives.after, Lives.change, hfollows.eq_none.2 hnone, map_none,
      ← hfollows.eq_none.2 hnone, update_eq_self]
    exact hfollows
  · refine ⟨K, F, c, hat', ?_⟩
    change Follows (if isOk _ then _ else _) K c
    rw [hr]
    exact hfollows
  · refine ⟨_, F, c, hat', ?_⟩
    change Follows (if isOk _ then _ else _) _ c
    rw [hr]
    exact hfollows.change hold fun l data => records_increment hnew

lemma Tracks.call (hop : op.Iterates w.mem) :
    (w.call op).Tracks := by
  have htracks := h
  obtain ⟨K, F, c, hat, hfollows⟩ := h
  cases op with
  | writeChunk envelope pool => exact htracks.writeChunk envelope pool
  | incrementRefcount id =>
    obtain ⟨K', hat', hfollows'⟩ := follows_update hat hfollows ChunkRecord.refcount
      fun old new hnew => ⟨(bump_ok hnew).2.2, fun l data => records_increment hnew⟩
    exact ⟨K', F, c, hat', hfollows'⟩
  | decrementRefcount id =>
    obtain ⟨K', hat', hfollows'⟩ := follows_update hat hfollows ChunkRecord.refcount
      fun old new hnew => ⟨(drop_ok hnew).2.2, fun l data => records_decrement hnew⟩
    exact ⟨K', F, c, hat', hfollows'⟩
  | tryIncrementIfExists id => exact htracks.tryIncrementIfExists id
  | setRetentionHold id name =>
    obtain ⟨K', hat', hfollows'⟩ := follows_update hat hfollows (fun _ => ())
      fun old new hnew => ⟨(hold_ok hnew).2, fun l data => records_hold hnew⟩
    exact ⟨K', F, c, hat', hfollows'⟩
  | releaseRetentionHold id name =>
    obtain ⟨K', hat', hfollows'⟩ := follows_update hat hfollows (fun _ => ())
      fun old new hnew => ⟨(release_ok hnew).2, fun l data => records_release hnew⟩
    exact ⟨K', F, c, hat', hfollows'⟩
  | gc order =>
    have hall : ∀ id, K.lookup id ≠ none → id ∈ order := by
      intro id hid
      rw [hop.2, hat.mirrors.mem_chunks]
      exact isSome_iff_ne_none.2 hid
    exact ⟨_, F, _, (gc_spec hop.1 w.disk w.mem hat).2.2, hfollows.collect hall⟩
  | writeFragment id index data tier =>
    have hlives : (w.call (.writeFragment id index data tier)).lives = w.lives := ite_self _
    rcases (writeFragmentTier_spec w.disk w.mem hat).2 with ⟨err, _, hat'⟩ | ⟨e, _, hat'⟩
    · exact ⟨K, F, c, hat', hlives ▸ hfollows⟩
    · exact ⟨K, _, _, hat', hlives ▸ hfollows.fragment (id, index) data⟩
  | deleteFragment id index =>
    have hlives : (w.call (.deleteFragment id index)).lives = w.lives := ite_self _
    exact ⟨K, _, _, (deleteFragment_spec id index w.disk w.mem hat).2.2,
      hlives ▸ hfollows.fragment (id, index) []⟩

end

lemma Tracks.run {w w' : World D} (h : w.Tracks) (hrun : ReflTransGen Step w w') : w'.Tracks := by
  induction hrun with
  | refl => exact h
  | tail _ hstep ih =>
    cases hstep with
    | call op hop => exact ih.call hop

end World

def Index.extentsOf (v : Index) : Owner → List Extent
  | .chunk id => ((v.chunks.lookup id).map ChunkEntry.extents).getD []
  | .fragment key => (v.fragments.lookup key).toList
  | .pending => []

lemma Mirrors.extentsOf (h : Mirrors v K F) : v.extentsOf = tableOf K F := by
  funext o
  cases o with
  | chunk id =>
    rw [Index.extentsOf, h.chunks, tableOf, Option.map_map]
    rfl
  | fragment key => rw [Index.extentsOf, h.fragments, tableOf]
  | pending => rfl

section Refinement
variable {D : Type} [DeviceBackend D] [LawfulBackend D] {K : ChunkRows} {F : FragmentRows}
  {c : Owner → Bytes} {d : Durable D} {v : Index}

lemma At.readChunk_none (h : At K F c d v) {id : ChunkId} (hnone : K.lookup id = none) :
    readChunk d v id = .error (.notFound id) := by
  rw [readChunk, h.mirrors.chunks, hnone]
  rfl

lemma At.readChunk_some (h : At K F c d v) {id : ChunkId} (hsome : K.lookup id = some record)
    (hrecords : Records id l record (c (.chunk id))) : readChunk d v id = .ok l.first := by
  obtain ⟨_, _, live, hkept⟩ := h.rests
  have hread := hkept.reads (.chunk id)
  rw [tableOf, hsome] at hread
  have hid := h.keyed id record hsome
  rw [readChunk, h.mirrors.chunks, hsome, hrecords.first]
  simp only [map_some, reconstructEnvelope]
  rw [show readExtents d.device (extentsFromRecord record) = .ok (c (.chunk id)) from hread, hid]

lemma At.gc_lookup (h : At K F c d v) {order : List ChunkId} (horder : order.Nodup)
    (hall : ∀ id, id ∈ order ↔ id ∈ v.chunks) (id : ChunkId) :
    (gc order d v).mem.chunks.lookup id =
      (v.chunks.lookup id).filter fun entry => !entry.record.unused := by
  have hat := (gc_spec horder d v h).2.2
  rw [hat.mirrors.chunks, lookup_eraseAll, h.mirrors.chunks]
  cases hrecord : K.lookup id with
  | none =>
    rw [ite_self]
    rfl
  | some record =>
    have hmem : id ∈ order := by
      rw [hall, h.mirrors.mem_chunks, hrecord]
      rfl
    cases hunused : record.unused with
    | true =>
      rw [if_pos (mem_doomed.2 ⟨hmem, record, hrecord, hunused⟩)]
      simp only [map_none, map_some, filter_some, hunused]
      rfl
    | false =>
      rw [if_neg]
      · simp only [map_some, filter_some, hunused]
        rfl
      · intro hd
        obtain ⟨_, record', heq, hunused'⟩ := mem_doomed.1 hd
        rw [hrecord] at heq
        rw [some.inj heq, hunused'] at hunused
        cases hunused

end Refinement

section Outcomes

lemma value_updateRecord {d : Durable D} {v : Index} {id : ChunkId}
    (f : ChunkRecord → Except ChunkError ChunkRecord) :
    (updateRecord id f d v).value =
      match v.chunks.lookup id with
      | none => .error (.notFound id)
      | some entry => f entry.record := by
  rw [updateRecord, read_mem_bind]
  cases v.chunks.lookup id with
  | none => rfl
  | some entry =>
    dsimp only
    cases f entry.record with
    | error err => rfl
    | ok record => rfl

variable {D : Type} [DeviceBackend D] {d : Durable D} {v : Index} {id : ChunkId}

lemma allocInTier_eq (size : Nat) (tier : Option StorageTier) :
    Chunk.allocInTier size tier d v =
      match DeviceBackend.allocInTier d.device size tier with
      | .error err => ⟨[], d, v, .error err⟩
      | .ok (e, device) =>
        ⟨[{ d with device := device }], { d with device := device }, v, .ok e⟩ := by
  rw [Chunk.allocInTier, read_disk_bind]
  cases DeviceBackend.allocInTier d.device size tier with
  | error err => rfl
  | ok r => rfl

lemma write_eq (e : Extent) (data : Bytes) :
    Chunk.write e data d v =
      match DeviceBackend.write d.device e data with
      | .error err => ⟨[], d, v, .error err⟩
      | .ok device => ⟨[{ d with device := device }], { d with device := device }, v, .ok ()⟩ := by
  rw [Chunk.write, read_disk_bind]
  cases DeviceBackend.write d.device e data with
  | error err => rfl
  | ok device => rfl

lemma isOk_writePieces (tier : Option StorageTier) (extents : List Extent) (ps : List Bytes) :
    (writePieces tier extents ps d v).value.isOk = true ↔ Room tier d.device ps := by
  induction ps generalizing extents d with
  | nil => exact iff_of_true rfl trivial
  | cons p ps ih =>
    rw [writePieces, value_bind, allocInTier_eq, Room]
    cases DeviceBackend.allocInTier d.device p.length tier with
    | error err => exact iff_of_false Bool.false_ne_true nofun
    | ok r =>
      obtain ⟨e, device⟩ := r
      dsimp only
      rw [value_bind, write_eq]
      cases hwrite : DeviceBackend.write device e p with
      | error err =>
        dsimp only
        refine iff_of_false Bool.false_ne_true ?_
        rintro ⟨_, _, _, ⟨⟩, heq, _⟩
        cases hwrite.symm.trans heq
      | ok device' =>
        dsimp only
        rw [ih]
        constructor
        · exact fun h => ⟨e, device, device', rfl, hwrite, h⟩
        · rintro ⟨_, _, _, ⟨⟩, heq, h⟩
          cases hwrite.symm.trans heq
          exact h

lemma isOk_placeChunk (data : Bytes) (tier : Option StorageTier) :
    (placeChunk data tier d v).value.isOk = true ↔
      Room tier d.device (pieces maxExtentPayloadBytes data.length data) := by
  rw [placeChunk]
  split
  · next hempty =>
    rw [List.isEmpty_iff.1 hempty]
    exact iff_of_true rfl trivial
  · exact isOk_writePieces tier [] _

lemma isOk_writeFragmentTier (index : Nat) (data : Bytes) (tier : Option StorageTier) :
    (writeFragmentTier id index data tier d v).value.isOk = true ↔ Room tier d.device [data] := by
  have hplace : (writeFragmentTier id index data tier d v).value.isOk =
      (placeFragment data tier d v).value.isOk := by
    rw [writeFragmentTier, value_bind]
    cases (placeFragment data tier d v).value with
    | error err => rfl
    | ok e => rfl
  rw [hplace, ← isOk_writePieces (v := v) tier [] [data], Bool.coe_iff_coe, placeFragment,
    writePieces, value_bind, value_bind, allocInTier_eq]
  cases DeviceBackend.allocInTier d.device data.length tier with
  | error err => rfl
  | ok r =>
    dsimp only
    rw [value_bind, value_bind, write_eq]
    cases DeviceBackend.write r.2 r.1 data with
    | error err => rfl
    | ok device => rfl

variable [LawfulBackend D] {K : ChunkRows} {F : FragmentRows} {c : Owner → Bytes} {lives : Lives}

lemma Records.refcount (h : Records id l record data) : record.refcount = l.count := by
  have hcount := h.count
  rw [Life.count]
  omega

lemma isOk_bump (h : Records id l record data) : record.bump.isOk = true ↔ l.count < u64Max := by
  rw [ChunkRecord.bump, h.refcount]
  split
  · exact iff_of_true rfl ‹_›
  · exact iff_of_false Bool.false_ne_true ‹_›

lemma isOk_drop (h : Records id l record data) : (record.drop id).isOk = true ↔ 0 < l.count := by
  rw [ChunkRecord.drop, h.refcount]
  split
  · exact iff_of_false Bool.false_ne_true (by omega)
  · exact iff_of_true rfl (by omega)

section
variable (hat : At K F c d v) (hfollows : Follows lives K c)

include hat hfollows

lemma isOk_updateRecord (id : ChunkId) {f : ChunkRecord → Except ChunkError ChunkRecord}
    (g : ChunkRecord → α) {p : Life → Prop}
    (hf : ∀ l record data, Records id l record data → ((f record).isOk = true ↔ p l)) :
    ((updateRecord id f >>= fun r => pure (r.map g) : Call D _) d v).value.isOk = true ↔
      ∃ l, lives id = some l ∧ p l := by
  have hmap : ∀ r : Except ChunkError ChunkRecord, (r.map g).isOk = r.isOk := fun r => by
    cases r <;> rfl
  rw [value_bind]
  change ((updateRecord id f d v).value.map g).isOk = true ↔ _
  rw [hmap, value_updateRecord, hat.mirrors.chunks]
  have hid := hfollows id
  generalize lives id = life at hid
  generalize K.lookup id = row at hid
  cases hid with
  | none => exact iff_of_false Bool.false_ne_true nofun
  | some hrecords =>
    refine (hf _ _ _ hrecords).trans ⟨fun h => ⟨_, rfl, h⟩, ?_⟩
    rintro ⟨_, ⟨⟩, h⟩
    exact h

lemma mem_chunks_iff (id : ChunkId) : id ∈ v.chunks ↔ ∃ l, lives id = some l := by
  rw [hat.mirrors.mem_chunks, Option.isSome_iff_ne_none, Ne, ← hfollows.eq_none,
    ← Ne, Option.ne_none_iff_exists']

lemma isOk_writeChunk (envelope : Envelope) (pool : String) :
    (Chunk.writeChunk envelope pool d v).value.isOk = true ↔
      (∀ l, lives envelope.chunkId = some l → l.count < u64Max) ∧
        (lives envelope.chunkId = none → Room (tierForPool pool) d.device
          (pieces maxExtentPayloadBytes envelope.ciphertext.length envelope.ciphertext)) := by
  rw [Chunk.writeChunk, read_mem_bind]
  by_cases hin : envelope.chunkId ∈ v.chunks
  · rw [if_pos hin]
    obtain ⟨l, hl⟩ := (mem_chunks_iff hat hfollows _).1 hin
    refine (isOk_updateRecord hat hfollows envelope.chunkId (fun _ => false)
      fun _ _ _ => isOk_bump).trans ?_
    rw [hl]
    simp
  · rw [if_neg hin, value_bind]
    have hnone : lives envelope.chunkId = none := by
      by_contra hne
      exact hin ((mem_chunks_iff hat hfollows _).2 (Option.ne_none_iff_exists'.1 hne))
    have hmem := (placeChunk_spec envelope.ciphertext (tierForPool pool) d v ⟨rfl, hat.rests⟩).2.1
    rw [hnone, ← isOk_placeChunk (v := v), hmem]
    cases (placeChunk envelope.ciphertext (tierForPool pool) d v).value with
    | error err => exact ⟨nofun, fun h => h.2 rfl⟩
    | ok extents =>
      dsimp only
      rw [read_mem_bind, if_neg hin]
      exact iff_of_true rfl ⟨nofun, fun _ => rfl⟩

lemma isOk_tryIncrementIfExists (id : ChunkId) :
    (Chunk.tryIncrementIfExists id d v).value.isOk = true ↔
      ∀ l, lives id = some l → l.count < u64Max := by
  rw [Chunk.tryIncrementIfExists, read_mem_bind]
  by_cases hin : id ∈ v.chunks
  · rw [if_pos hin]
    obtain ⟨l, hl⟩ := (mem_chunks_iff hat hfollows _).1 hin
    refine (isOk_updateRecord hat hfollows id (fun record => some record.refcount)
      fun _ _ _ => isOk_bump).trans ?_
    rw [hl]
    simp
  · rw [if_neg hin]
    exact iff_of_true rfl fun l hl => absurd ((mem_chunks_iff hat hfollows id).2 ⟨l, hl⟩) hin

end

lemma World.Tracks.succeeds_iff {w : World D} (h : w.Tracks) (op : Op) :
    (op.run w.disk w.mem).value = true ↔ w.Succeeds op := by
  obtain ⟨K, F, c, hat, hfollows⟩ := h
  cases op with
  | writeChunk envelope pool => exact isOk_writeChunk hat hfollows envelope pool
  | incrementRefcount id =>
    exact isOk_updateRecord hat hfollows id ChunkRecord.refcount fun _ _ _ => isOk_bump
  | decrementRefcount id =>
    exact isOk_updateRecord hat hfollows id ChunkRecord.refcount fun _ _ _ => isOk_drop
  | tryIncrementIfExists id => exact isOk_tryIncrementIfExists hat hfollows id
  | setRetentionHold id name =>
    refine (isOk_updateRecord hat hfollows id (fun _ => ()) (p := fun _ => True) ?_).trans
      (by simp only [and_true]; rfl)
    intro l record data _
    rw [ChunkRecord.hold]
    split <;> exact iff_of_true rfl trivial
  | releaseRetentionHold id name =>
    exact (isOk_updateRecord hat hfollows id (fun _ => ()) (p := fun _ => True)
      fun _ _ _ _ => iff_of_true rfl trivial).trans (by simp only [and_true]; rfl)
  | gc order => exact iff_of_true rfl trivial
  | writeFragment id index data tier => exact isOk_writeFragmentTier index data tier
  | deleteFragment id index =>
    have hok := (deleteFragment_spec id index w.disk w.mem hat).2.1
    refine iff_of_true ?_ trivial
    change isOk _ = true
    rw [hok]
    rfl

end Outcomes

/-- Every run follows the reference-counted map, and calls answer as it says. -/
theorem chunk_store_refines {D : Type} [DeviceBackend D] [LawfulBackend D] {device : D}
    {live : Finset Extent} (hdevice : LawfulBackend.Holds device live)
    {pools : Finmap fun _ : String => Nat} {w : World D}
    (hrun : ReflTransGen World.Step (World.fresh device pools) w) :
    (∀ id, w.lives id = none → readChunk w.disk w.mem id = .error (.notFound id)) ∧
      (∀ id l, w.lives id = some l → readChunk w.disk w.mem id = .ok l.first ∧
        ∃ n, refcount w.mem id = .ok n ∧ n + l.decrements = l.writes + l.increments) ∧
      (∀ order : List ChunkId, order.Nodup → (∀ id, id ∈ order ↔ id ∈ w.mem.chunks) →
        ∀ id, (gc order w.disk w.mem).mem.chunks.lookup id =
          (w.mem.chunks.lookup id).filter fun entry =>
            !(entry.record.refcount = 0 && entry.record.retentionHolds.isEmpty)) ∧
      (∀ op : Op, (op.run w.disk w.mem).value = true ↔ w.Succeeds op) ∧
      (∀ o e, e ∈ w.mem.extentsOf o → LawfulBackend.Marked w.disk.device e) ∧
      ∀ (o o' : Owner) (i j : Nat) (e e' : Extent), (w.mem.extentsOf o)[i]? = some e →
        (w.mem.extentsOf o')[j]? = some e' → (o, i) ≠ (o', j) → e.Disjoint e' := by
  have htracks : w.Tracks := (World.tracks_fresh hdevice pools).run hrun
  obtain ⟨K, F, c, hat, hfollows⟩ := id htracks
  obtain ⟨_, _, live', hkept⟩ := hat.rests
  rw [hat.mirrors.extentsOf]
  refine ⟨?_, ?_, ?_, htracks.succeeds_iff, ?_, ?_⟩
  · intro id hnone
    exact hat.readChunk_none (hfollows.eq_none.1 hnone)
  · intro id l hl
    obtain ⟨record, hrecord, hrecords⟩ := hfollows.record hl
    refine ⟨hat.readChunk_some hrecord hrecords, record.refcount, ?_, hrecords.count⟩
    rw [refcount, hat.mirrors.chunks, hrecord]
    rfl
  · intro order horder hall id
    exact hat.gc_lookup horder hall id
  · intro o e he
    exact LawfulBackend.marked hkept.holds (hkept.owned o e he)
  · intro o o' i j e e' he he' hne
    exact hkept.disjoint he he' hne

def small : Envelope where
  ciphertext := [1, 2, 3, 4, 5]
  authTag := .replicate 16 7
  nonce := .replicate 12 8
  systemEpoch := 3
  tenantEpoch := some 4
  tenantWrappedMaterial := some [9]
  chunkId := ⟨.replicate 32 1⟩

/-- Written twice, held, and dropped twice: the first collection leaves the chunk. -/
def heldOps : List Op :=
  [.writeChunk small "bulk", .writeChunk small "bulk", .setRetentionHold small.chunkId "legal",
    .decrementRefcount small.chunkId, .decrementRefcount small.chunkId, .gc [small.chunkId]]

lemma iterates_one {w : World D} (h : w.mem.chunks.keys = {small.chunkId}) :
    (Op.gc [small.chunkId]).Iterates w.mem := by
  refine ⟨List.nodup_singleton _, fun id => ?_⟩
  rw [← Finmap.mem_keys, h, Finset.mem_singleton, List.mem_singleton]

theorem chunk_store_refines_held :
    let w := heldOps.foldl World.call (World.fresh tiny ∅)
    let w' := (w.call (.releaseRetentionHold small.chunkId "legal")).call (.gc [small.chunkId])
    readChunk w.disk w.mem small.chunkId = .ok small ∧ refcount w.mem small.chunkId = .ok 0 ∧
      ¬((Op.decrementRefcount small.chunkId).run w.disk w.mem).value = true ∧
      readChunk w'.disk w'.mem small.chunkId = .error (.notFound small.chunkId) := by
  intro w w'
  have hrun : ReflTransGen World.Step (World.fresh tiny ∅) w :=
    .tail (.tail (.tail (.tail (.tail (.single (.call (.writeChunk small "bulk") trivial))
      (.call (.writeChunk small "bulk") trivial))
      (.call (.setRetentionHold small.chunkId "legal") trivial))
      (.call (.decrementRefcount small.chunkId) trivial))
      (.call (.decrementRefcount small.chunkId) trivial))
      (.call _ (iterates_one (by decide +kernel)))
  have hrun' : ReflTransGen World.Step (World.fresh tiny ∅) w' :=
    .tail (.tail hrun (.call (.releaseRetentionHold small.chunkId "legal") trivial))
      (.call _ (iterates_one (by decide +kernel)))
  have hlife : w.lives small.chunkId = some ⟨small, 2, 0, 2, ["legal"]⟩ := by decide +kernel
  have hgone : w'.lives small.chunkId = none := by decide +kernel
  obtain ⟨_, hpresent, _, hanswers, _⟩ := chunk_store_refines (holds_init _) hrun
  obtain ⟨hread, n, hn, hcount⟩ := hpresent _ _ hlife
  refine ⟨hread, ?_, fun hok => ?_, (chunk_store_refines (holds_init _) hrun').1 _ hgone⟩
  · rw [hn, show n = 0 from Nat.add_right_cancel hcount]
  · obtain ⟨l, hl, hpos⟩ := (hanswers _).1 hok
    rw [hlife] at hl
    cases hl
    exact absurd hpos (by decide)

end Kiseki.Chunk
