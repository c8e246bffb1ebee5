import Kiseki.Chunk.Custody

namespace Kiseki.Chunk

open Crash Kiseki.Block Function Triple Maps
open List hiding drop

abbrev ChunkRows := Finmap fun _ : ChunkId => ChunkRecord

abbrev FragmentRows := Finmap fun _ : FragmentKey => FragmentRecord

def tableOf (chunks : ChunkRows) (fragments : FragmentRows) : Owner → List Extent
  | .chunk id => ((chunks.lookup id).map extentsFromRecord).getD []
  | .fragment key => ((fragments.lookup key).map FragmentRecord.extent).toList
  | .pending => []

section Table
variable {K : ChunkRows} {F : FragmentRows} {id : ChunkId}

lemma tableOf_insert_chunk (record : ChunkRecord) :
    tableOf (K.insert id record) F =
      update (tableOf K F) (.chunk id) (extentsFromRecord record) := by
  funext o
  cases o with
  | chunk id' =>
    simp only [tableOf, lookup_insert, update_apply, Owner.chunk.injEq]
    split <;> rfl
  | fragment key => rfl
  | pending => rfl

lemma tableOf_erase_chunk : tableOf (K.erase id) F = update (tableOf K F) (.chunk id) [] := by
  funext o
  cases o with
  | chunk id' =>
    simp only [tableOf, lookup_erase, update_apply, Owner.chunk.injEq]
    split <;> rfl
  | fragment key => rfl
  | pending => rfl

variable {key : FragmentKey}

lemma tableOf_insert_fragment (record : FragmentRecord) :
    tableOf K (F.insert key record) =
      update (tableOf K F) (.fragment key) [record.extent] := by
  funext o
  cases o with
  | chunk id => rfl
  | fragment key' =>
    simp only [tableOf, lookup_insert, update_apply, Owner.fragment.injEq]
    split <;> rfl
  | pending => rfl

lemma tableOf_erase_fragment :
    tableOf K (F.erase key) = update (tableOf K F) (.fragment key) [] := by
  funext o
  cases o with
  | chunk id => rfl
  | fragment key' =>
    simp only [tableOf, lookup_erase, update_apply, Owner.fragment.injEq]
    split <;> rfl
  | pending => rfl

end Table

lemma extentsFromRecord_newRecord {extents : List Extent} (h : ∀ e ∈ extents, 0 < e.length) :
    extentsFromRecord (newRecord envelope pool extents) = extents := by
  cases extents with
  | nil => rfl
  | cons e extents =>
    have hpos : 0 < (newRecord envelope pool (e :: extents)).extentLength :=
      h e mem_cons_self
    rw [extentsFromRecord, if_pos hpos]
    simp only [newRecord, tail_cons, map_map]
    exact congrArg _ (map_id extents)

section Steps
variable {D : Type} [DeviceBackend D] [LawfulBackend D] {K : ChunkRows} {F : FragmentRows}
  {V : Index} {t : Owner → List Extent} {c : Owner → Bytes}

/-- The disk between two durable steps of a call. -/
def Rests (K : ChunkRows) (F : FragmentRows) (t : Owner → List Extent) (c : Owner → Bytes)
    (d : Durable D) : Prop :=
  d.chunks = K ∧ d.fragments = F ∧ ∃ live, Kept d.device live t c

lemma Rests.forget (h : Rests K F t c d) (o : Owner) :
    Rests K F (update t o []) (update c o []) (d : Durable D) := by
  obtain ⟨hK, hF, live, hkept⟩ := h
  exact ⟨hK, hF, live, hkept.forget o⟩

lemma Rests.settle (h : Rests K F t c d) (o : Owner) :
    Rests K F (update (update t .pending []) o (t .pending))
      (update (update c .pending []) o (c .pending)) (d : Durable D) := by
  obtain ⟨hK, hF, live, hkept⟩ := h
  exact ⟨hK, hF, live, hkept.settle o⟩

def Spare (t : Owner → List Extent) (c : Owner → Bytes) (size : Nat) (e : Extent)
    (d : Durable D) : Prop :=
  ∃ live, Kept d.device live t c ∧ e ∈ live ∧ (∀ o, e ∉ t o) ∧ size + overhead ≤ e.length

lemma allocInTier_spec : Triple (fun d v => v = V ∧ Rests K F t c d)
    (allocInTier (D := D) size tier)
    (fun r d v => v = V ∧ Rests K F t c d ∧ ∀ e, r = .ok e → Spare t c size e d)
    (Rests K F t c) := by
  apply bind_disk
  intro a
  cases hok : DeviceBackend.allocInTier a.device size tier with
  | error err =>
    apply ret
    intro d v h
    obtain ⟨⟨hv, hrests⟩, _⟩ := h
    exact ⟨hv, hrests, fun e he => by cases he⟩
  | ok r =>
    obtain ⟨e, device⟩ := r
    apply bind (Q := fun _ d v => v = V ∧ Rests K F t c d ∧ Spare t c size e d)
    · apply commit
      intro d v h
      obtain ⟨⟨hv, hK, hF, live, hkept⟩, rfl⟩ := h
      obtain ⟨hkept', hfree, hsize⟩ := hkept.alloc hok
      have hrests : Rests K F t c { d with device := device } := ⟨hK, hF, _, hkept'⟩
      exact ⟨⟨hv, hrests, _, hkept', Finset.mem_insert_self e live, hfree, hsize⟩, hrests⟩
    · intro _
      apply ret
      intro d v h
      exact ⟨h.1, h.2.1, fun e' he' => Except.ok.inj he' ▸ h.2.2⟩

lemma write_spec (hlen : data.length ≤ u32Max) :
    Triple (fun d v => v = V ∧ d.chunks = K ∧ d.fragments = F ∧ Spare t c data.length e d)
      (write (D := D) e data)
      (fun r d v => r = .ok () ∧ v = V ∧
        Rests K F (update t .pending (t .pending ++ [e]))
          (update c .pending (c .pending ++ data)) d)
      (Rests K F (update t .pending (t .pending ++ [e]))
        (update c .pending (c .pending ++ data))) := by
  apply bind_disk
  intro a d v h
  obtain ⟨⟨hv, hK, hF, live, hkept, he, hfree, hsize⟩, rfl⟩ := h
  have hfits : e.Fits data := ⟨hlen, Nat.le_sub_of_add_le hsize⟩
  obtain ⟨device', hok, hkept'⟩ := hkept.write he hfree hfits
  have hrests : Rests K F (update t .pending (t .pending ++ [e]))
      (update c .pending (c .pending ++ data)) { d with device := device' } :=
    ⟨hK, hF, live, hkept'⟩
  rw [hok]
  refine ⟨?_, rfl, hv, hrests⟩
  intro d' hd
  rw [mem_singleton.1 hd]
  exact hrests

lemma write_rejects_spec (hlen : u32Max < data.length) :
    Triple (fun d v => v = V ∧ d.chunks = K ∧ d.fragments = F ∧ Spare t c data.length e d)
      (write (D := D) e data)
      (fun r d v => (∃ err, r = .error err) ∧ v = V ∧ Rests K F t c d) (Rests K F t c) := by
  apply bind_disk
  intro a d v h
  obtain ⟨⟨hv, hK, hF, live, hkept, he, _, _⟩, rfl⟩ := h
  have hfits : ¬e.Fits data := fun hfits => absurd hfits.1 (Nat.not_le_of_lt hlen)
  obtain ⟨err, hok⟩ := LawfulBackend.rejects hkept.holds he hfits
  rw [hok]
  exact ⟨fun d' hd => absurd hd not_mem_nil, ⟨err, rfl⟩, hv, hK, hF, live, hkept⟩

lemma free_spec (ho : t o = e :: extents) :
    Triple (fun d v => v = V ∧ Rests K F t c d) (free (D := D) e)
      (fun r d v => r = .ok () ∧ ∃ data, v = V ∧
        Rests K F (update t o extents) (update c o data) d)
      (Rests K F (update t o []) (update c o [])) := by
  apply bind_disk
  intro a d v h
  obtain ⟨⟨hv, hK, hF, live, hkept⟩, rfl⟩ := h
  have he : e ∈ live := hkept.owned o e (ho ▸ mem_cons_self)
  obtain ⟨data, hbehead, hfree⟩ := hkept.behead ho
  obtain ⟨device', hok, hkept'⟩ := hbehead.free he hfree
  have hrests : Rests K F (update t o extents) (update c o data)
      { d with device := device' } := ⟨hK, hF, _, hkept'⟩
  rw [hok]
  refine ⟨?_, rfl, data, hv, hrests⟩
  intro d' hd
  rw [mem_singleton.1 hd]
  have hforget := hrests.forget o
  rwa [update_idem, update_idem] at hforget

lemma freeAll_spec (ho : t o = extents) :
    Triple (fun d v => v = V ∧ Rests K F t c d) (freeAll (D := D) extents)
      (fun _ d v => v = V ∧ Rests K F (update t o []) (update c o []) d)
      (Rests K F (update t o []) (update c o [])) := by
  induction extents generalizing t c with
  | nil =>
    apply ret
    intro d v h
    exact ⟨h.1, h.2.forget o⟩
  | cons e extents ih =>
    apply Triple.bind (free_spec ho)
    intro r
    apply weaken (P := fun d v => ∃ data, v = V ∧
      Rests K F (update t o extents) (update c o data) d) ?_
      (fun d v h => h.2) (fun _ _ _ h => h) (fun _ h => h)
    apply of_exists
    intro data
    have hrest := ih (c := update c o data) (update_self o extents t)
    rwa [update_idem, update_idem] at hrest

lemma freeUntilError_spec (ho : t o = extents) :
    Triple (fun d v => v = V ∧ Rests K F t c d) (freeUntilError (D := D) extents)
      (fun r d v => r = true ∧ v = V ∧
        Rests K F (update t o []) (update c o []) d)
      (Rests K F (update t o []) (update c o [])) := by
  induction extents generalizing t c with
  | nil =>
    apply ret
    intro d v h
    exact ⟨rfl, h.1, h.2.forget o⟩
  | cons e extents ih =>
    apply Triple.bind (free_spec ho)
    intro r
    apply of_pure (fun _ _ h => h.1)
    intro hr
    subst hr
    apply weaken (P := fun d v => ∃ data, v = V ∧
      Rests K F (update t o extents) (update c o data) d) ?_
      (fun d v h => h.2) (fun _ _ _ h => h) (fun _ h => h)
    apply of_exists
    intro data
    have hrest := ih (c := update c o data) (update_self o extents t)
    rwa [update_idem, update_idem] at hrest

lemma flatten_pieces (hn : 0 < n) {fuel : Nat} {data : Bytes} (h : data.length ≤ fuel) :
    (pieces n fuel data).flatten = data := by
  induction fuel generalizing data with
  | zero => exact (length_eq_zero_iff.1 (Nat.le_zero.1 h)).symm
  | succ fuel ih =>
    rw [pieces]
    split
    · have hnil : data = [] := isEmpty_iff.1 ‹_›
      rw [hnil]
      rfl
    · have hrest : (data.drop n).length ≤ fuel := by
        rw [length_drop]
        omega
      rw [flatten_cons, ih hrest, take_append_drop]

lemma length_le_of_mem_pieces {fuel : Nat} {data piece : Bytes}
    (h : piece ∈ pieces n fuel data) : piece.length ≤ n := by
  induction fuel generalizing data with
  | zero => cases h
  | succ fuel ih =>
    rw [pieces] at h
    split at h
    · cases h
    · rcases mem_cons.1 h with rfl | h
      · exact length_take_le _ _
      · exact ih h

lemma writePieces_spec (tier : Option StorageTier) {extents : List Extent} {ps : List Bytes}
    (hps : ∀ p ∈ ps, p.length ≤ maxExtentPayloadBytes) (ht : t .pending = extents) :
    Triple (fun d v => v = V ∧ Rests K F t c d) (writePieces (D := D) tier extents ps)
      (fun r d v => v = V ∧
        ((∃ err, r = .error err ∧
          Rests K F (update t .pending []) (update c .pending []) d) ∨
        ∃ placed, r = .ok placed ∧ Rests K F (update t .pending placed)
          (update c .pending (c .pending ++ ps.flatten)) d))
      (Rests K F (update t .pending []) (update c .pending [])) := by
  induction ps generalizing t c extents with
  | nil =>
    apply ret
    intro d v h
    refine ⟨h.1, Or.inr ⟨extents, rfl, ?_⟩⟩
    rw [flatten_nil, append_nil, ← ht, update_eq_self, update_eq_self]
    exact h.2
  | cons p ps ih =>
    have hforget : ∀ d : Durable D, Rests K F t c d →
        Rests K F (update t .pending []) (update c .pending []) d :=
      fun d h => h.forget .pending
    apply bind (allocInTier_spec.weaken (fun _ _ h => h) (fun _ _ _ h => h) hforget)
    intro r
    cases r with
    | error err =>
      -- what was written so far is freed again
      apply bind (Q := fun _ d v => v = V ∧
        Rests K F (update t .pending []) (update c .pending []) d)
      · exact (freeAll_spec ht).weaken (fun _ _ h => ⟨h.1, h.2.1⟩) (fun _ _ _ h => h)
          (fun _ h => h)
      · intro _
        apply ret
        intro d v h
        exact ⟨h.1, Or.inl ⟨_, rfl, h.2⟩⟩
    | ok e =>
      have hlen : p.length ≤ u32Max := by
        refine le_trans (hps p mem_cons_self) ?_
        decide
      have hwrite := write_spec (D := D) (V := V) (K := K) (F := F) (t := t) (c := c) (e := e) hlen
      apply bind (hwrite.weaken (fun d v h => ⟨h.1, h.2.1.1, h.2.1.2.1, h.2.2 e rfl⟩)
        (fun _ _ _ h => h) ?_)
      · intro r
        apply of_pure fun _ _ h => h.1
        intro hr
        subst hr
        have hrest := ih (c := update c .pending (c .pending ++ p))
          (fun p hp => hps p (mem_cons_of_mem _ hp))
          (update_self Owner.pending (t .pending ++ [e]) t)
        simp only [update_idem, update_self, append_assoc] at hrest
        rw [ht] at hrest
        rw [flatten_cons]
        exact hrest.weaken (fun _ _ h => ht ▸ h.2) (fun _ _ _ h => h) (fun _ h => h)
      · intro d h
        have hgone := h.forget .pending
        rwa [update_idem, update_idem] at hgone

end Steps

/-- The maps in memory are those that `open` would build. -/
structure Mirrors (v : Index) (K : ChunkRows) (F : FragmentRows) : Prop where
  chunks : ∀ id, v.chunks.lookup id = (K.lookup id).map fun r => ⟨r, extentsFromRecord r⟩
  fragments : ∀ key, v.fragments.lookup key = (F.lookup key).map FragmentRecord.extent

def Keyed (K : ChunkRows) : Prop := ∀ id record, K.lookup id = some record → record.chunkId = id

lemma Keyed.insert (h : Keyed K) {id : ChunkId} {record : ChunkRecord} (hid : record.chunkId = id) :
    Keyed (K.insert id record) := forall_insert h hid

lemma Mirrors.mem_chunks {id : ChunkId} (h : Mirrors v K F) : id ∈ v.chunks ↔
    (K.lookup id).isSome := by
  rw [← Finmap.lookup_isSome, h.chunks, Option.isSome_map]

lemma Mirrors.insert (h : Mirrors v K F) (id : ChunkId) (record : ChunkRecord)
    (pools : Finmap fun _ : String => Nat) :
    Mirrors { v with
      pools := pools
      chunks := v.chunks.insert id ⟨record, extentsFromRecord record⟩ } (K.insert id record) F where
  chunks id' := by
    rw [lookup_insert, lookup_insert, h.chunks]
    split
    · rfl
    · rfl
  fragments := h.fragments

def ChunkRecord.SameData (record record' : ChunkRecord) : Prop :=
  record' = { record with
    refcount := record'.refcount, retentionHolds := record'.retentionHolds }

lemma ChunkRecord.SameData.extents (h : SameData record record') :
    extentsFromRecord record' = extentsFromRecord record := by
  rw [h]
  rfl

lemma ChunkRecord.SameData.chunkId (h : SameData record record') :
    record'.chunkId = record.chunkId := by
  rw [h]

section Changes
open ChunkRecord
variable {record record' : ChunkRecord} {id : ChunkId} {name : String}

lemma bump_ok (h : record.bump = .ok record') :
    record'.refcount = record.refcount + 1 ∧ record'.retentionHolds = record.retentionHolds ∧
      SameData record record' := by
  rw [bump] at h
  split at h
  · cases h
    exact ⟨rfl, rfl, rfl⟩
  · cases h

lemma drop_ok (h : record.drop id = .ok record') :
    record'.refcount + 1 = record.refcount ∧ record'.retentionHolds = record.retentionHolds ∧
      SameData record record' := by
  rw [drop] at h
  split at h
  · cases h
  · cases h
    exact ⟨Nat.succ_pred_eq_of_ne_zero ‹_›, rfl, rfl⟩

lemma hold_ok (h : record.hold name = .ok record') :
    record'.refcount = record.refcount ∧ SameData record record' := by
  rw [hold] at h
  split at h
  · cases h
    exact ⟨rfl, rfl⟩
  · cases h
    exact ⟨rfl, rfl⟩

lemma release_ok (h : record.release name = .ok record') :
    record'.refcount = record.refcount ∧ SameData record record' := by
  cases h
  exact ⟨rfl, rfl⟩

end Changes

section Calls
variable {D : Type} [DeviceBackend D] [LawfulBackend D] {K : ChunkRows} {F : FragmentRows}
  {c : Owner → Bytes} {id : ChunkId}

/-- The store between two calls: its records, and the bytes of each owner. -/
structure At (K : ChunkRows) (F : FragmentRows) (c : Owner → Bytes) (d : Durable D) (v : Index) :
    Prop where
  rests : Rests K F (tableOf K F) c d
  keyed : Keyed K
  mirrors : Mirrors v K F

/-- A disk on which the records name extents that the device keeps for them. -/
def Durable.Sound (d : Durable D) : Prop :=
  Keyed d.chunks ∧ ∃ c, Rests d.chunks d.fragments (tableOf d.chunks d.fragments) c d

lemma sound_of_rests {d : Durable D} (hkeyed : Keyed K) (h : Rests K F (tableOf K F) c d) :
    d.Sound := by
  obtain ⟨rfl, rfl, hkept⟩ := h
  exact ⟨hkeyed, c, rfl, rfl, hkept⟩

lemma At.sound (h : At K F c d v) : (d : Durable D).Sound :=
  sound_of_rests h.keyed h.rests

lemma Durable.Sound.at_hydrate {d : Durable D} (h : d.Sound)
    (pools : Finmap fun _ : String => Nat) :
    ∃ c, At d.chunks d.fragments c d (Index.hydrate d pools) := by
  obtain ⟨hkeyed, c, hrests⟩ := h
  exact ⟨c, hrests, hkeyed, fun id => lookup_mapValues _ _,
    fun key => lookup_mapValues _ _⟩

lemma Rests.content_pending {d : Durable D} (h : Rests K F (tableOf K F) c d) :
    c .pending = [] := by
  obtain ⟨_, _, live, hkept⟩ := h
  exact (Except.ok.inj (hkept.reads .pending)).symm

omit [DeviceBackend D] [LawfulBackend D] in
lemma update_pending_tableOf : update (tableOf K F) .pending [] = tableOf K F :=
  update_eq_self _ _

omit [DeviceBackend D] [LawfulBackend D] in
lemma update_pending_content (hc : c .pending = []) : update c .pending [] = c := by
  rw [← hc, update_eq_self]

/-- Calls that store a record end with it in memory, then on disk. -/
lemma record_spec {P : Durable D → Index → Prop} {f : Index → Index} {record : ChunkRecord}
    {b : β} {Q : β → Durable D → Index → Prop} (hid : record.chunkId = id) (hkeyed : Keyed K)
    (hmem : ∀ d v, P d v → Mirrors (f v) (K.insert id record) F)
    (hdisk : ∀ d v, P d v → Rests K F (tableOf (K.insert id record) F) c d)
    (hpost : ∀ d v, At (K.insert id record) F c d v → Q b d v) :
    Triple P (Prog.modify f >>= fun _ => putChunk record >>= fun _ => pure b) Q
      Durable.Sound := by
  apply bind (Q := fun _ d v => Rests K F (tableOf (K.insert id record) F) c d ∧
    Mirrors v (K.insert id record) F)
  · exact modify fun d v h => ⟨hdisk d v h, hmem d v h⟩
  intro _
  apply bind (Q := fun _ => At (K.insert id record) F c)
  · apply commit
    intro d v h
    obtain ⟨⟨rfl, rfl, hkept⟩, hmirrors⟩ := h
    have hat : At (d.chunks.insert id record) d.fragments c
        { d with chunks := d.chunks.insert record.chunkId record } v := by
      rw [hid]
      exact ⟨⟨rfl, rfl, hkept⟩, hkeyed.insert hid, hmirrors⟩
    exact ⟨hat, hat.sound⟩
  · exact fun _ => ret hpost

lemma updateRecord_spec {f : ChunkRecord → Except ChunkError ChunkRecord}
    (hf : ∀ record record', f record = .ok record' → record.SameData record') :
    Triple (At K F c) (updateRecord (D := D) id f)
      (fun r d v => (∃ err, r = .error err ∧ At K F c d v) ∨
        ∃ old new, r = .ok new ∧ K.lookup id = some old ∧ f old = .ok new ∧
          At (K.insert id new) F c d v)
      Durable.Sound := by
  apply bind_mem
  intro V
  apply of_pure fun d v h => h.2 ▸ h.1.mirrors
  intro hmirrors
  apply of_pure fun d v h => h.1.keyed
  intro hkeyed
  cases hold : K.lookup id with
  | none =>
    have hnone : V.chunks.lookup id = none := by rw [hmirrors.chunks, hold]; rfl
    rw [hnone]
    apply ret
    intro d v h
    exact Or.inl ⟨_, rfl, h.1⟩
  | some old =>
    have hsome : V.chunks.lookup id = some ⟨old, extentsFromRecord old⟩ := by
      rw [hmirrors.chunks, hold]
      rfl
    rw [hsome]
    dsimp only
    cases hnew : f old with
    | error err =>
      apply ret
      intro d v h
      exact Or.inl ⟨_, rfl, h.1⟩
    | ok new =>
      have hsame := hf old new hnew
      have hid : new.chunkId = id := hsame.chunkId.trans (hkeyed id old hold)
      have htable : tableOf (K.insert id new) F = tableOf K F := by
        rw [tableOf_insert_chunk, hsame.extents]
        apply update_eq_self_iff.2
        rw [tableOf, hold]
        rfl
      refine record_spec (F := F) (c := c) hid hkeyed (fun d v h => ?_) (fun d v h => ?_)
        fun d v h => Or.inr ⟨old, new, rfl, rfl, hnew, h⟩
      · rw [← hsame.extents]
        exact h.1.mirrors.insert id new v.pools
      · rw [htable]
        exact h.1.rests

lemma updateRecord_map_spec (id : ChunkId) {f : ChunkRecord → Except ChunkError ChunkRecord}
    (hf : ∀ record record', f record = .ok record' → record.SameData record')
    (g : ChunkRecord → α) :
    Triple (At K F c) (updateRecord (D := D) id f >>= fun r => pure (r.map g))
      (fun r d v => (∃ err, r = .error err ∧ At K F c d v) ∨
        ∃ old new, r = .ok (g new) ∧ K.lookup id = some old ∧ f old = .ok new ∧
          At (K.insert id new) F c d v)
      Durable.Sound := by
  apply Triple.bind (updateRecord_spec hf)
  intro r
  apply ret
  intro d v h
  rcases h with ⟨err, rfl, hat⟩ | ⟨old, new, rfl, hold, hnew, hat⟩
  · exact Or.inl ⟨err, rfl, hat⟩
  · exact Or.inr ⟨old, new, rfl, hold, hnew, hat⟩

lemma bump_sameData (record record' : ChunkRecord) (h : record.bump = .ok record') :
    record.SameData record' := (bump_ok h).2.2

lemma tryIncrementIfExists_spec :
    Triple (At K F c) (tryIncrementIfExists (D := D) id)
      (fun r d v => (r = .ok none ∧ K.lookup id = none ∧ At K F c d v) ∨
        (∃ err, r = .error err ∧ At K F c d v) ∨
        ∃ old new, r = .ok (some new.refcount) ∧ K.lookup id = some old ∧ old.bump = .ok new ∧
          At (K.insert id new) F c d v)
      Durable.Sound := by
  apply bind_mem
  intro V
  apply of_pure fun d v h => h.2 ▸ h.1.mirrors
  intro hmirrors
  apply Triple.ite
  · intro _
    exact (updateRecord_map_spec id bump_sameData fun record => some record.refcount).weaken
      (fun _ _ h => h.1) (fun _ _ _ h => Or.inr h) (fun _ h => h)
  · intro habsent
    rw [hmirrors.mem_chunks, Option.not_isSome_iff_eq_none] at habsent
    apply ret
    intro d v h
    exact Or.inl ⟨rfl, habsent, h.1⟩

lemma placeChunk_spec (data : Bytes) (tier : Option StorageTier) :
    Triple (fun d v => v = V ∧ Rests K F (tableOf K F) c d)
      (placeChunk (D := D) data tier)
      (fun r d v => v = V ∧ ((∃ err, r = .error err ∧ Rests K F (tableOf K F) c d) ∨
        ∃ extents, r = .ok extents ∧ Rests K F (update (tableOf K F) .pending extents)
          (update c .pending data) d))
      (Rests K F (tableOf K F) c) := by
  apply of_pure fun _ _ h => h.2.content_pending
  intro hc
  have hcontent := update_pending_content hc
  apply Triple.ite
  · intro hempty
    apply ret
    intro d v h
    refine ⟨h.1, Or.inr ⟨[], rfl, ?_⟩⟩
    rw [update_pending_tableOf, isEmpty_iff.1 hempty, hcontent]
    exact h.2
  · intro _
    have hpieces : ∀ p ∈ pieces maxExtentPayloadBytes data.length data,
        p.length ≤ maxExtentPayloadBytes := fun p hp => length_le_of_mem_pieces hp
    have hspec := writePieces_spec (D := D) (V := V) (K := K) (F := F) (t := tableOf K F) (c := c)
      tier hpieces rfl
    rw [update_pending_tableOf, hcontent, hc, nil_append,
      flatten_pieces (by decide) le_rfl] at hspec
    exact hspec

lemma Rests.extents_pos {d : Durable D} (h : Rests K F t c d) (o : Owner) :
    ∀ e ∈ t o, 0 < e.length := by
  obtain ⟨_, _, live, hkept⟩ := h
  intro e he
  exact (LawfulBackend.inside hkept.holds (hkept.owned o e he)).1

lemma writeChunk_spec {envelope : Envelope} {pool : String} :
    Triple (At K F c) (writeChunk (D := D) envelope pool)
      (fun r d v => (∃ err, r = .error err ∧ At K F c d v) ∨
        (∃ old new, r = .ok false ∧ K.lookup envelope.chunkId = some old ∧ old.bump = .ok new ∧
          At (K.insert envelope.chunkId new) F c d v) ∨
        ∃ extents, r = .ok true ∧ K.lookup envelope.chunkId = none ∧
          At (K.insert envelope.chunkId (newRecord envelope pool extents)) F
            (update c (.chunk envelope.chunkId) envelope.ciphertext) d v)
      Durable.Sound := by
  apply bind_mem
  intro V
  apply of_pure fun d v h => h.2 ▸ h.1.mirrors
  intro hmirrors
  apply of_pure fun d v h => h.1.keyed
  intro hkeyed
  apply of_pure fun d v h => h.1.rests.content_pending
  intro hc
  apply Triple.ite
  · intro _
    exact (updateRecord_map_spec _ bump_sameData fun _ => false).weaken (fun _ _ h => h.1)
      (fun _ _ _ h => h.imp_right Or.inl) (fun _ h => h)
  intro habsent
  have hnone : K.lookup envelope.chunkId = none := by
    rw [hmirrors.mem_chunks, Option.not_isSome_iff_eq_none] at habsent
    exact habsent
  apply bind ((placeChunk_spec envelope.ciphertext (tierForPool pool)).weaken
    (fun d v h => ⟨h.2, h.1.rests⟩) (fun _ _ _ h => h) fun d h => sound_of_rests hkeyed h)
  intro r
  cases r with
  | error err =>
    apply ret
    intro d v h
    obtain ⟨rfl, ⟨_, _, hrests⟩ | ⟨_, hr, _⟩⟩ := h
    · exact Or.inl ⟨err, rfl, hrests, hkeyed, hmirrors⟩
    · cases hr
  | ok extents =>
    apply bind_mem
    intro V'
    apply of_pure fun d v h => h.2.symm.trans h.1.1
    intro hV
    subst hV
    rw [if_neg habsent]
    apply weaken (P := fun d v => v = V' ∧ Rests K F
      (update (tableOf K F) .pending extents)
      (update c .pending envelope.ciphertext) d) _ _ (fun _ _ _ h => h) (fun _ h => h)
    · apply of_pure (p := extentsFromRecord (newRecord envelope pool extents) = extents)
      · intro d v h
        have hpos := h.2.extents_pos .pending
        rw [update_self] at hpos
        exact extentsFromRecord_newRecord hpos
      intro hextents
      refine record_spec (F := F)
        (c := update c (.chunk envelope.chunkId) envelope.ciphertext) rfl hkeyed
        (fun d v h => ?_) (fun d v h => ?_) fun d v h => Or.inr (Or.inr ⟨extents, rfl, hnone, h⟩)
      · have hinsert := hmirrors.insert envelope.chunkId (newRecord envelope pool extents)
          (chargePool v.pools pool (· + envelope.ciphertext.length))
        rw [hextents, ← h.1] at hinsert
        exact hinsert
      · have hsettle := h.2.settle (.chunk envelope.chunkId)
        simp only [update_idem, update_self] at hsettle
        rwa [update_pending_tableOf, update_pending_content hc, ← hextents, ← tableOf_insert_chunk]
          at hsettle
    · intro d v h
      obtain ⟨⟨hv, ⟨_, hr, _⟩ | ⟨_, hr, hrests⟩⟩, _⟩ := h
      · cases hr
      · cases hr
        exact ⟨hv, hrests⟩

lemma Rests.content_nil {d : Durable D} {o : Owner} (h : Rests K F t c d) (ho : t o = []) :
    c o = [] := by
  obtain ⟨_, _, live, hkept⟩ := h
  have hread := hkept.reads o
  rw [ho, readExtents] at hread
  exact (Except.ok.inj hread).symm

lemma registerEcChunk_spec {envelope : Envelope} (pool : String) :
    Triple (At K F c) (registerEcChunk (D := D) envelope pool)
      (fun r d v => (∃ err, r = .error err ∧ At K F c d v) ∨
        (∃ old new, r = .ok false ∧ K.lookup envelope.chunkId = some old ∧ old.bump = .ok new ∧
          At (K.insert envelope.chunkId new) F c d v) ∨
        (r = .ok true ∧ K.lookup envelope.chunkId = none ∧ c (.chunk envelope.chunkId) = [] ∧
          At (K.insert envelope.chunkId (newRecord envelope pool [])) F c d v))
      Durable.Sound := by
  apply bind_mem
  intro V
  apply of_pure fun d v h => h.2 ▸ h.1.mirrors
  intro hmirrors
  apply of_pure fun d v h => h.1.keyed
  intro hkeyed
  apply Triple.ite
  · intro _
    exact (updateRecord_map_spec _ bump_sameData fun _ => false).weaken (fun _ _ h => h.1)
      (fun _ _ _ h => h.imp_right Or.inl) (fun _ h => h)
  intro habsent
  have hnone : K.lookup envelope.chunkId = none := by
    rw [hmirrors.mem_chunks, Option.not_isSome_iff_eq_none] at habsent
    exact habsent
  let record := newRecord envelope pool []
  have hempty : tableOf K F (.chunk envelope.chunkId) = [] := by
    rw [tableOf, hnone]
    rfl
  have htable : tableOf (K.insert envelope.chunkId record) F = tableOf K F := by
    rw [tableOf_insert_chunk]
    exact update_eq_self_iff.2 hempty.symm
  apply of_pure fun d v h => h.1.rests.content_nil hempty
  intro hcontent
  refine record_spec (F := F) (c := c) rfl hkeyed
    (fun d v h => h.1.mirrors.insert envelope.chunkId record v.pools) (fun d v h => ?_)
    fun d v h => Or.inr (Or.inr ⟨rfl, hnone, hcontent, h⟩)
  exact htable.symm ▸ h.1.rests

end Calls

end Kiseki.Chunk
