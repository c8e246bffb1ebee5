import Kiseki.Chunk.Calls

namespace Kiseki.Chunk

open Crash Kiseki.Block Function Triple List Option Prod Maps

section Fragments
variable {D : Type} [DeviceBackend D] [LawfulBackend D] {K : ChunkRows} {F : FragmentRows}
  {V : Index} {c : Owner → Bytes} {id : ChunkId} {index : Nat} {e : Extent} {data : Bytes}

variable {key : FragmentKey}

lemma Mirrors.insert_fragment (h : Mirrors v K F) (record : FragmentRecord) :
    Mirrors { v with fragments := v.fragments.insert key record.extent } K
      (F.insert key record) where
  chunks := h.chunks
  fragments key' := by
    rw [lookup_insert, lookup_insert, h.fragments]
    split
    · rfl
    · rfl

lemma Mirrors.erase_fragment (h : Mirrors v K F) :
    Mirrors { v with fragments := v.fragments.erase key } K (F.erase key) where
  chunks := h.chunks
  fragments key' := by
    rw [lookup_erase, lookup_erase, h.fragments]
    split
    · rfl
    · rfl

lemma update_settled {f : Owner → List α} (hf : f .pending = []) {o : Owner} (ho : o ≠ .pending)
    (xs : List α) :
    update (update (update (update f .pending xs) o [])
      .pending []) o xs = update f o xs := by
  rw [update_comm ho [] [] (update f .pending xs), update_idem, update_idem, ← hf, update_eq_self]

lemma recordFragment_spec (id : ChunkId) (index : Nat) (e : Extent) (data : Bytes)
    (hkeyed : Keyed K) (hmirrors : Mirrors V K F) (hc : c .pending = []) :
    Triple (fun d v => v = V ∧ Rests K F (update (tableOf K F) .pending [e])
        (update c .pending data) d)
      (recordFragment (D := D) id index e data.length)
      (fun _ => At K (F.insert (id, index) ⟨id, index, e.offset, e.length, data.length⟩)
        (update c (.fragment (id, index)) data))
      (fun _ => True) := by
  let record : FragmentRecord := ⟨id, index, e.offset, e.length, data.length⟩
  let V' : Index := { V with fragments := V.fragments.insert (id, index) e }
  have hmirrors' : Mirrors V' K (F.insert (id, index) record) :=
    hmirrors.insert_fragment record
  have hne : Owner.fragment (id, index) ≠ .pending := fun h => by cases h
  have hold : update (tableOf K F) .pending [e] (.fragment (id, index)) =
      (V.fragments.lookup (id, index)).toList := by
    rw [update_of_ne hne, hmirrors.fragments]
    rfl
  apply bind_mem
  intro v
  apply of_pure fun d v h => h.2.symm.trans h.1.1
  intro hv
  subst hv
  apply bind (Q := fun _ d v => v = V' ∧
    Rests K F (update (tableOf K F) .pending [e]) (update c .pending data) d)
  · apply Triple.modify
    intro d v h
    obtain ⟨⟨rfl, hrests⟩, _⟩ := h
    exact ⟨rfl, hrests⟩
  intro _
  apply Triple.bind ((freeAll_spec hold).weaken (fun _ _ h => h) (fun _ _ _ h => h)
    fun _ _ => trivial)
  intro _
  apply commit
  intro d v h
  obtain ⟨rfl, hrests⟩ := h
  have hsettle := hrests.settle (.fragment (id, index))
  rw [update_of_ne hne.symm, update_of_ne hne.symm, update_self,
    update_self, update_settled rfl hne, update_settled hc hne] at hsettle
  obtain ⟨rfl, rfl, hkept⟩ := hsettle
  refine ⟨⟨⟨rfl, rfl, ?_⟩, hkeyed, hmirrors'⟩, trivial⟩
  rw [tableOf_insert_fragment]
  exact hkept

lemma placeFragment_spec {tier : Option StorageTier} :
    Triple (fun d v => v = V ∧ Rests K F (tableOf K F) c d) (placeFragment (D := D) data tier)
      (fun r d v => v = V ∧ ((∃ err, r = .error err ∧ Rests K F (tableOf K F) c d) ∨
        ∃ e, r = .ok e ∧ Rests K F (update (tableOf K F) .pending [e])
          (update c .pending data) d))
      (Rests K F (tableOf K F) c) := by
  apply of_pure fun _ _ h => h.2.content_pending
  intro hc
  apply Triple.bind allocInTier_spec
  intro r
  cases r with
  | error err =>
    apply ret
    intro d v h
    exact ⟨h.1, Or.inl ⟨_, rfl, h.2.1⟩⟩
  | ok e =>
    have hspare : ∀ (d : Durable D) v, (v = V ∧ Rests K F (tableOf K F) c d ∧
        ∀ e', Except.ok e = Except.ok (ε := AllocError) e' →
          Spare (tableOf K F) c data.length e' d) →
        v = V ∧ d.chunks = K ∧ d.fragments = F ∧ Spare (tableOf K F) c data.length e d :=
      fun d v h => ⟨h.1, h.2.1.1, h.2.1.2.1, h.2.2 e rfl⟩
    by_cases hlen : data.length ≤ u32Max
    · have hwrite := write_spec (D := D) (V := V) (K := K) (F := F) (t := tableOf K F) (c := c)
        (e := e) hlen
      have hpending : tableOf K F .pending = [] := rfl
      rw [hpending, hc, nil_append, nil_append] at hwrite
      apply bind (hwrite.weaken hspare (fun _ _ _ h => h) ?_)
      · intro w
        apply of_pure fun _ _ h => h.1
        intro hw
        subst hw
        apply ret
        intro d v h
        exact ⟨h.2.1, Or.inr ⟨e, rfl, h.2.2⟩⟩
      · intro d h
        have hforget := h.forget .pending
        rwa [update_idem, update_idem, update_pending_tableOf,
          update_pending_content hc] at hforget
    · have hwrite := write_rejects_spec (D := D) (V := V) (K := K) (F := F) (t := tableOf K F)
        (c := c) (e := e) (Nat.lt_of_not_le hlen)
      apply bind (hwrite.weaken hspare (fun _ _ _ h => h) fun _ h => h)
      intro w
      apply of_pure fun _ _ h => h.1
      intro hw
      obtain ⟨err, rfl⟩ := hw
      apply ret
      intro d v h
      exact ⟨h.2.1, Or.inl ⟨_, rfl, h.2.2⟩⟩

lemma writeFragmentTier_spec
    {tier : Option StorageTier} :
    Triple (At K F c) (writeFragmentTier (D := D) id index data tier)
      (fun r d v => (∃ err, r = .error err ∧ At K F c d v) ∨
        ∃ e : Extent, r = .ok () ∧
          At K (F.insert (id, index) ⟨id, index, e.offset, e.length, data.length⟩)
            (update c (.fragment (id, index)) data) d v)
      (fun _ => True) := by
  intro d V hat
  have hrecord := fun e => recordFragment_spec (D := D) id index e data hat.keyed hat.mirrors
    hat.rests.content_pending
  have hcall : Triple (fun d v => v = V ∧ Rests K F (tableOf K F) c d)
      (writeFragmentTier (D := D) id index data tier)
      (fun r d v => (∃ err, r = .error err ∧ At K F c d v) ∨
        ∃ e : Extent, r = .ok () ∧
          At K (F.insert (id, index) ⟨id, index, e.offset, e.length, data.length⟩)
            (update c (.fragment (id, index)) data) d v) (fun _ => True) := by
    apply Triple.bind ((placeFragment_spec).weaken (fun _ _ h => h) (fun _ _ _ h => h)
      fun _ _ => trivial)
    intro r
    cases r with
    | error err =>
      apply ret
      intro d v h
      obtain ⟨rfl, ⟨_, _, hrests⟩ | ⟨_, hr, _⟩⟩ := h
      · exact Or.inl ⟨_, rfl, hrests, hat.keyed, hat.mirrors⟩
      · cases hr
    | ok e =>
      apply bind ((hrecord e).weaken ?_ (fun _ _ _ h => h) fun _ h => h)
      · intro _
        apply ret
        intro d v h
        exact Or.inr ⟨e, rfl, h⟩
      · intro d v h
        obtain ⟨hv, ⟨_, hr, _⟩ | ⟨_, hr, hrests⟩⟩ := h
        · cases hr
        · cases hr
          exact ⟨hv, hrests⟩
  exact hcall d V ⟨rfl, hat.rests⟩

lemma deleteFragment_spec (id : ChunkId) (index : Nat) :
    Triple (At K F c) (deleteFragment (D := D) id index)
      (fun r d v => r = .ok (F.lookup (id, index)).isSome ∧
        At K (F.erase (id, index)) (update c (.fragment (id, index)) []) d v)
      (fun _ => True) := by
  apply bind_mem
  intro V
  apply of_pure fun d v h => h.2 ▸ h.1.mirrors
  intro hmirrors
  apply of_pure fun d v h => h.1.keyed
  intro hkeyed
  let V' : Index := { V with fragments := V.fragments.erase (id, index) }
  have hmirrors' : Mirrors V' K (F.erase (id, index)) := hmirrors.erase_fragment
  apply bind (Q := fun _ d v => v = V' ∧ Rests K F (tableOf K F) c d)
  · apply Triple.modify
    intro d v h
    obtain ⟨h, rfl⟩ := h
    exact ⟨rfl, h.rests⟩
  intro _
  cases hold : F.lookup (id, index) with
  | none =>
    have hnone : V.fragments.lookup (id, index) = none := by rw [hmirrors.fragments, hold]; rfl
    rw [hnone]
    apply ret
    intro d v h
    obtain ⟨rfl, hrests⟩ := h
    have hforget := hrests.forget (.fragment (id, index))
    have herase : F.erase (id, index) = F := by
      apply Finmap.ext_lookup
      intro key
      rw [lookup_erase]
      split
      · next hkey => rw [hkey, hold]
      · rfl
    rw [← tableOf_erase_fragment, herase] at hforget
    rw [herase] at hmirrors'
    rw [herase]
    exact ⟨rfl, hforget, hkeyed, hmirrors'⟩
  | some record =>
    have hsome : V.fragments.lookup (id, index) = some record.extent := by
      rw [hmirrors.fragments, hold]
      rfl
    have htable : tableOf K F (.fragment (id, index)) = [record.extent] := by
      rw [tableOf, hold]
      rfl
    rw [hsome]
    apply Triple.bind ((free_spec htable).weaken (fun _ _ h => h) (fun _ _ _ h => h)
      fun _ _ => trivial)
    intro r
    apply bind (Q := fun _ d v => At K (F.erase (id, index))
      (update c (.fragment (id, index)) []) d v)
    · apply commit
      intro d v h
      obtain ⟨_, bytes, rfl, hrests⟩ := h
      have hforget := hrests.forget (.fragment (id, index))
      rw [update_idem, update_idem] at hforget
      obtain ⟨rfl, rfl, hkept⟩ := hforget
      refine ⟨⟨⟨rfl, rfl, ?_⟩, hkeyed, hmirrors'⟩, trivial⟩
      rw [tableOf_erase_fragment]
      exact hkept
    · intro _
      apply ret
      intro d v h
      exact ⟨rfl, h⟩

end Fragments

def without (ids : List ChunkId) (f : Owner → List α) : Owner → List α
  | .chunk id => if id ∈ ids then [] else f (.chunk id)
  | .fragment key => f (.fragment key)
  | .pending => f .pending

variable {f : Owner → List α}

lemma without_nil : without [] f = f := by
  funext o
  cases o with
  | chunk id =>
    rw [without]
    exact if_neg not_mem_nil
  | fragment key => rfl
  | pending => rfl

variable {id : ChunkId} {ids : List ChunkId}

lemma without_cons : without (id :: ids) f = without ids (update f (.chunk id) []) := by
  funext o
  cases o with
  | chunk id' =>
    simp only [without, mem_cons]
    by_cases hne : id' = id
    · rw [hne, update_self, if_pos (Or.inl rfl), ite_self]
    · rw [update_of_ne (fun h => hne (Owner.chunk.inj h))]
      simp only [or_iff_right hne]
  | fragment key => rfl
  | pending => rfl

lemma without_append {f : Owner → List α} (h : ∀ id ∈ ids', f (.chunk id) = []) :
    without (ids ++ ids') f = without ids f := by
  funext o
  cases o with
  | chunk id =>
    simp only [without, mem_append]
    by_cases hmem : id ∈ ids'
    · rw [if_pos (Or.inr hmem), h id hmem, ite_self]
    · simp only [or_iff_left hmem]
  | fragment key => rfl
  | pending => rfl

def eraseAll (ids : List ChunkId) (K : ChunkRows) : ChunkRows :=
  ids.foldl (fun K id => K.erase id) K

lemma lookup_eraseAll (K : ChunkRows) :
    (eraseAll ids K).lookup id = if id ∈ ids then none else K.lookup id := by
  induction ids generalizing K with
  | nil => exact (if_neg not_mem_nil).symm
  | cons id' ids ih =>
    refine (ih _).trans ?_
    simp only [lookup_erase, mem_cons, ite_or]
    grind

lemma tableOf_eraseAll (K : ChunkRows) (F : FragmentRows) :
    tableOf (eraseAll ids K) F = without ids (tableOf K F) := by
  induction ids generalizing K with
  | nil => exact (without_nil).symm
  | cons id ids ih =>
    rw [without_cons, ← tableOf_erase_chunk]
    exact ih _

lemma Keyed.eraseAll (h : Keyed K) (ids : List ChunkId) : Keyed (eraseAll ids K) := by
  intro id record hlookup
  rw [lookup_eraseAll] at hlookup
  exact h id record (ite_none_left_eq_some.1 hlookup).2

lemma foldl_removeChunk (d : Durable D) :
    (ids.map removeChunk).foldl (fun d f => f d) d =
      { d with chunks := eraseAll ids d.chunks } := by
  induction ids generalizing d with
  | nil => rfl
  | cons id ids ih => exact ih _

section Gc
variable {D : Type} [DeviceBackend D] [LawfulBackend D] {K : ChunkRows} {F : FragmentRows}
  {V : Index} {t : Owner → List Extent} {c : Owner → Bytes}

omit [DeviceBackend D] [LawfulBackend D] in
lemma update_chunk_extents {L : List (ChunkId × ChunkEntry)} {id : ChunkId} {entry : ChunkEntry}
    (hL : ∀ x ∈ (id, entry) :: L, t (.chunk x.1) = x.2.extents)
    (hnodup : (((id, entry) :: L).map Prod.fst).Nodup) :
    ∀ x ∈ L, update t (.chunk id) [] (.chunk x.1) = x.2.extents := by
  rw [map_cons, nodup_cons] at hnodup
  intro x hx
  rw [update_of_ne, hL x (mem_cons_of_mem _ hx)]
  intro heq
  have hmem : x.1 ∈ L.map fst := mem_map_of_mem hx
  rw [Owner.chunk.inj heq] at hmem
  exact hnodup.1 hmem

lemma gcFree_spec {L : List (ChunkId × ChunkEntry)}
    (hL : ∀ x ∈ L, t (.chunk x.1) = x.2.extents) (hnodup : (L.map Prod.fst).Nodup) :
    Triple (fun d v => v = V ∧ Rests K F t c d) (gcFree (D := D) L)
      (fun r d v => r = L.map fst ∧ v.fragments = V.fragments ∧
        (∀ id, v.chunks.lookup id =
          if id ∈ L.map fst then none else V.chunks.lookup id) ∧
        Rests K F (without (L.map fst) t) (without (L.map fst) c) d)
      (fun _ => True) := by
  induction L generalizing t c V with
  | nil =>
    apply ret
    intro d v h
    obtain ⟨rfl, hrests⟩ := h
    rw [map_nil, without_nil, without_nil]
    exact ⟨rfl, rfl, fun id => (if_neg not_mem_nil).symm, hrests⟩
  | cons x L ih =>
    obtain ⟨id, entry⟩ := x
    have hrest := update_chunk_extents hL hnodup
    rw [map_cons, nodup_cons] at hnodup
    let V' : Index := { V with
      chunks := V.chunks.erase id
      pools := chargePool V.pools entry.record.poolName (· - entry.record.dataBytes) }
    have hfree := freeUntilError_spec (D := D) (V := V) (K := K) (F := F) (c := c)
      (hL (id, entry) mem_cons_self)
    apply bind (hfree.weaken (fun _ _ h => h) (fun _ _ _ h => h) fun _ _ => trivial)
    intro r
    apply of_pure fun _ _ h => h.1
    intro hr
    subst hr
    apply bind (Q := fun _ d v => v = V' ∧
      Rests K F (update t (.chunk id) []) (update c (.chunk id) []) d)
    · apply Triple.modify
      intro d v h
      obtain ⟨_, rfl, hrests⟩ := h
      exact ⟨rfl, hrests⟩
    intro _
    apply bind (ih hrest hnodup.2)
    intro removed
    apply ret
    intro d v h
    obtain ⟨rfl, hfragments, hchunks, hrests⟩ := h
    rw [map_cons, without_cons, without_cons]
    refine ⟨rfl, hfragments, ?_, hrests⟩
    intro id'
    rw [hchunks]
    by_cases hne : id' = id
    · rw [hne, if_pos mem_cons_self]
      change (if _ then _ else (V.chunks.erase id).lookup id) = _
      rw [Finmap.lookup_erase, ite_self]
    · simp only [mem_cons, or_iff_right hne]
      change (if _ then _ else (V.chunks.erase id).lookup id') = _
      rw [Finmap.lookup_erase_ne hne]

def doomed (K : ChunkRows) (order : List ChunkId) : List ChunkId :=
  order.filter fun id => ((K.lookup id).map ChunkRecord.unused).getD false

lemma mem_doomed {order : List ChunkId} {id : ChunkId} : id ∈ doomed K order ↔
    id ∈ order ∧ ∃ record, K.lookup id = some record ∧ record.unused = true := by
  rw [doomed, mem_filter]
  cases K.lookup id with
  | none => simp
  | some record => simp

lemma map_fst_toRemove (h : Mirrors V K F) (order : List ChunkId) :
    (toRemove V order).map Prod.fst = doomed K order := by
  induction order with
  | nil => rfl
  | cons id order ih =>
    rw [toRemove, filterMap_cons, h.chunks, doomed, filter_cons]
    cases K.lookup id with
    | none => exact ih
    | some record =>
      cases hunused : record.unused with
      | false =>
        simp only [map_some, filter_some, hunused]
        exact ih
      | true =>
        simp only [map_some, filter_some, hunused]
        exact congrArg (id :: ·) ih

lemma extents_of_mem_toRemove (h : Mirrors V K F) (hx : x ∈ toRemove V order) :
    tableOf K F (.chunk x.1) = x.2.extents := by
  obtain ⟨id, _, hid⟩ := mem_filterMap.1 hx
  obtain ⟨entry, hentry, rfl⟩ := map_eq_some_iff.1 hid
  have hlookup := (filter_eq_some_iff.1 hentry).1
  rw [h.chunks] at hlookup
  obtain ⟨record, hrecord, rfl⟩ := map_eq_some_iff.1 hlookup
  rw [tableOf, hrecord]
  rfl

lemma doomed_nodup {order : List ChunkId} (h : order.Nodup) : (doomed K order).Nodup :=
  h.filter _

lemma gcFree_toRemove_spec (horder : order.Nodup) (hmirrors : Mirrors V K F) :
    Triple (fun d v => v = V ∧ Rests K F (tableOf K F) c d) (gcFree (D := D) (toRemove V order))
      (fun r d v => r = doomed K order ∧ Mirrors v (eraseAll (doomed K order) K) F ∧
        Rests K F (without (doomed K order) (tableOf K F)) (without (doomed K order) c) d)
      (fun _ => True) := by
  have hids := map_fst_toRemove hmirrors order
  have hnodup : ((toRemove V order).map fst).Nodup := hids ▸ doomed_nodup horder
  have hspec := gcFree_spec (D := D) (V := V) (K := K) (F := F) (c := c)
    (fun x hx => extents_of_mem_toRemove hmirrors hx) hnodup
  rw [hids] at hspec
  apply hspec.weaken (fun _ _ h => h) ?_ (fun _ h => h)
  intro r d v h
  obtain ⟨hr, hfragments, hchunks, hrests⟩ := h
  refine ⟨hr, ⟨?_, ?_⟩, hrests⟩
  · intro id
    rw [hchunks, lookup_eraseAll, hmirrors.chunks]
    split
    · rfl
    · rfl
  · intro key
    rw [hfragments]
    exact hmirrors.fragments key

lemma gc_spec (horder : order.Nodup) : Triple (At K F c) (gc (D := D) order)
      (fun r d v => r = (doomed K order).length ∧
        At (eraseAll (doomed K order) K) F (without (doomed K order) c) d v)
      (fun _ => True) := by
  apply bind_mem
  intro V
  apply of_pure fun d v h => h.2 ▸ h.1.mirrors
  intro hmirrors
  apply of_pure fun d v h => h.1.keyed
  intro hkeyed
  apply bind ((gcFree_toRemove_spec horder hmirrors).weaken
    (fun d v h => ⟨h.2, h.1.rests⟩) (fun _ _ _ h => h) fun _ h => h)
  intro removed
  apply bind (Q := fun _ d v => removed = doomed K order ∧
    At (eraseAll (doomed K order) K) F (without (doomed K order) c) d v)
  · intro d v h
    obtain ⟨rfl, hmirrors', rfl, rfl, hkept⟩ := h
    obtain ⟨hdisk, hmem⟩ := Prog.commitAll_result d
    rw [foldl_removeChunk] at hdisk
    rw [hdisk, hmem]
    refine ⟨fun _ _ => trivial, rfl, ⟨rfl, rfl, ?_⟩, hkeyed.eraseAll _, hmirrors'⟩
    rw [tableOf_eraseAll]
    exact hkept
  · intro _
    apply ret
    intro d v h
    exact ⟨congrArg length h.1, h.2⟩

end Gc

end Kiseki.Chunk
