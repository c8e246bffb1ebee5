import Kiseki.Chunk.Refinement

namespace Kiseki.Chunk

open Crash Kiseki.Block Relation List Nat Prog FileBackedDevice

def gcFrees (v : Index) (order : List ChunkId) : Nat :=
  ((toRemove v order).map fun x => x.2.extents.length).sum

/-- A cut between an extent's free and the drop of its record. -/
def Op.Exposes (v : Index) (n : Nat) : Op → Prop
  | .writeFragment id index _ _ => (id, index) ∈ v.fragments ∧ n = 2
  | .deleteFragment _ _ => n = 0
  | .gc order => ∃ x ∈ (toRemove v order).drop (n + 1 - gcFrees v order), x.2.extents ≠ []
  | _ => False

inductive Event where
  | call (op : Op)
  | crash (op : Op) (n : Nat) (pools : Finmap fun _ : String => Nat)
  | restart (pools : Finmap fun _ : String => Nat)

def Event.Exposes (v : Index) : Event → Prop
  | .crash op n _ => op.Exposes v n
  | _ => False

def reopened [DeviceBackend D] (d : Durable D) (pools : Finmap fun _ : String => Nat) :
    Durable D × Index :=
  let d' : Durable D := { d with device := DeviceBackend.reopen d.device }
  (d', Index.hydrate d' pools)

/-- A call that ends or is cut after a durable step, or a restart. -/
inductive Happens [DeviceBackend D] : Event → Durable D × Index → Durable D × Index → Prop
  | call (h : op.Iterates v) : Happens (.call op) (d, v) ((op.run d v).disk, (op.run d v).mem)
  | crash (h : op.Iterates v) (hcut : (op.run d v).cuts[n]? = some d') :
    Happens (.crash op n pools) (d, v) (reopened d' pools)
  | restart : Happens (.restart pools) (d, v) (reopened d pools)

section Cuts
variable {D : Type} [DeviceBackend D] [LawfulBackend D] {K : ChunkRows} {F : FragmentRows}
  {V : Index} {t : Owner → List Extent} {c : Owner → Bytes} {d d' : Durable D} {v : Index}
  {id : ChunkId} {index n : Nat} {data : Bytes} {tier : Option StorageTier}

section Outcomes
omit [LawfulBackend D]

lemma free_ok {e : Extent} (h : DeviceBackend.free d.device e = .ok device) :
    free e d v = ⟨[{ d with device := device }], { d with device := device }, v, .ok ()⟩ := by
  rw [free, read_disk_bind, h]
  rfl

lemma free_error {e : Extent} (h : DeviceBackend.free d.device e = .error err) :
    free e d v = ⟨[], d, v, .error err⟩ := by
  rw [free, read_disk_bind, h]
  rfl

lemma cuts_free_le (e : Extent) : (free e d v).cuts.length ≤ 1 := by
  cases h : DeviceBackend.free d.device e with
  | error err =>
    rw [free_error h]
    exact zero_le 1
  | ok device =>
    rw [free_ok h]
    exact le_refl 1

lemma cuts_free_ok {e : Extent} (hvalue : (free e d v).value = .ok ()) :
    (free e d v).cuts.length = 1 := by
  cases h : DeviceBackend.free d.device e with
  | error err =>
    rw [free_error h] at hvalue
    cases hvalue
  | ok device =>
    rw [free_ok h]
    rfl

lemma cuts_placeFragment (hvalue : (placeFragment data tier d v).value = .ok e) :
    (placeFragment data tier d v).cuts.length = 2 := by
  cases halloc : DeviceBackend.allocInTier d.device data.length tier with
  | error err =>
    have hout : allocInTier data.length tier d v = ⟨[], d, v, .error err⟩ := by
      rw [allocInTier, read_disk_bind, halloc]
      rfl
    rw [placeFragment, value_bind, hout] at hvalue
    cases hvalue
  | ok r =>
    obtain ⟨e', device⟩ := r
    let d₁ : Durable D := { d with device := device }
    have hout : allocInTier data.length tier d v = ⟨[d₁], d₁, v, .ok e'⟩ := by
      rw [allocInTier, read_disk_bind, halloc]
      rfl
    cases hwrite : DeviceBackend.write device e' data with
    | error err =>
      have hout' : write e' data d₁ v = ⟨[], d₁, v, .error err⟩ := by
        rw [write, read_disk_bind, hwrite]
        rfl
      rw [placeFragment, value_bind, hout] at hvalue
      dsimp only at hvalue
      rw [value_bind, hout'] at hvalue
      cases hvalue
    | ok device' =>
      let d₂ : Durable D := { d with device := device' }
      have hout' : write e' data d₁ v = ⟨[d₂], d₂, v, .ok ()⟩ := by
        rw [write, read_disk_bind, hwrite]
        rfl
      rw [placeFragment, cuts_bind, hout]
      dsimp only
      rw [cuts_bind, hout']
      rfl

lemma cuts_freeAll_toList_le (e : Option Extent) : (freeAll e.toList d v).cuts.length ≤ 1 := by
  cases e with
  | none => exact zero_le 1
  | some e =>
    have hcuts : (freeAll [e] d v).cuts = (free e d v).cuts ++ [] := rfl
    rw [Option.toList_some, hcuts, append_nil]
    exact cuts_free_le e

end Outcomes

lemma eq_of_getElem?_concat {cuts : List α} {a b : α} (h : (cuts ++ [a])[n]? = some b)
    (hn : cuts.length ≤ n) : b = a := by
  rw [getElem?_append_right hn] at h
  cases hk : n - cuts.length with
  | zero =>
    rw [hk] at h
    exact (Option.some.inj h).symm
  | succ k =>
    rw [hk] at h
    cases h

lemma sound_writeFragment_cut (hat : At K F c d v)
    (hcut : (writeFragmentTier id index data tier d v).cuts[n]? = some d')
    (hsafe : ¬((id, index) ∈ v.fragments ∧ n = 2)) : d'.Sound := by
  obtain ⟨hplace, hmem, hcases⟩ := placeFragment_spec d v ⟨rfl, hat.rests⟩
  rw [writeFragmentTier, cuts_bind] at hcut
  by_cases hn : n < (placeFragment data tier d v).cuts.length
  · rw [getElem?_append_left hn] at hcut
    exact sound_of_rests hat.keyed (hplace d' (mem_of_getElem? hcut))
  rw [getElem?_append_right (Nat.le_of_not_lt hn)] at hcut
  rcases hcases with ⟨err, hr, _⟩ | ⟨e, hr, hrests⟩
  · rw [hr] at hcut
    cases hcut
  · have hlen := cuts_placeFragment hr
    rw [hr, hmem, hlen] at hcut
    dsimp only at hcut
    rw [cuts_bind, cuts_pure, append_nil] at hcut
    generalize (placeFragment data tier d v).disk = d₂ at hrests hcut
    have hfinal := (recordFragment_spec id index e data hat.keyed hat.mirrors
      hat.rests.content_pending d₂ v ⟨rfl, hrests⟩).2
    let old := v.fragments.lookup (id, index)
    let v' : Index := { v with fragments := v.fragments.insert (id, index) e }
    have hcuts : (recordFragment id index e data.length d₂ v).cuts =
        (freeAll old.toList d₂ v').cuts ++ [(recordFragment id index e data.length d₂ v).disk] :=
      rfl
    have hfew : (freeAll old.toList d₂ v').cuts.length ≤ n - 2 := by
      cases hold : old with
      | none => exact zero_le _
      | some extent =>
        have hne : n ≠ 2 := fun h =>
            hsafe ⟨Finmap.lookup_isSome.1 (Option.isSome_of_eq_some hold), h⟩
        have hone := cuts_freeAll_toList_le (d := d₂) (v := v') (some extent)
        omega
    rw [hcuts] at hcut
    rw [eq_of_getElem?_concat hcut hfew]
    exact hfinal.sound

lemma sound_deleteFragment_cut (hat : At K F c d v)
    (hcut : (deleteFragment id index d v).cuts[n]? = some d') (hsafe : n ≠ 0) : d'.Sound := by
  have hfinal := (deleteFragment_spec id index d v hat).2.2
  cases hold : v.fragments.lookup (id, index) with
  | none =>
    rw [deleteFragment, read_mem_bind, cuts_bind, hold] at hcut
    cases hcut
  | some extent =>
    let v' : Index := { v with fragments := v.fragments.erase (id, index) }
    have hcuts : (deleteFragment id index d v).cuts =
        (free extent d v').cuts ++ [(deleteFragment id index d v).disk] := by
      rw [deleteFragment, read_mem_bind, hold]
      rfl
    have hone := cuts_free_le (d := d) (v := v') extent
    rw [hcuts] at hcut
    rw [eq_of_getElem?_concat hcut (by omega)]
    exact hfinal.sound

lemma cuts_freeUntilError (ho : t o = extents) (h : Rests K F t c d) :
    (freeUntilError extents d v).cuts.length = extents.length := by
  induction extents generalizing t c d v with
  | nil => rfl
  | cons e extents ih =>
    obtain ⟨_, hr, bytes, hv, hrests⟩ := free_spec ho d v ⟨rfl, h⟩
    rw [freeUntilError, cuts_bind, length_append, cuts_free_ok hr, hr, length_cons, add_comm]
    exact congrArg (· + 1) (ih (Function.update_self o extents t) hrests)

lemma cuts_gcFree {L : List (ChunkId × ChunkEntry)}
    (hL : ∀ x ∈ L, t (.chunk x.1) = x.2.extents) (hnodup : (L.map Prod.fst).Nodup)
    (h : Rests K F t c d) :
    (gcFree L d v).cuts.length = (L.map fun x => x.2.extents.length).sum := by
  induction L generalizing t c d v with
  | nil => rfl
  | cons x L ih =>
    obtain ⟨id, entry⟩ := x
    have ho := hL (id, entry) mem_cons_self
    have hrest := update_chunk_extents hL hnodup
    obtain ⟨_, hr, hv, hrests⟩ := freeUntilError_spec ho d v ⟨rfl, h⟩
    rw [gcFree, cuts_bind, length_append, cuts_freeUntilError ho h, hr, map_cons, sum_cons]
    apply congrArg (entry.extents.length + ·)
    change ((gcFree L _ _).cuts ++ []).length = _
    rw [append_nil]
    exact ih hrest (nodup_cons.1 hnodup).2 hrests

lemma sound_gc_cut {order : List ChunkId} (hat : At K F c d v) (horder : order.Nodup)
    (hcut : (gc order d v).cuts[n]? = some d')
    (hsafe : ¬∃ x ∈ (toRemove v order).drop (n + 1 - gcFrees v order), x.2.extents ≠ []) :
    d'.Sound := by
  have hids := map_fst_toRemove hat.mirrors order
  have hL : ∀ x ∈ toRemove v order, tableOf K F (.chunk x.1) = x.2.extents :=
    fun x hx => extents_of_mem_toRemove hat.mirrors hx
  have hnodup : ((toRemove v order).map Prod.fst).Nodup := hids ▸ doomed_nodup horder
  have hlen : (gcFree (toRemove v order) d v).cuts.length = gcFrees v order :=
    cuts_gcFree hL hnodup hat.rests
  have hleft : ∀ x ∈ (toRemove v order).drop (n + 1 - gcFrees v order), x.2.extents = [] := by
    intro x hx
    by_contra hne
    exact hsafe ⟨x, hx, hne⟩
  obtain ⟨_, hremoved, _, hrests⟩ := gcFree_toRemove_spec horder hat.mirrors d v ⟨rfl, hat.rests⟩
  rw [gc, read_mem_bind, cuts_bind, hremoved, cuts_bind, cuts_pure, append_nil] at hcut
  have hn : gcFrees v order ≤ n := by
    by_contra hlt
    -- nothing has been removed yet, so nothing had an extent and nothing was freed
    have hzero : n + 1 - gcFrees v order = 0 := by omega
    rw [hzero, drop_zero] at hleft
    have hfrees : gcFrees v order = 0 := by
      rw [gcFrees, sum_eq_zero]
      intro k hk
      obtain ⟨x, hx, rfl⟩ := mem_map.1 hk
      rw [hleft x hx, length_nil]
    omega
  rw [← hlen] at hn
  rw [getElem?_append_right hn, hlen] at hcut
  have hd := commitAll_cut hcut
  rw [← map_take, foldl_removeChunk] at hd
  generalize (gcFree (toRemove v order) d v).disk = d₂ at hrests hd
  obtain ⟨rfl, rfl, hkept⟩ := hrests
  let k := n - gcFrees v order + 1
  have hk : k = n + 1 - gcFrees v order := by omega
  have htable : tableOf (eraseAll ((doomed d₂.chunks order).take k) d₂.chunks) d₂.fragments =
      without (doomed d₂.chunks order) (tableOf d₂.chunks d₂.fragments) := by
    rw [tableOf_eraseAll]
    conv_rhs => rw [← take_append_drop k (doomed d₂.chunks order)]
    apply (without_append _).symm
    intro id hid
    rw [← hids, ← map_drop, hk] at hid
    obtain ⟨x, hx, rfl⟩ := mem_map.1 hid
    rw [hL x (mem_of_mem_drop hx), hleft x hx]
  rw [hd]
  refine ⟨hat.keyed.eraseAll _, without (doomed d₂.chunks order) c, rfl, rfl, ?_⟩
  change ∃ live, Kept d₂.device live
    (tableOf (eraseAll ((doomed d₂.chunks order).take k) d₂.chunks) d₂.fragments) _
  rw [htable]
  exact hkept

lemma sound_cut (hat : At K F c d v) {op : Op} (hop : op.Iterates v)
    (hcut : (op.run d v).cuts[n]? = some d') (hsafe : ¬op.Exposes v n) : d'.Sound := by
  cases op with
  | writeChunk envelope pool =>
    rw [Op.run, cuts_bind, cuts_pure, append_nil] at hcut
    exact (writeChunk_spec d v hat).1 d' (mem_of_getElem? hcut)
  | incrementRefcount id =>
    rw [Op.run, cuts_bind, cuts_pure, append_nil] at hcut
    exact (updateRecord_map_spec id bump_sameData ChunkRecord.refcount d v hat).1 d'
      (mem_of_getElem? hcut)
  | decrementRefcount id =>
    rw [Op.run, cuts_bind, cuts_pure, append_nil] at hcut
    exact (updateRecord_map_spec id (fun _ _ h => (drop_ok h).2.2) ChunkRecord.refcount d v hat).1
      d' (mem_of_getElem? hcut)
  | tryIncrementIfExists id =>
    rw [Op.run, cuts_bind, cuts_pure, append_nil] at hcut
    exact (tryIncrementIfExists_spec d v hat).1 d' (mem_of_getElem? hcut)
  | setRetentionHold id name =>
    rw [Op.run, cuts_bind, cuts_pure, append_nil] at hcut
    exact (updateRecord_map_spec id (fun _ _ h => (hold_ok h).2) (fun _ => ()) d v hat).1
      d' (mem_of_getElem? hcut)
  | releaseRetentionHold id name =>
    rw [Op.run, cuts_bind, cuts_pure, append_nil] at hcut
    exact (updateRecord_map_spec id (fun _ _ h => (release_ok h).2) (fun _ => ()) d v hat).1
      d' (mem_of_getElem? hcut)
  | gc order =>
    rw [Op.run, cuts_bind, cuts_pure, append_nil] at hcut
    exact sound_gc_cut hat hop.1 hcut hsafe
  | writeFragment id index data tier =>
    rw [Op.run, cuts_bind, cuts_pure, append_nil] at hcut
    exact sound_writeFragment_cut hat hcut hsafe
  | deleteFragment id index =>
    rw [Op.run, cuts_bind, cuts_pure, append_nil] at hcut
    exact sound_deleteFragment_cut hat hcut hsafe

end Cuts

def Durable.extentsOf (d : Durable D) : Owner → List Extent := tableOf d.chunks d.fragments

def Durable.Consistent [DeviceBackend D] [LawfulBackend D] (d : Durable D) : Prop :=
  (∀ (o o' : Owner) (i j : Nat) (e e' : Extent), (d.extentsOf o)[i]? = some e →
    (d.extentsOf o')[j]? = some e' → (o, i) ≠ (o', j) → e.Disjoint e') ∧
  ∀ o e, e ∈ d.extentsOf o → LawfulBackend.Marked d.device e

def emptyStore (device : D) (pools : Finmap fun _ : String => Nat) : Durable D × Index :=
  (⟨device, ∅, ∅⟩, ⟨∅, ∅, pools⟩)

section Runs
variable {D : Type} [DeviceBackend D] [LawfulBackend D] {K : ChunkRows} {F : FragmentRows}
  {c : Owner → Bytes} {d : Durable D} {v : Index}

lemma Durable.Sound.consistent (h : d.Sound) : d.Consistent := by
  obtain ⟨_, c, _, _, live, hkept⟩ := h
  refine ⟨?_, ?_⟩
  · intro o o' i j e e' he he' hne
    exact hkept.disjoint he he' hne
  · intro o e he
    exact LawfulBackend.marked hkept.holds (hkept.owned o e he)

lemma Durable.Sound.at_reopened (h : d.Sound) (pools : Finmap fun _ : String => Nat) :
    ∃ c, At d.chunks d.fragments c (reopened d pools).1 (reopened d pools).2 := by
  obtain ⟨_, _, _, _, live, hkept⟩ := id h
  have hdevice : { d with device := DeviceBackend.reopen d.device } = d := by
    rw [LawfulBackend.reopen hkept.holds]
  rw [reopened, hdevice]
  exact h.at_hydrate pools

omit [DeviceBackend D] [LawfulBackend D] in
lemma exists_follows : ∃ lives, Follows lives K c := by
  refine ⟨fun id => (K.lookup id).map fun record =>
    ⟨⟨c (.chunk id), record.authTag, record.nonce, record.systemEpoch, record.tenantEpoch,
      record.tenantWrappedMaterial, id⟩, record.refcount, 0, 0, record.retentionHolds⟩, ?_⟩
  intro id
  dsimp only
  cases K.lookup id with
  | none => exact Option.Rel.none
  | some record => exact Option.Rel.some ⟨rfl, rfl, rfl⟩

lemma At.call (hat : At K F c d v) {op : Op} (hop : op.Iterates v) :
    ∃ K' F' c', At K' F' c' (op.run d v).disk (op.run d v).mem := by
  obtain ⟨lives, hfollows⟩ := exists_follows
  have htracks : World.Tracks (⟨d, v, lives⟩ : World D) := ⟨K, F, c, hat, hfollows⟩
  obtain ⟨K', F', c', hat', _⟩ := htracks.call hop
  exact ⟨K', F', c', hat'⟩

lemma At.happens {s s' : Durable D × Index} {ev : Event} (hat : At K F c s.1 s.2)
    (hstep : Happens ev s s') (hsafe : ¬ev.Exposes s.2) : ∃ K' F' c', At K' F' c' s'.1 s'.2 := by
  cases hstep with
  | call hop => exact hat.call hop
  | crash hop hcut =>
    obtain ⟨c', hat'⟩ := (sound_cut hat hop hcut hsafe).at_reopened _
    exact ⟨_, _, c', hat'⟩
  | restart =>
    obtain ⟨c', hat'⟩ := hat.sound.at_reopened _
    exact ⟨_, _, c', hat'⟩

end Runs

/-- Outside the window every durable record keeps allocated extents of its own. -/
theorem chunk_store_crash_consistent {D : Type} [DeviceBackend D] [LawfulBackend D] {device : D}
    {live : Finset Extent} (hdevice : LawfulBackend.Holds device live)
    {pools : Finmap fun _ : String => Nat} {s : Durable D × Index}
    (hrun : ReflTransGen (fun s s' => ∃ ev, Happens ev s s' ∧ ¬ev.Exposes s.2)
      (emptyStore device pools) s) : s.1.Consistent := by
  have hat : ∃ K F c, At K F c s.1 s.2 := by
    induction hrun with
    | refl =>
      obtain ⟨K, F, c, hat, _⟩ := World.tracks_fresh hdevice pools
      exact ⟨K, F, c, hat⟩
    | tail _ hstep ih =>
      obtain ⟨K, F, c, hat⟩ := ih
      obtain ⟨ev, hhappens, hsafe⟩ := hstep
      exact hat.happens hhappens hsafe
  obtain ⟨K, F, c, hat⟩ := hat
  exact hat.sound.consistent

def stored : Durable (FileBackedDevice fun _ => 0) × Index :=
  let o := (Op.writeFragment small.chunkId 0 [1] none).run ⟨FileBackedDevice.tiny, ∅, ∅⟩ ⟨∅, ∅, ∅⟩
  (o.disk, o.mem)

def overwrite : Op := .writeFragment small.chunkId 0 [2] none

lemma cuts_overwrite : (overwrite.run stored.1 stored.2).cuts.length = 4 := by decide

/-- The crash falls between the new bytes and the free of the old extent. -/
theorem chunk_store_crash_consistent_overwrite :
    ∃ d, (overwrite.run stored.1 stored.2).cuts[1]? = some d ∧
      (reopened d ∅).1.Consistent := by
  have hdevice : LawfulBackend.Holds tiny ∅ := holds_init _
  have hlt : 1 < (overwrite.run stored.1 stored.2).cuts.length := by
    rw [cuts_overwrite]
    decide
  have hcut := getElem?_eq_getElem hlt
  have hfirst : Happens (.call (.writeFragment small.chunkId 0 [1] none))
      (emptyStore tiny ∅) stored := .call trivial
  have hsecond : Happens (.crash overwrite 1 ∅) stored (reopened _ ∅) := .crash trivial hcut
  have hsafe : ¬(Event.crash overwrite 1 ∅).Exposes stored.2 :=
    fun hexposes => absurd hexposes.2 (by decide)
  have hrun : ReflTransGen (fun s s' => ∃ ev, Happens ev s s' ∧ ¬ev.Exposes s.2)
      (emptyStore tiny ∅) (reopened _ ∅) :=
    .tail (.single ⟨_, hfirst, fun h => h⟩) ⟨_, hsecond, hsafe⟩
  exact ⟨_, hcut, chunk_store_crash_consistent hdevice hrun⟩

def crashed : Durable (FileBackedDevice fun _ => 0) × Index :=
  reopened ((overwrite.run stored.1 stored.2).cuts.getD 2 stored.1) ∅

def another : Op := .writeFragment small.chunkId 1 [3] none

lemma extents_another :
    (another.run crashed.1 crashed.2).disk.extentsOf (.fragment (small.chunkId, 0)) = [⟨0, 16⟩] ∧
    (another.run crashed.1 crashed.2).disk.extentsOf (.fragment (small.chunkId, 1)) =
      [⟨0, 16⟩] := by
  decide

/-- Two records on the disk then name the same extent. -/
theorem overwrite_crash_shares_extent : ∃ s : Durable (FileBackedDevice fun _ => 0) × Index,
    ReflTransGen (fun s s' => ∃ ev, Happens ev s s')
      (emptyStore FileBackedDevice.tiny ∅) s ∧ ¬s.1.Consistent := by
  have hlt : 2 < (overwrite.run stored.1 stored.2).cuts.length := by
    rw [cuts_overwrite]
    decide
  have hcut : (overwrite.run stored.1 stored.2).cuts[2]? =
      some ((overwrite.run stored.1 stored.2).cuts.getD 2 stored.1) := by
    rw [getElem?_eq_getElem hlt, getD_eq_getElem _ _ hlt]
  have hfirst : Happens (.call (.writeFragment small.chunkId 0 [1] none))
      (emptyStore tiny ∅) stored := .call trivial
  have hsecond : Happens (.crash overwrite 2 ∅) stored crashed := .crash trivial hcut
  have hthird : Happens (.call another) crashed
      ((another.run crashed.1 crashed.2).disk, (another.run crashed.1 crashed.2).mem) :=
    .call trivial
  refine ⟨_, .tail (.tail (.single ⟨_, hfirst⟩) ⟨_, hsecond⟩) ⟨_, hthird⟩, ?_⟩
  intro hconsistent
  obtain ⟨hold, hnew⟩ := extents_another
  have happart := hconsistent.1 (.fragment (small.chunkId, 0)) (.fragment (small.chunkId, 1)) 0 0
    ⟨0, 16⟩ ⟨0, 16⟩ (by rw [hold]; rfl) (by rw [hnew]; rfl) (by decide)
  exact absurd (Extent.length_eq_zero_of_disjoint_self happart) (by decide)

end Kiseki.Chunk
