import Kiseki.Composition.Store

namespace Kiseki.Compositions
open Intent Finmap Option CompositionStore Storage

namespace PendingNames

def Unbound (id : CompositionId) (p : PendingNames) : Prop :=
  ∀ k seq, p.byName.lookup k ≠ some (id, seq)

def Bound (id : CompositionId) (p : PendingNames) : Prop :=
  ∀ k seq, p.byName.lookup k = some (id, seq) → p.byId.lookup id = some k

section
variable {p : PendingNames} {k : NameKey} {id x : CompositionId}

lemma Unbound.bound (h : p.Unbound id) : p.Bound id := fun k seq hk => absurd hk (h k seq)

lemma lookup_byName_removeById (h : (p.removeById x).byName.lookup k = some b) :
    p.byName.lookup k = some b := by
  simp only [removeById] at h
  split at h
  · split at h
    · exact (Maps.of_lookup_erase h).2
    · exact h
  · exact h

lemma Unbound.removeById (h : p.Unbound id) : (p.removeById x).Unbound id :=
  fun k seq hk => h k seq (lookup_byName_removeById hk)

lemma Bound.removeById_of_ne (h : p.Bound id) (hx : id ≠ x) : (p.removeById x).Bound id := by
  intro k seq hk
  have hid := h k seq (lookup_byName_removeById hk)
  simp only [PendingNames.removeById]
  split
  · rw [lookup_erase_ne hx]
    exact hid
  · exact hid

lemma Bound.removeById_self (h : p.Bound id) : (p.removeById id).Unbound id := by
  intro k seq hk
  have hold := lookup_byName_removeById hk
  have howns : p.owns k id = true := by
    rw [owns, hold]
    exact beq_self_eq_true _
  simp only [PendingNames.removeById, h k seq hold, howns, if_true, lookup_erase] at hk
  cases hk

def byIdWithout (p : PendingNames) (key : NameKey) (x : CompositionId) :
    Finmap fun _ : CompositionId => NameKey :=
  match p.byName.lookup key with
  | some (old, _) => if old = x then p.byId else p.byId.erase old
  | none => p.byId

lemma lookup_byIdWithout (h : id ≠ x → ∀ seq, p.byName.lookup key ≠ some (id, seq)) :
    (p.byIdWithout key x).lookup id = p.byId.lookup id := by
  simp only [byIdWithout]
  split
  · rename_i old seq hold
    split
    · rfl
    · rename_i hne
      apply lookup_erase_ne
      rintro rfl
      exact h hne seq hold
  · rfl

lemma bind_of_none (hrev : (p.byIdWithout key x).lookup x = none) :
    p.bind key x seq = ⟨p.byName.insert key (x, seq), (p.byIdWithout key x).insert x key⟩ := by
  rw [bind]
  dsimp only
  split
  · rename_i previous hprevious
    cases hrev.symm.trans hprevious
  · rfl

lemma bind_of_some (hrev : (p.byIdWithout key x).lookup x = some previous) :
    p.bind key x seq =
      if previous ≠ key ∧ owns ⟨p.byName.insert key (x, seq), (p.byIdWithout key x).insert x key⟩
          previous x then
        ⟨(p.byName.insert key (x, seq)).erase previous, (p.byIdWithout key x).insert x key⟩
      else ⟨p.byName.insert key (x, seq), (p.byIdWithout key x).insert x key⟩ := by
  rw [bind]
  dsimp only
  split
  · rename_i previous' hprevious
    obtain rfl := some.inj (hrev.symm.trans hprevious)
    rfl
  · rename_i hnone
    cases hrev.symm.trans hnone

lemma bind_cases (key : NameKey) (seq : Option PerspectiveSeq) :
    (p.bind key x seq).byId = (p.byIdWithout key x).insert x key ∧
      ((p.bind key x seq).byName = p.byName.insert key (x, seq) ∧
          (∀ previous seq', (p.byIdWithout key x).lookup x = some previous → previous ≠ key →
            p.byName.lookup previous ≠ some (x, seq')) ∨
        ∃ previous, (p.byIdWithout key x).lookup x = some previous ∧
          (p.bind key x seq).byName = (p.byName.insert key (x, seq)).erase previous) := by
  cases hrev : (p.byIdWithout key x).lookup x with
  | none =>
    rw [bind_of_none hrev]
    refine ⟨rfl, .inl ⟨rfl, fun previous seq' hprevious => ?_⟩⟩
    cases hprevious
  | some previous =>
    rw [bind_of_some hrev]
    split
    · exact ⟨rfl, .inr ⟨previous, rfl, rfl⟩⟩
    · rename_i howns
      refine ⟨rfl, .inl ⟨rfl, ?_⟩⟩
      rintro _ seq' ⟨⟩ hne hprevious
      apply howns
      refine ⟨hne, ?_⟩
      rw [owns, lookup_insert_of_ne _ hne, hprevious]
      exact beq_self_eq_true _

lemma lookup_byName_bind (h : (p.bind key x seq).byName.lookup k = some b) :
    k = key ∧ b = (x, seq) ∨ k ≠ key ∧ p.byName.lookup k = some b := by
  have hinsert : (p.byName.insert key (x, seq)).lookup k = some b := by
    rcases (bind_cases key seq).2 with ⟨heq, _⟩ | ⟨previous, _, heq⟩
    · rw [← heq]
      exact h
    · rw [heq] at h
      exact (Maps.of_lookup_erase h).2
  exact Maps.of_lookup_insert hinsert

lemma Unbound.bind (h : p.Unbound id) (hx : x ≠ id) (key : NameKey)
    (seq : Option PerspectiveSeq) : (p.bind key x seq).Unbound id := by
  intro k seq' hk
  rcases lookup_byName_bind hk with ⟨_, heq⟩ | ⟨_, hold⟩
  · exact hx (congrArg Prod.fst heq).symm
  · exact h k seq' hold

lemma Bound.bind (h : p.Bound id) (key : NameKey) (x : CompositionId)
    (seq : Option PerspectiveSeq) : (p.bind key x seq).Bound id := by
  intro k seq' hk
  obtain ⟨hbyId, hbyName⟩ := bind_cases key seq
  rw [hbyId]
  rcases lookup_byName_bind hk with ⟨rfl, heq⟩ | ⟨hne, hold⟩
  · obtain rfl : id = x := congrArg Prod.fst heq
    exact lookup_insert _
  · have hrev := h k seq' hold
    have hwithout : (p.byIdWithout key x).lookup id = some k := by
      rw [lookup_byIdWithout, hrev]
      intro _ seq hkey
      exact hne (some.inj (hrev.symm.trans (h key seq hkey)))
    by_cases hx : id = x
    · -- the row's own older name is the one that this bind takes away
      subst hx
      rcases hbyName with ⟨_, hkept⟩ | ⟨previous, hprevious, heq⟩
      · exact absurd hold (hkept k seq' hwithout hne)
      · obtain rfl := some.inj (hwithout.symm.trans hprevious)
        rw [heq, lookup_erase] at hk
        cases hk
    · rw [lookup_insert_of_ne _ hx]
      exact hwithout

lemma lookup_byName_removeByName (h : (p.removeByName key).byName.lookup k = some b) :
    p.byName.lookup k = some b ∧ (p.byName.lookup key ≠ none → k ≠ key) := by
  simp only [removeByName] at h
  split at h
  · obtain ⟨hk, h⟩ := Maps.of_lookup_erase h
    exact ⟨h, fun _ => hk⟩
  · rename_i hnone
    exact ⟨h, fun hsome => absurd hnone hsome⟩

lemma Unbound.removeByName (h : p.Unbound id) (key : NameKey) : (p.removeByName key).Unbound id :=
  fun k seq hk => h k seq (lookup_byName_removeByName hk).1

lemma Bound.removeByName (h : p.Bound id) (key : NameKey) : (p.removeByName key).Bound id := by
  intro k seq hk
  obtain ⟨hold, hne⟩ := lookup_byName_removeByName hk
  have hrev := h k seq hold
  simp only [PendingNames.removeByName]
  split
  · rename_i old seq' hkey
    have hid : id ≠ old := by
      rintro rfl
      exact hne (by rw [hkey]; exact nofun) (some.inj (hrev.symm.trans (h key seq' hkey)))
    rw [lookup_erase_ne hid]
    exact hrev
  · exact hrev

end

end PendingNames

/-- Rows stand under their ids, and the reverse indexes know their names. -/
structure Tidy (name : Option NameKey) (id : CompositionId) (st : CompositionStore) : Prop where
  keyed : st.storage.Keyed
  overlayKeyed : ∀ x comp, st.pending.lookup x = some comp → comp.id = x
  bound : st.storage.Bound name id
  overlayBound : st.pendingNames.Bound id

structure Undurable (id : CompositionId) (st : CompositionStore) : Prop where
  row : st.storage.get id = none
  unbound : st.storage.Unbound id

structure Unpending (id : CompositionId) (st : CompositionStore) : Prop where
  overlay : st.pending.lookup id = none
  overlayUnbound : st.pendingNames.Unbound id

structure Gone (id : CompositionId) (st : CompositionStore) : Prop
  extends Undurable id st, Unpending id st

section
variable {st : CompositionStore} {id x : CompositionId} {name : Option NameKey}

lemma Gone.find (h : Gone id st) : st.find id = none :=
  find_eq_none.2 ⟨h.overlay, h.row⟩

lemma Gone.lookupByName (h : Gone id st) (key : NameKey) : st.lookupByName key ≠ some id := by
  intro hlookup
  rcases or_eq_some_iff.1 hlookup with hpending | ⟨_, hdurable⟩
  · obtain ⟨⟨_, seq⟩, hentry, rfl⟩ := map_eq_some_iff.1 hpending
    exact h.overlayUnbound key seq hentry
  · exact h.unbound key hdurable

lemma Gone.delete (h : Gone id st) : st.delete id = .error (.compositionNotFound id) := by
  simp only [CompositionStore.delete, h.overlay, h.row]

lemma lookup_pending_discard (h : (st.discardVolatile x).1.pending.lookup id = some comp) :
    st.pending.lookup id = some comp := (Maps.of_lookup_erase h).2

lemma Tidy.discardVolatile (h : Tidy name id st) (x : CompositionId) :
    Tidy name id (st.discardVolatile x).1 := by
  refine ⟨h.keyed, fun y comp hy => h.overlayKeyed y comp (lookup_pending_discard hy), h.bound, ?_⟩
  by_cases hx : id = x
  · rw [← hx]
    exact h.overlayBound.removeById_self.bound
  · exact h.overlayBound.removeById_of_ne hx

lemma Unpending.discardVolatile (h : Unpending id st) (x : CompositionId) :
    Unpending id (st.discardVolatile x).1 := by
  refine ⟨?_, h.overlayUnbound.removeById⟩
  by_contra hsome
  obtain ⟨comp, hcomp⟩ := ne_none_iff_exists'.1 hsome
  cases (lookup_pending_discard hcomp).symm.trans h.overlay

lemma Tidy.discardVolatile_self (h : Tidy name id st) : Unpending id (st.discardVolatile id).1 :=
  ⟨lookup_erase _ _, h.overlayBound.removeById_self⟩

def Composition.bare (comp : Composition) : Composition := { comp with contentType := none }

lemma drainPending_rows (hkeyed : st.storage.Keyed) :
    ∃ rows, st.drainPending x =
        { (st.discardVolatile x).1 with storage := { st.storage with compositions := rows } } ∧
      ∀ y, (rows.lookup y).map Composition.bare = (st.storage.get y).map Composition.bare := by
  have hsame : ∃ rows, (st.discardVolatile x).1 =
        { (st.discardVolatile x).1 with storage := { st.storage with compositions := rows } } ∧
      ∀ y, (rows.lookup y).map Composition.bare = (st.storage.get y).map Composition.bare :=
    ⟨st.storage.compositions, rfl, fun _ => rfl⟩
  simp only [drainPending, mergeDrainedOverlayMetadata]
  split
  · split
    · rename_i contentType durable _ hdurable
      refine ⟨_, rfl, fun y => ?_⟩
      by_cases hy : y = durable.id
      · have hget := hdurable
        rw [← hkeyed _ _ hdurable] at hget
        rw [hy, lookup_insert]
        exact (congrArg (Option.map Composition.bare) hget).symm
      · rw [lookup_insert_of_ne _ hy]
        rfl
    · exact hsame
  · exact hsame

lemma keyed_of_bare {rows : Finmap fun _ : CompositionId => Composition} (h : st.storage.Keyed)
    (hrows : ∀ y, (rows.lookup y).map Composition.bare = (st.storage.get y).map Composition.bare) :
    Storage.Keyed { st.storage with compositions := rows } := by
  intro y comp hcomp
  have hy := hrows y
  rw [show rows.lookup y = some comp from hcomp] at hy
  obtain ⟨row, hrow, heq⟩ := map_eq_some_iff.1 hy.symm
  exact (congrArg Composition.id heq).symm.trans (h y row hrow)

lemma drainAll_induct {P : CompositionStore → Prop}
    (hdiscard : ∀ t x, P t → P (t.discardVolatile x).1)
    (hrows : ∀ (t : CompositionStore) (rows : Finmap fun _ : CompositionId => Composition), P t →
      (∀ y, (rows.lookup y).map Composition.bare = (t.storage.get y).map Composition.bare) →
      P { t with storage := { t.storage with compositions := rows } })
    (hkeyed : st.storage.Keyed) (h : P st) (touched : List CompositionId) :
    P (touched.foldl drainPending st) := by
  have hboth := List.foldlRecOn (motive := fun t : CompositionStore => P t ∧ t.storage.Keyed)
      touched
    drainPending ⟨h, hkeyed⟩ fun t ht x _ => by
      obtain ⟨rows, heq, hbare⟩ := drainPending_rows ht.2
      rw [heq]
      exact ⟨hrows (t.discardVolatile x).1 rows (hdiscard t x ht.1) hbare, keyed_of_bare ht.2 hbare⟩
  exact hboth.1

structure HoldsChunks (id : CompositionId) (chunks : List ChunkId) (st : CompositionStore) :
    Prop where
  overlay : ∀ comp, st.pending.lookup id = some comp → comp.chunks = chunks
  durable : ∀ comp, st.storage.get id = some comp → comp.chunks = chunks

lemma HoldsChunks.find {chunks : List ChunkId} {comp : Composition}
    (h : HoldsChunks id chunks st) (hfind : st.find id = some comp) : comp.chunks = chunks := by
  rcases or_eq_some_iff.1 hfind with hoverlay | ⟨_, hdurable⟩
  · exact h.overlay comp hoverlay
  · exact h.durable comp hdurable

lemma Gone.holdsChunks (h : Gone id st) (chunks : List ChunkId) : HoldsChunks id chunks st := by
  refine ⟨fun comp hcomp => ?_, fun comp hcomp => ?_⟩
  · rw [h.overlay] at hcomp
    cases hcomp
  · rw [h.row] at hcomp
    cases hcomp

variable {touched : List CompositionId}

lemma bare_drainAll (h : st.storage.Keyed) (y : CompositionId) :
    ((touched.foldl CompositionStore.drainPending st).storage.get y).map Composition.bare =
      (st.storage.get y).map Composition.bare :=
  drainAll_induct (P := fun t => (t.storage.get y).map Composition.bare = _) (fun _ _ ht => ht)
    (fun _ _ ht hrows => (hrows y).trans ht) h rfl touched

lemma lookup_pending_drainAll (h : st.storage.Keyed)
    (hcomp : (touched.foldl CompositionStore.drainPending st).pending.lookup id = some comp) :
    st.pending.lookup id = some comp :=
  drainAll_induct (P := fun t => t.pending.lookup id = some comp → _)
    (fun _ _ ht hcomp => ht (lookup_pending_discard hcomp)) (fun _ _ ht _ => ht) h (fun h => h)
    touched hcomp

lemma Tidy.drainAll (h : Tidy name id st) (touched : List CompositionId) :
    Tidy name id (touched.foldl CompositionStore.drainPending st) :=
  drainAll_induct (fun _ x ht => ht.discardVolatile x)
    (fun _ _ ht hrows => ⟨keyed_of_bare ht.keyed hrows, ht.overlayKeyed, ht.bound, ht.overlayBound⟩)
    h.keyed h touched

lemma Unpending.drainAll (h : Unpending id st) (hkeyed : st.storage.Keyed)
    (touched : List CompositionId) :
    Unpending id (touched.foldl CompositionStore.drainPending st) :=
  drainAll_induct (fun _ x ht => ht.discardVolatile x)
    (fun _ _ ht _ => ⟨ht.overlay, ht.overlayUnbound⟩) hkeyed h touched

lemma Tidy.drainAll_self (h : Tidy name id st)
    (hmem : id ∈ touched) : Unpending id (touched.foldl CompositionStore.drainPending st) := by
  induction touched generalizing st with
  | nil => cases hmem
  | cons x touched ih =>
    have hdrained := h.drainAll [x]
    rw [List.foldl_cons]
    by_cases hx : id = x
    · subst hx
      obtain ⟨rows, heq, _⟩ := drainPending_rows h.keyed
      have hself : Unpending id (st.drainPending id) := by
        rw [heq]
        exact ⟨h.discardVolatile_self.overlay, h.discardVolatile_self.overlayUnbound⟩
      exact hself.drainAll hdrained.keyed touched
    · exact ih hdrained (List.mem_of_ne_of_mem hx hmem)

end

/-- One change of an operation; `name` is the only name it binds durably. -/
inductive Touch (x : CompositionId) (name : Option NameKey) (st : CompositionStore) :
    CompositionStore → Prop where
  | row (comp : Composition) (hid : comp.id = x) : Touch x name st (st.putRow comp)
  | removeRow : Touch x name st { st with storage := st.storage.remove x }
  | bindName (key : NameKey) (hkey : name = some key) :
      Touch x name st { st with storage := st.storage.nameInsert key x }
  | overlayRow (comp : Composition) (hid : comp.id = x) :
      Touch x name st { st with pending := st.pending.insert x comp }
  | overlayName (key : NameKey) (seq : Option PerspectiveSeq) :
      Touch x name st { st with pendingNames := st.pendingNames.bind key x seq }
  | freeName (key : NameKey) :
      Touch x name st { st with pendingNames := st.pendingNames.removeByName key }
  | discard : Touch x name st (st.discardVolatile x).1
  | uploads (multiparts : Finmap fun _ : String => MultipartUpload × NamespaceId) :
      Touch x name st { st with multiparts := multiparts }

abbrev Touches (x : CompositionId) (name : Option NameKey) :=
  Relation.ReflTransGen (Touch x name)

section
variable {st st' : CompositionStore} {id x : CompositionId} {name key : Option NameKey}

lemma Tidy.touch (h : Tidy name id st) (htouch : Touch x key st st')
    (hkey : x = id → key = name) : Tidy name id st' := by
  cases htouch with
  | row comp hid => exact ⟨h.keyed.put comp, h.overlayKeyed, h.bound, h.overlayBound⟩
  | removeRow =>
    refine ⟨h.keyed.dropRow, h.overlayKeyed, ?_, h.overlayBound⟩
    by_cases hx : id = x
    · subst hx
      exact (h.bound.dropRow_self rfl).bound
    · exact h.bound.dropRow_of_ne hx
  | bindName bound hbound =>
    refine ⟨h.keyed.ofRows compositions_bind, h.overlayKeyed, ?_, h.overlayBound⟩
    exact h.bound.bind h.bound (fun hx => (hkey hx).symm.trans hbound) none
  | overlayRow comp hid =>
    exact ⟨h.keyed, Maps.forall_insert h.overlayKeyed hid, h.bound, h.overlayBound⟩
  | overlayName bound seq =>
    exact ⟨h.keyed, h.overlayKeyed, h.bound, h.overlayBound.bind bound x seq⟩
  | freeName bound => exact ⟨h.keyed, h.overlayKeyed, h.bound, h.overlayBound.removeByName bound⟩
  | discard => exact h.discardVolatile x
  | uploads multiparts => exact ⟨h.keyed, h.overlayKeyed, h.bound, h.overlayBound⟩

lemma Tidy.touches (h : Tidy name id st) (htouches : Touches x key st st')
    (hkey : x = id → key = name) : Tidy name id st' := by
  induction htouches with
  | refl => exact h
  | tail _ htouch ih => exact ih.touch htouch hkey

structure Elsewhere (id : CompositionId) (st st' : CompositionStore) : Prop where
  row : st'.storage.get id = st.storage.get id
  unbound : st.storage.Unbound id → st'.storage.Unbound id
  overlay : st'.pending.lookup id = st.pending.lookup id
  overlayUnbound : st.pendingNames.Unbound id → st'.pendingNames.Unbound id

lemma Touch.elsewhere (htouch : Touch x key st st') (hx : id ≠ x) : Elsewhere id st st' := by
  cases htouch with
  | row comp hid => exact ⟨lookup_insert_of_ne _ (hid ▸ hx), fun h => h, rfl, fun h => h⟩
  | removeRow => exact ⟨get_remove_of_ne hx, fun h => h.dropRow, rfl, fun h => h⟩
  | bindName bound hbound =>
    refine ⟨?_, fun h => h.bind hx.symm none, rfl, fun h => h⟩
    rw [Storage.get, Storage.nameInsert, Storage.compositions_bind]
    rfl
  | overlayRow comp hid => exact ⟨rfl, fun h => h, lookup_insert_of_ne _ hx, fun h => h⟩
  | overlayName bound seq => exact ⟨rfl, fun h => h, rfl, fun h => h.bind hx.symm bound seq⟩
  | freeName bound => exact ⟨rfl, fun h => h, rfl, fun h => h.removeByName bound⟩
  | discard => exact ⟨rfl, fun h => h, lookup_erase_ne hx, fun h => h.removeById⟩
  | uploads multiparts => exact ⟨rfl, fun h => h, rfl, fun h => h⟩

lemma elsewhere_touches (htouches : Touches x key st st') (hx : id ≠ x) :
    Elsewhere id st st' := by
  induction htouches with
  | refl => exact ⟨rfl, fun h => h, rfl, fun h => h⟩
  | tail _ htouch ih =>
    have hstep := htouch.elsewhere hx
    exact ⟨hstep.row.trans ih.row, fun h => hstep.unbound (ih.unbound h),
      hstep.overlay.trans ih.overlay, fun h => hstep.overlayUnbound (ih.overlayUnbound h)⟩

lemma get_touches_of_ne (htouches : Touches x key st st') (hx : id ≠ x) :
    st'.storage.get id = st.storage.get id := (elsewhere_touches htouches hx).row

lemma HoldsChunks.touches {chunks : List ChunkId} (h : HoldsChunks id chunks st)
    (htouches : Touches x key st st') (hx : id ≠ x) : HoldsChunks id chunks st' := by
  have hkept := elsewhere_touches htouches hx
  constructor
  · exact fun comp hcomp => h.overlay comp (hkept.overlay ▸ hcomp)
  · exact fun comp hcomp => h.durable comp (hkept.row ▸ hcomp)

lemma Undurable.touches (h : Undurable id st) (htouches : Touches x key st st') (hx : id ≠ x) :
    Undurable id st' := by
  have hkept := elsewhere_touches htouches hx
  exact ⟨hkept.row.trans h.row, hkept.unbound h.unbound⟩

lemma Unpending.touches (h : Unpending id st) (htouches : Touches x key st st') (hx : id ≠ x) :
    Unpending id st' := by
  have hkept := elsewhere_touches htouches hx
  exact ⟨hkept.overlay.trans h.overlay, hkept.overlayUnbound h.overlayUnbound⟩

lemma delete_touches {result : DeleteResult} (h : Tidy name id st)
    (hdelete : st.delete x = .ok (st', result)) : Touches x key st st' := by
  simp only [delete] at hdelete
  split at hdelete
  · rename_i comp hpending
    split at hdelete
    · cases hdelete
      exact .single (.overlayRow _ (h.overlayKeyed x comp hpending))
    · cases hdelete
      exact .single .discard
  · split at hdelete
    · rename_i comp hstorage
      split at hdelete
      · cases hdelete
        exact .single (.row _ (h.keyed x comp hstorage))
      · cases hdelete
        exact .single .removeRow
    · cases hdelete

end

end Kiseki.Compositions
