import Kiseki.Composition.Bijection

namespace Kiseki.Compositions
open Intent Function Finmap CompositionStore Storage List Bool

def ifNoneMatch (name : String) : ConditionalCheck
  | some _ =>
    .error ("object \"" ++ name ++ "\" already exists; If-None-Match: * requires it not to")
  | none => .ok ()

structure CreateCall where
  isVolatile : Bool
  id : CompositionId
  chunks : List ChunkId
  size : Nat
  seq : Option PerspectiveSeq

namespace CreateCall

def row (c : CreateCall) (ns : Namespace) : Composition := .new ns c.id c.chunks [] c.size

def delta (c : CreateCall) (key : NameKey) : DeltaOp :=
  .create c.id key.1 c.size (some key.2) none c.seq c.chunks

end CreateCall

/-- From `unpending` to `written` a create holds the lock of the name. -/
inductive CreatePhase where
  | idle
  | started (ns : Namespace)
  | unpending (ns : Namespace)
  | passed (ns : Namespace)
  | rowed (ns : Namespace)
  | overflowing (ns : Namespace) (prior : Option CompositionId)
  | written
  | succeeded
  | failed (e : CompositionError)

variable {key : NameKey}

namespace CreatePhase

@[simp] def locked : CreatePhase → Bool
  | .unpending _ | .passed _ | .rowed _ | .overflowing _ _ | .written => true
  | _ => false

@[simp] def won : CreatePhase → Bool
  | .written | .succeeded => true
  | _ => false

def checked (key : NameKey) (existing : Option CompositionId) (ns : Namespace) : CreatePhase :=
  match checkConditional (some (ifNoneMatch key.2)) existing with
  | .ok _ => .passed ns
  | .error e => .failed e

lemma checked_cases (existing : Option CompositionId) (ns : Namespace) :
    existing = none ∧ checked key existing ns = .passed ns ∨
      ∃ e, checked key existing ns = .failed e := by
  cases existing with
  | none => exact .inl ⟨rfl, rfl⟩
  | some x => exact .inr ⟨_, rfl⟩

end CreatePhase

inductive LookupPhase where
  | idle
  | unpending
  | returned (id : Option CompositionId)

/-- Its batch is committed, then the overlay loses the row and the name. -/
inductive DrainPhase (T : Type) where
  | idle
  | committed (t : T)
  | dropped (t : T)

structure Naming (T R K : Type) where
  store : CompositionStore
  creates : T → CreatePhase
  lookups : R → LookupPhase
  hydrators : K → DrainPhase T

structure Binding where
  overlay : Option CompositionId
  durable : Option CompositionId
  stamp : Option PerspectiveSeq

structure Binding.Holds (b : Binding) (c : CreateCall) : Prop where
  overlay : ∀ x, b.overlay = some x → x = c.id
  durable : ∀ x, b.durable = some x → x = c.id
  bound : b.overlay ≠ none ∨ b.durable ≠ none
  stamp : b.stamp = none ∨ b.stamp = c.seq

section
variable {b b' : Binding} {c : CreateCall} {p : CreatePhase}

lemma Binding.Holds.ne_unbound (h : b.Holds c) : b ≠ ⟨none, none, none⟩ := by
  rintro rfl
  simpa using h.bound

lemma Binding.Holds.durable_of_none (h : b.Holds c) (hoverlay : b.overlay = none) :
    b.durable = some c.id := by
  obtain ⟨x, hx⟩ := Option.ne_none_iff_exists'.1 (h.bound.resolve_left (not_not_intro hoverlay))
  rw [hx, h.durable x hx]

lemma Binding.Holds.accepts (h : b.Holds c) : lwwAcceptsBind b.stamp c.seq = true := by
  rcases h.stamp with hstamp | hstamp
  · rw [hstamp]
    rfl
  · rw [hstamp]
    cases c.seq with
    | none => rfl
    | some seq => exact decide_eq_true (le_refl seq)

lemma Binding.holds_durable {overlay : Option CompositionId} {stamp : Option PerspectiveSeq}
    (hoverlay : ∀ x, overlay = some x → x = c.id) (hstamp : stamp = none ∨ stamp = c.seq) :
    (Binding.mk overlay (some c.id) stamp).Holds c :=
  ⟨hoverlay, by simp, by simp, hstamp⟩

def CreatePhase.Fits (b : Binding) (c : CreateCall) : CreatePhase → Prop
  | .unpending _ => b.overlay = none
  | .passed _ | .rowed _ | .overflowing _ _ => b = ⟨none, none, none⟩
  | .written => b.Holds c ∧ b.durable = some c.id
  | .succeeded => b.Holds c
  | .idle | .started _ | .failed _ => True

lemma CreatePhase.Fits.holds (h : p.Fits b c) (hwon : p.won = true) : b.Holds c := by
  cases p with
  | written => exact h.1
  | succeeded => exact h
  | idle | started | unpending | passed | rowed | overflowing | failed => cases hwon

lemma CreatePhase.fits_of_free (hlocked : p.locked = false) (hwon : p.won = false) :
    p.Fits b c := by
  cases p with
  | idle | started | failed => trivial
  | unpending | passed | rowed | overflowing | written => cases hlocked
  | succeeded => cases hwon

lemma CreatePhase.Fits.rebind (h : p.Fits b c) (hbound : b ≠ ⟨none, none, none⟩)
    (hoverlay : b.overlay = none → b'.overlay = none)
    (hwon : p.won = true → b'.Holds c ∧ (b.durable = some c.id → b'.durable = some c.id)) :
    p.Fits b' c := by
  cases p with
  | unpending => exact hoverlay h
  | passed | rowed | overflowing => exact absurd h hbound
  | written => exact ⟨(hwon rfl).1, (hwon rfl).2 h.2⟩
  | succeeded => exact (hwon rfl).1
  | idle | started | failed => trivial

end

variable {id : CompositionId}

namespace PendingNames

section
variable (p : PendingNames) (key : NameKey)

lemma lookup_byName_bind_self
    (seq : Option PerspectiveSeq) : (p.bind key id seq).byName.lookup key = some (id, seq) := by
  cases hrev : (p.byIdWithout key id).lookup id with
  | none =>
    rw [bind_of_none hrev]
    exact lookup_insert _
  | some previous =>
    rw [bind_of_some hrev]
    split
    · rename_i hprevious
      exact (lookup_erase_ne hprevious.1.symm).trans (lookup_insert _)
    · exact lookup_insert _

lemma lookup_byName_removeByName_self : (p.removeByName key).byName.lookup key = none := by
  rw [removeByName]
  split
  · exact lookup_erase ..
  · assumption

lemma lookup_byName_removeById_cases (id : CompositionId) :
    (p.removeById id).byName.lookup key = p.byName.lookup key ∨
      (p.byName.lookup key).map Prod.fst = some id ∧
        (p.removeById id).byName.lookup key = none := by
  rw [removeById]
  split
  · rename_i old hold
    split
    · rename_i howns
      by_cases hkey : key = old
      · subst hkey
        exact .inr ⟨eq_of_beq howns, lookup_erase ..⟩
      · exact .inl (lookup_erase_ne hkey)
    · exact .inl rfl
  · exact .inl rfl

end

end PendingNames

lemma Storage.lookup_bind {seen : Storage} (s : Storage) {seq : Option PerspectiveSeq}
    (haccepts : lwwAcceptsBind (seen.nameSeqs.lookup key) seq = true) :
    (bind seen s key id seq).nameLookup key = some id ∧
      (bind seen s key id seq).nameSeqs.lookup key = seq := by
  rw [bind, if_pos haccepts]
  constructor
  · rw [nameLookup, names_nameSeqRecord]
    exact lookup_insert _
  · cases seq with
    | none => exact lookup_erase ..
    | some seq => exact lookup_insert _

variable {backend : Backend}

lemma Storage.lookup_putWithNamePrior (s : Storage) (comp : Composition)
    (prior : Option CompositionId) :
    (s.putWithNamePrior backend comp key prior).nameLookup key = some comp.id ∧
      (s.putWithNamePrior backend comp key prior).nameSeqs.lookup key = none := by
  cases backend with
  | memory => exact lookup_bind (s.put comp) (lwwAcceptsBind_none _)
  | fjall => exact ⟨lookup_insert _, lookup_erase ..⟩

lemma Storage.lookup_applyHydrationBatch (s : Storage)
    (batch : HydrationBatch) {key : NameKey} {id : CompositionId} {seq : Option PerspectiveSeq}
    (hremoves : batch.removes = []) (hunbinds : batch.nameRemoves = [])
    (hbinds : batch.nameInserts = [(key, id, seq)])
    (haccepts : lwwAcceptsBind (s.nameSeqs.lookup key) seq = true) :
    (s.applyHydrationBatch backend batch).nameLookup key = some id ∧
      (s.applyHydrationBatch backend batch).nameSeqs.lookup key = seq := by
  have hputs : (batch.puts.foldl put s).nameSeqs = s.nameSeqs :=
    foldlRecOn (motive := fun t : Storage => t.nameSeqs = s.nameSeqs) batch.puts _ rfl
      fun _ ht _ _ => ht
  have hseen : (seenBy backend s (batch.puts.foldl put s)).nameSeqs =
      s.nameSeqs := by
    cases backend with
    | memory => exact hputs
    | fjall => rfl
  simp only [applyHydrationBatch, hremoves, hunbinds, hbinds, foldl_nil, foldl_cons]
  apply lookup_bind
  rw [hseen]
  exact haccepts

lemma CreateCall.stageAll_delta (st : CompositionStore) (c : CreateCall) :
    let staging := stageAll st {} [c.delta key]
    staging.removes = [] ∧ staging.nameRemoves = [] ∧ staging.namespaceInserts = [] ∧
      (staging.nameInserts = [(key, c.id, c.seq)] ∨
        staging.nameInserts = [] ∧ staging.puts = []) := by
  simp only [stageAll, foldl_cons, foldl_nil, CreateCall.delta, stage, stageCreate]
  split
  · exact ⟨rfl, rfl, rfl, .inl rfl⟩
  · split
    · exact ⟨rfl, rfl, rfl, .inr ⟨rfl, rfl⟩⟩
    · exact ⟨rfl, rfl, rfl, .inl rfl⟩

namespace CompositionStore

def binding (st : CompositionStore) (key : NameKey) : Binding :=
  ⟨(st.pendingNames.byName.lookup key).map Prod.fst, st.storage.nameLookup key,
    st.storage.nameSeqs.lookup key⟩

lemma binding_putWithName (st : CompositionStore) (comp : Composition) (key : NameKey)
    (prior : Option CompositionId) :
    binding { st with
      storage := st.storage.putWithNamePrior st.backend comp key prior } key =
      ⟨(st.binding key).overlay, some comp.id, none⟩ := by
  obtain ⟨hname, hstamp⟩ := st.storage.lookup_putWithNamePrior comp prior
  rw [binding, hname, hstamp]
  rfl

section
variable (st : CompositionStore) (key : NameKey)

lemma binding_bind (id : CompositionId) (seq : Option PerspectiveSeq) :
    binding { st with pendingNames := st.pendingNames.bind key id seq } key =
      ⟨some id, (st.binding key).durable, (st.binding key).stamp⟩ := by
  rw [binding, PendingNames.lookup_byName_bind_self]
  rfl

lemma binding_removeByName :
    binding { st with pendingNames := st.pendingNames.removeByName key } key =
      ⟨none, (st.binding key).durable, (st.binding key).stamp⟩ := by
  rw [binding, PendingNames.lookup_byName_removeByName_self]
  rfl

lemma binding_removeById (id : CompositionId) :
    binding { st with pendingNames := st.pendingNames.removeById id } key =
        st.binding key ∨
      (st.binding key).overlay = some id ∧
        binding { st with pendingNames := st.pendingNames.removeById id } key =
          ⟨none, (st.binding key).durable, (st.binding key).stamp⟩ := by
  rcases st.pendingNames.lookup_byName_removeById_cases key id with hsame | ⟨hown, hnone⟩
  · left
    rw [binding, hsame]
    rfl
  · refine .inr ⟨hown, ?_⟩
    rw [binding, hnone]
    rfl

lemma binding_committed (c : CreateCall)
    {staging : Staging} (hstaging : staging = stageAll st {} [c.delta key]) (shardId : ShardId)
    (lastApplied : Nat) (stuck : Option (Nat × Nat))
    (haccepts : lwwAcceptsBind (st.binding key).stamp c.seq = true) :
    (committed shardId st staging lastApplied stuck).binding key =
        ⟨(st.binding key).overlay, some c.id, c.seq⟩ ∨
      staging.puts = [] ∧
        (committed shardId st staging lastApplied stuck).binding key = st.binding key := by
  obtain ⟨hremoves, hunbinds, hnamespaces, hbinds⟩ := c.stageAll_delta st
  rw [← hstaging] at hremoves hunbinds hnamespaces hbinds
  rw [committed, hnamespaces, foldl_nil]
  rcases hbinds with hbinds | ⟨hbinds, hputs⟩
  · left
    obtain ⟨hname, hstamp⟩ := lookup_applyHydrationBatch st.storage
      (windowBatch shardId staging lastApplied stuck) hremoves hunbinds hbinds haccepts
    rw [binding, hname, hstamp]
    rfl
  · refine .inr ⟨hputs, ?_⟩
    rw [windowBatch, hputs, hremoves, hunbinds, hbinds]
    rfl

end

end CompositionStore

namespace Naming
variable {T R K : Type}

def Free (s : Naming T R K) : Prop := ∀ t, (s.creates t).locked = false

def Unshadowed (key : NameKey) (s : Naming T R K) : Prop := (s.store.binding key).overlay = none

structure Opened (key : NameKey) (s : Naming T R K) : Prop where
  binding : s.store.binding key = ⟨none, none, none⟩
  creates : ∀ t, s.creates t = .idle
  hydrators : ∀ k, s.hydrators k = .idle

def askedOverlay (key : NameKey) (ns : Namespace) : Option CompositionId → CreatePhase
  | some id => .checked key (some id) ns
  | none => .unpending ns

section
variable [DecidableEq T]

def setCreate (s : Naming T R K) (t : T) (phase : CreatePhase) (store : CompositionStore) :
    Naming T R K :=
  { s with store := store, creates := update s.creates t phase }

@[simp] lemma creates_setCreate (s : Naming T R K) (t u : T) (phase : CreatePhase)
    (store : CompositionStore) :
    (s.setCreate t phase store).creates u = if u = t then phase else s.creates u :=
  update_apply ..

/-- The synchronous create uses the storage, the volatile one the overlay first. -/
inductive CreateStep (key : NameKey) (c : CreateCall) (ok : Naming T R K → Prop) (t : T) :
    Naming T R K → Naming T R K → Prop
  | start (h : s.creates t = .idle) (hns : s.store.writable key.1 = .ok ns) :
      CreateStep key c ok t s (s.setCreate t (.started ns) s.store)
  | refuse (h : s.creates t = .idle) (hns : s.store.writable key.1 = .error e) :
      CreateStep key c ok t s (s.setCreate t (.failed e) s.store)
  | askStorage (h : s.creates t = .started ns) (hsync : c.isVolatile = false) (hfree : s.Free)
      (hok : ok s) :
      CreateStep key c ok t s
        (s.setCreate t (.checked key (s.store.storage.nameLookup key) ns) s.store)
  | askOverlay (h : s.creates t = .started ns) (hvolatile : c.isVolatile = true)
      (hfree : s.Free) :
      CreateStep key c ok t s (s.setCreate t
        (askedOverlay key ns ((s.store.pendingNames.byName.lookup key).map Prod.fst)) s.store)
  | askBehind (h : s.creates t = .unpending ns) :
      CreateStep key c ok t s
        (s.setCreate t (.checked key (s.store.storage.nameLookup key) ns) s.store)
  | putWithName (h : s.creates t = .passed ns) (hsync : c.isVolatile = false) :
      CreateStep key c ok t s (s.setCreate t .succeeded { s.store with
        storage := s.store.storage.putWithNamePrior s.store.backend (c.row ns) key none })
  | insertRow (h : s.creates t = .passed ns) (hvolatile : c.isVolatile = true)
      (hroom : s.store.pending.keys.card < s.store.pendingMax) :
      CreateStep key c ok t s (s.setCreate t (.rowed ns) { s.store with
        pending := s.store.pending.insert c.id (c.row ns) })
  | bindName (h : s.creates t = .rowed ns) :
      CreateStep key c ok t s (s.setCreate t .succeeded { s.store with
        pendingNames := s.store.pendingNames.bind key c.id c.seq })
  | overflow (h : s.creates t = .passed ns) (hvolatile : c.isVolatile = true)
      (hfull : s.store.pendingMax ≤ s.store.pending.keys.card) :
      CreateStep key c ok t s
        (s.setCreate t (.overflowing ns (s.store.storage.nameLookup key)) s.store)
  | writeThrough (h : s.creates t = .overflowing ns prior) :
      CreateStep key c ok t s (s.setCreate t .written { s.store with
        storage := s.store.storage.putWithNamePrior s.store.backend (c.row ns) key prior })
  | dropOverlay (h : s.creates t = .written) :
      CreateStep key c ok t s (s.setCreate t .succeeded { s.store with
        pendingNames := s.store.pendingNames.removeByName key })

end

section
variable [DecidableEq K]

def setHydrator (s : Naming T R K) (k : K) (phase : DrainPhase T) (store : CompositionStore) :
    Naming T R K :=
  { s with store := store, hydrators := update s.hydrators k phase }

@[simp] lemma hydrators_setHydrator (s : Naming T R K) (k j : K) (phase : DrainPhase T)
    (store : CompositionStore) :
    (s.setHydrator k phase store).hydrators j = if j = k then phase else s.hydrators j :=
  update_apply ..

inductive HydrateStep (key : NameKey) (calls : T → CreateCall) (k : K) :
    Naming T R K → Naming T R K → Prop
  | commit (t : T) (h : s.hydrators k = .idle) (hdone : s.creates t = .succeeded)
      (hstaging : staging = stageAll s.store {} [(calls t).delta key]) (shardId : ShardId)
      (lastApplied : Nat) (stuck : Option (Nat × Nat)) :
      HydrateStep key calls k s
        (s.setHydrator k (if staging.puts.isEmpty then .idle else .committed t)
          (committed shardId s.store staging lastApplied stuck))
  | dropRow (t : T) (h : s.hydrators k = .committed t) :
      HydrateStep key calls k s (s.setHydrator k (.dropped t) { s.store with
        pending := s.store.pending.erase (calls t).id })
  | dropName (t : T) (h : s.hydrators k = .dropped t) :
      HydrateStep key calls k s (s.setHydrator k .idle { s.store with
        pendingNames := s.store.pendingNames.removeById (calls t).id })

end

section
variable [DecidableEq R]

def setLookup (s : Naming T R K) (r : R) (phase : LookupPhase) : Naming T R K :=
  { s with lookups := update s.lookups r phase }

@[simp] lemma lookups_setLookup (s : Naming T R K) (r q : R) (phase : LookupPhase) :
    (s.setLookup r phase).lookups q = if q = r then phase else s.lookups q :=
  update_apply ..

inductive LookupStep (key : NameKey) (r : R) : Naming T R K → Naming T R K → Prop
  | overlay {id : CompositionId} (h : s.lookups r = .idle)
      (hid : (s.store.pendingNames.byName.lookup key).map Prod.fst = some id) :
      LookupStep key r s (s.setLookup r (.returned (some id)))
  | noOverlay (h : s.lookups r = .idle)
      (hid : (s.store.pendingNames.byName.lookup key).map Prod.fst = none) :
      LookupStep key r s (s.setLookup r .unpending)
  | storage (h : s.lookups r = .unpending) :
      LookupStep key r s (s.setLookup r (.returned (s.store.storage.nameLookup key)))
  | finish (h : s.lookups r = .returned out) : LookupStep key r s (s.setLookup r .idle)

end

section
variable [DecidableEq T] [DecidableEq R] [DecidableEq K]

/-- Any interleaving, under a condition on when a synchronous create looks. -/
inductive Step (key : NameKey) (calls : T → CreateCall) (ok : Naming T R K → Prop) :
    Naming T R K → Naming T R K → Prop
  | create (t : T) (h : CreateStep key (calls t) ok t s s') : Step key calls ok s s'
  | hydrate (k : K) (h : HydrateStep key calls k s s') : Step key calls ok s s'
  | lookup (r : R) (h : LookupStep key r s s') : Step key calls ok s s'
  | elsewhere (store : CompositionStore) (h : store.binding key = s.store.binding key) :
      Step key calls ok s { s with store := store }

abbrev Run (key : NameKey) (calls : T → CreateCall) (ok : Naming T R K → Prop) :
    Naming T R K → Naming T R K → Prop :=
  Relation.ReflTransGen (Step key calls ok)

end

structure Sole (key : NameKey) (calls : T → CreateCall) (s : Naming T R K) : Prop where
  exclusive : ∀ t u, (s.creates t).locked = true → (s.creates u).locked = true → t = u
  fits : ∀ t, (s.creates t).Fits (s.store.binding key) (calls t)
  bound : s.store.binding key = ⟨none, none, none⟩ ∨ ∃ t, (s.creates t).won = true
  drains : ∀ k t, s.hydrators k = .committed t ∨ s.hydrators k = .dropped t →
    (s.creates t).won = true ∧ (s.store.binding key).durable = some (calls t).id

section
variable {key : NameKey} {calls : T → CreateCall} {s s' : Naming T R K} {t u : T}

lemma Opened.sole (h : s.Opened key) : s.Sole key calls where
  exclusive t u ht := by simp [h.creates t] at ht
  fits t := by rw [h.creates t]; trivial
  bound := .inl h.binding
  drains k t hk := by simp [h.hydrators k] at hk

structure Follows (key : NameKey) (calls : T → CreateCall) (t : T) (r : R) (s : Naming T R K) :
    Prop where
  done : s.creates t = .succeeded
  unpending : s.lookups r = .unpending → (s.store.binding key).durable = some (calls t).id
  returned : ∀ out, s.lookups r = .returned out → out = some (calls t).id

variable (h : s.Sole key calls)
include h

lemma Sole.no_winner (hunbound : s.store.binding key = ⟨none, none, none⟩) (t : T) :
    (s.creates t).won = false := by
  by_contra hwon
  rw [not_eq_false] at hwon
  exact ((h.fits t).holds hwon).ne_unbound hunbound

lemma Sole.unbound (hoverlay : (s.store.binding key).overlay = none)
    (hdurable : (s.store.binding key).durable = none) :
    s.store.binding key = ⟨none, none, none⟩ := by
  rcases h.bound with hunbound | ⟨t, hwon⟩
  · exact hunbound
  · rcases ((h.fits t).holds hwon).bound with hbound | hbound
    · exact absurd hoverlay hbound
    · exact absurd hdurable hbound

lemma Sole.ofBinding {store : CompositionStore}
    (hstore : store.binding key = s.store.binding key) :
    Sole key calls { s with store := store } :=
  ⟨h.exclusive, hstore ▸ h.fits, hstore ▸ h.bound, hstore ▸ h.drains⟩

section
variable [DecidableEq T] {phase : CreatePhase} {store : CompositionStore}

lemma Sole.setCreate (hlocked : phase.locked = true → (s.creates t).locked = true ∨ s.Free)
    (hfits : phase.Fits (store.binding key) (calls t))
    (hothers : ∀ u, u ≠ t → (s.creates u).Fits (store.binding key) (calls u))
    (hbound : store.binding key = ⟨none, none, none⟩ ∨
      ∃ u, ((s.setCreate t phase store).creates u).won = true)
    (hdrains : ∀ k u, s.hydrators k = .committed u ∨ s.hydrators k = .dropped u →
      ((s.setCreate t phase store).creates u).won = true ∧
        (store.binding key).durable = some (calls u).id) :
    (s.setCreate t phase store).Sole key calls := by
  -- A create that is inside the lock after the step was inside before, or the lock was free.
  have hinside : ∀ u, ((s.setCreate t phase store).creates u).locked = true →
      (s.creates u).locked = true ∨ u = t ∧ s.Free := by
    intro u hu
    by_cases hut : u = t
    · subst hut
      exact (hlocked (by simpa using hu)).imp_right fun hfree => ⟨rfl, hfree⟩
    · exact .inl (by simpa [hut] using hu)
  refine ⟨?_, ?_, hbound, hdrains⟩
  · intro u v hu hv
    rcases hinside u hu with hul | ⟨rfl, hfree⟩
    · rcases hinside v hv with hvl | ⟨rfl, hfree⟩
      · exact h.exclusive u v hul hvl
      · exact absurd hul (eq_false_iff.1 (hfree u))
    · rcases hinside v hv with hvl | ⟨rfl, _⟩
      · exact absurd hvl (eq_false_iff.1 (hfree v))
      · rfl
  · exact (forall_update_iff s.creates
      fun u p => p.Fits (store.binding key) (calls u)).2 ⟨hfits, hothers⟩

lemma Sole.move (hbefore : (s.creates t).won = false)
    (hlocked : phase.locked = true → (s.creates t).locked = true ∨ s.Free)
    (hfits : phase.Fits (s.store.binding key) (calls t))
    (hbinding : store.binding key = s.store.binding key) :
    (s.setCreate t phase store).Sole key calls := by
  have hkept : ∀ u, (s.creates u).won = true →
      ((s.setCreate t phase store).creates u).won = true := by
    intro u hu
    have hut : u ≠ t := by
      rintro rfl
      cases hbefore.symm.trans hu
    simpa [hut] using hu
  apply h.setCreate hlocked
  · exact hbinding ▸ hfits
  · exact fun u _ => hbinding ▸ h.fits u
  · exact h.bound.imp hbinding.trans fun ⟨u, hu⟩ => ⟨u, hkept u hu⟩
  · intro k u hk
    obtain ⟨hu, hdurable⟩ := h.drains k u hk
    exact ⟨hkept u hu, hbinding ▸ hdurable⟩

lemma Sole.win (hbefore : (s.creates t).locked = true)
    (hunbound : s.store.binding key = ⟨none, none, none⟩) (hwon : phase.won = true)
    (hfits : phase.Fits (store.binding key) (calls t)) :
    (s.setCreate t phase store).Sole key calls := by
  apply h.setCreate (fun _ => .inl hbefore) hfits
  · intro u hut
    apply CreatePhase.fits_of_free _ (h.no_winner hunbound u)
    by_contra hu
    exact hut (h.exclusive u t (not_eq_false _ ▸ hu) hbefore)
  · exact .inr ⟨t, by simpa using hwon⟩
  · intro k u hk
    cases (h.no_winner hunbound u).symm.trans (h.drains k u hk).1

lemma Sole.checked (hbefore : (s.creates t).won = false)
    (hlocked : (s.creates t).locked = true ∨ s.Free) {existing : Option CompositionId}
    (hnone : existing = none → s.store.binding key = ⟨none, none, none⟩) (ns : Namespace) :
    (s.setCreate t (.checked key existing ns) s.store).Sole key calls := by
  rcases CreatePhase.checked_cases existing ns with ⟨hexisting, hchecked⟩ | ⟨e, hchecked⟩
  · rw [hchecked]
    exact h.move hbefore (fun _ => hlocked) (hnone hexisting) rfl
  · rw [hchecked]
    exact h.move hbefore (by simp) trivial rfl

lemma CreateStep.keeps {c : CreateCall} {ok : Naming T R K → Prop}
    (hstep : CreateStep key c ok u s s') (hdone : s.creates t = .succeeded) :
    s'.creates t = .succeeded ∧ s'.lookups = s.lookups ∧
      (s'.store.binding key).durable = (s.store.binding key).durable := by
  have htu : s.creates u ≠ .succeeded → t ≠ u := by
    rintro hu rfl
    exact hu hdone
  have hlost : s.store.binding key ≠ ⟨none, none, none⟩ :=
    ((h.fits t).holds (by simp [hdone])).ne_unbound
  have hfits := h.fits u
  cases hstep with
  | start hphase | refuse hphase | askStorage hphase | askOverlay hphase | askBehind hphase
    | insertRow hphase | bindName hphase | overflow hphase | dropOverlay hphase =>
    refine ⟨?_, rfl, rfl⟩
    simp [htu (by simp [hphase]), hdone]
  | putWithName hphase | writeThrough hphase =>
    rw [hphase] at hfits
    exact absurd hfits hlost

end

lemma LookupStep.follows [DecidableEq R] {r q : R} (hstep : LookupStep key q s s')
    (hfollows : Follows key calls t r s) : Follows key calls t r s' := by
  have hholds : (s.store.binding key).Holds (calls t) := (h.fits t).holds (by simp [hfollows.done])
  have hset : ∀ phase, (phase = .unpending → (s.store.binding key).durable = some (calls t).id) →
      (r = q → ∀ out, phase = .returned out → out = some (calls t).id) →
      Follows key calls t r (s.setLookup q phase) := by
    intro phase hunpending hreturned
    by_cases hrq : r = q
    · exact ⟨hfollows.done, fun hr => hunpending (by simpa [hrq] using hr),
        fun out hr => hreturned hrq out (by simpa [hrq] using hr)⟩
    · exact ⟨hfollows.done, fun hr => hfollows.unpending (by simpa [hrq] using hr),
        fun out hr => hfollows.returned out (by simpa [hrq] using hr)⟩
  cases hstep with
  | overlay hphase hid =>
    apply hset _ (by simp)
    intro hrq out hout
    cases hout
    rw [hholds.overlay _ hid]
  | noOverlay hphase hid => exact hset _ (fun _ => hholds.durable_of_none hid) (by simp)
  | storage hphase =>
    apply hset _ (by simp)
    intro hrq out hout
    cases hout
    exact hfollows.unpending (hrq ▸ hphase)
  | finish hphase => exact hset _ (by simp) (by simp)

variable (hids : Injective fun t => (calls t).id)
include hids

lemma Sole.eq_of_won (ht : (s.creates t).won = true) (hu : (s.creates u).won = true) : t = u := by
  apply hids
  have htholds := (h.fits t).holds ht
  have huholds := (h.fits u).holds hu
  cases hoverlay : (s.store.binding key).overlay with
  | some x => exact (htholds.overlay x hoverlay).symm.trans (huholds.overlay x hoverlay)
  | none =>
    apply Option.some.inj
    rw [← htholds.durable_of_none hoverlay, huholds.durable_of_none hoverlay]

lemma CreateStep.sole [DecidableEq T]
    (hstep : CreateStep key (calls t) (Unshadowed key) t s s') : s'.Sole key calls := by
  have hfits := h.fits t
  cases hstep with
  | start hphase | refuse hphase => exact h.move (by simp [hphase]) (by simp) trivial rfl
  | askStorage hphase hsync hfree hok =>
    exact h.checked (by simp [hphase]) (.inr hfree) (h.unbound hok) _
  | @askOverlay ns hphase hvolatile hfree =>
    cases hoverlay : (s.store.pendingNames.byName.lookup key).map Prod.fst with
    | some id =>
      have hsome : some id = none → s.store.binding key = ⟨none, none, none⟩ := by simp
      exact h.checked (by simp [hphase]) (.inr hfree) hsome ns
    | none => exact h.move (by simp [hphase]) (fun _ => .inr hfree) hoverlay rfl
  | askBehind hphase =>
    rw [hphase] at hfits
    exact h.checked (by simp [hphase]) (.inl (by simp [hphase])) (h.unbound hfits) _
  | @putWithName ns hphase hsync =>
    rw [hphase] at hfits
    have hbinding := s.store.binding_putWithName ((calls t).row ns) key none
    rw [hfits] at hbinding
    apply h.win (by simp [hphase]) hfits rfl
    rw [hbinding]
    exact Binding.holds_durable (by simp) (.inl rfl)
  | insertRow hphase | overflow hphase =>
    rw [hphase] at hfits
    apply h.move (by simp [hphase]) (fun _ => .inl (by simp [hphase]))
    · exact hfits
    · rfl
  | bindName hphase =>
    rw [hphase] at hfits
    have hbinding := s.store.binding_bind key (calls t).id (calls t).seq
    rw [hfits] at hbinding
    apply h.win (by simp [hphase]) hfits rfl
    rw [hbinding]
    exact ⟨by simp, by simp, by simp, .inl rfl⟩
  | @writeThrough ns prior hphase =>
    rw [hphase] at hfits
    have hbinding := s.store.binding_putWithName ((calls t).row ns) key prior
    rw [hfits] at hbinding
    apply h.win (by simp [hphase]) hfits rfl
    rw [hbinding]
    exact ⟨Binding.holds_durable (by simp) (.inl rfl), rfl⟩
  | dropOverlay hphase =>
    rw [hphase] at hfits
    obtain ⟨hholds, hdurable⟩ := hfits
    have hwon : (s.creates t).won = true := by simp [hphase]
    apply h.setCreate (by simp)
    · rw [s.store.binding_removeByName key, hdurable]
      exact Binding.holds_durable (by simp) hholds.stamp
    · intro u hut
      apply CreatePhase.fits_of_free
      · by_contra hu
        exact hut (h.exclusive u t (not_eq_false _ ▸ hu) (by simp [hphase]))
      · by_contra hu
        exact hut (h.eq_of_won hids (not_eq_false _ ▸ hu) hwon)
    · exact .inr ⟨t, by simp⟩
    · intro k u hk
      obtain rfl := h.eq_of_won hids (h.drains k u hk).1 hwon
      exact ⟨by simp, hdurable⟩

section
variable [DecidableEq K] {k : K}

lemma Sole.setHydrator
    (hwon : (s.creates t).won = true) {phase : DrainPhase T} {store : CompositionStore}
    {b : Binding} (hbinding : store.binding key = b) (hholds : b.Holds (calls t))
    (hoverlay : (s.store.binding key).overlay = none → b.overlay = none)
    (hdurable : (s.store.binding key).durable = some (calls t).id → b.durable = some (calls t).id)
    (hphase : ∀ u, phase = .committed u ∨ phase = .dropped u →
      u = t ∧ b.durable = some (calls t).id) :
    (s.setHydrator k phase store).Sole key calls := by
  subst hbinding
  refine ⟨h.exclusive, ?_, .inr ⟨t, hwon⟩, ?_⟩
  · intro u
    apply (h.fits u).rebind ((h.fits t).holds hwon).ne_unbound hoverlay
    intro hu
    obtain rfl := h.eq_of_won hids hu hwon
    exact ⟨hholds, hdurable⟩
  · intro j u hj
    by_cases hjk : j = k
    · obtain ⟨rfl, hb⟩ := hphase u (by simpa [hjk] using hj)
      exact ⟨hwon, hb⟩
    · obtain ⟨hu, hb⟩ := h.drains j u (by simpa [hjk] using hj)
      obtain rfl := h.eq_of_won hids hu hwon
      exact ⟨hu, hdurable hb⟩

lemma HydrateStep.sole (hstep : HydrateStep key calls k s s') : s'.Sole key calls := by
  cases hstep with
  | commit t hphase hdone hstaging shardId lastApplied stuck =>
    have hwon : (s.creates t).won = true := by simp [hdone]
    have hholds := (h.fits t).holds hwon
    rcases s.store.binding_committed key (calls t) hstaging shardId lastApplied stuck
      hholds.accepts with hbinding | ⟨hputs, hbinding⟩
    · apply h.setHydrator hids hwon hbinding
      · exact Binding.holds_durable hholds.overlay (.inr rfl)
      · exact fun hoverlay => hoverlay
      · exact fun _ => rfl
      · intro u hu
        split at hu <;> simp_all
    · apply h.setHydrator hids hwon hbinding hholds (fun hoverlay => hoverlay)
      · exact fun hdurable => hdurable
      · simp [hputs]
  | dropRow t hphase =>
    obtain ⟨hwon, hdurable⟩ := h.drains k t (.inl hphase)
    have hbinding : binding { s.store with
        pending := s.store.pending.erase (calls t).id } key = s.store.binding key := rfl
    apply h.setHydrator hids hwon hbinding ((h.fits t).holds hwon) (fun hoverlay => hoverlay)
    · exact fun hdurable => hdurable
    · simp_all
  | dropName t hphase =>
    obtain ⟨hwon, hdurable⟩ := h.drains k t (.inr hphase)
    have hholds := (h.fits t).holds hwon
    rcases s.store.binding_removeById key (calls t).id with hbinding | ⟨_, hbinding⟩
    · apply h.setHydrator hids hwon hbinding hholds (fun hoverlay => hoverlay)
      · exact fun hdurable => hdurable
      · simp
    · apply h.setHydrator hids hwon hbinding
      · rw [hdurable]
        exact Binding.holds_durable (by simp) hholds.stamp
      · exact fun _ => rfl
      · exact fun hdurable => hdurable
      · simp

lemma HydrateStep.keeps (hstep : HydrateStep key calls k s s')
    (hdone : s.creates t = .succeeded) :
    s'.creates = s.creates ∧ s'.lookups = s.lookups ∧
      ((s.store.binding key).durable = some (calls t).id →
        (s'.store.binding key).durable = some (calls t).id) := by
  have hwon : (s.creates t).won = true := by simp [hdone]
  cases hstep with
  | commit u hphase hu hstaging shardId lastApplied stuck =>
    refine ⟨rfl, rfl, ?_⟩
    intro hdurable
    obtain rfl : t = u := h.eq_of_won hids hwon (by simp [hu])
    rcases s.store.binding_committed key (calls t) hstaging shardId lastApplied stuck
      ((h.fits t).holds hwon).accepts with hbinding | ⟨_, hbinding⟩
    · exact congrArg Binding.durable hbinding
    · exact (congrArg Binding.durable hbinding).trans hdurable
  | dropRow | dropName => exact ⟨rfl, rfl, fun hdurable => hdurable⟩

end

end

section
variable [DecidableEq T] [DecidableEq R] [DecidableEq K] {key : NameKey} {calls : T → CreateCall}
  {s s' : Naming T R K} {t : T} {r : R}

section
variable (h : s.Sole key calls) (hids : Injective fun t => (calls t).id)
include h hids

lemma Step.sole (hstep : Step key calls (Unshadowed key) s s') : s'.Sole key calls := by
  cases hstep with
  | create t hcreate => exact hcreate.sole h hids
  | hydrate k hhydrate => exact hhydrate.sole h hids
  | lookup r hlookup => cases hlookup <;> exact ⟨h.exclusive, h.fits, h.bound, h.drains⟩
  | elsewhere store hstore => exact h.ofBinding hstore

lemma Sole.run (hrun : Run key calls (Unshadowed key) s s') : s'.Sole key calls := by
  induction hrun with
  | refl => exact h
  | tail _ hstep ih => exact hstep.sole ih hids

lemma Step.follows (hstep : Step key calls (Unshadowed key) s s')
    (hfollows : Follows key calls t r s) : Follows key calls t r s' := by
  cases hstep with
  | create u hcreate =>
    obtain ⟨hdone, hlookups, hdurable⟩ := hcreate.keeps h hfollows.done
    exact ⟨hdone, by rw [hlookups, hdurable]; exact hfollows.unpending,
      hlookups ▸ hfollows.returned⟩
  | hydrate k hhydrate =>
    obtain ⟨hcreates, hlookups, hdurable⟩ := hhydrate.keeps h hids hfollows.done
    exact ⟨hcreates ▸ hfollows.done, hlookups ▸ fun hphase => hdurable (hfollows.unpending hphase),
      hlookups ▸ hfollows.returned⟩
  | lookup q hlookup => exact hlookup.follows h hfollows
  | elsewhere store hstore => exact ⟨hfollows.done, hstore ▸ hfollows.unpending, hfollows.returned⟩

lemma Follows.run (hfollows : Follows key calls t r s)
    (hrun : Run key calls (Unshadowed key) s s') : Follows key calls t r s' := by
  have hboth : s'.Sole key calls ∧ Follows key calls t r s' := by
    induction hrun with
    | refl => exact ⟨h, hfollows⟩
    | tail _ hstep ih => exact ⟨hstep.sole ih.1 hids, hstep.follows ih.1 hids ih.2⟩
  exact hboth.2

end

/-- At most one create of a free name succeeds; lookups find its row. -/
theorem conditional_create_one_winner (hids : Injective fun t => (calls t).id)
    {a b : Naming T R K} (hopened : a.Opened key) (hrun : Run key calls (Unshadowed key) a b) :
    (∀ t u, b.creates t = .succeeded → b.creates u = .succeeded → t = u) ∧
      ∀ t r c out, b.creates t = .succeeded → b.lookups r = .idle →
        Run key calls (Unshadowed key) b c → c.lookups r = .returned out →
          out = some (calls t).id := by
  have hsole : b.Sole key calls := hopened.sole.run hids hrun
  constructor
  · intro t u ht hu
    exact hsole.eq_of_won hids (by simp [ht]) (by simp [hu])
  · intro t r c out ht hr hlater hout
    have hfollows : Follows key calls t r b := ⟨ht, by simp [hr], by simp [hr]⟩
    exact (hfollows.run hsole hids hlater).returned out hout

end

def namedNamespace : Namespace :=
  ⟨nameA.1, ⟨.replicate 16 1⟩, ⟨.replicate 16 1⟩, false, false⟩

def bothWays (synchronous : Bool) : CreateCall :=
  ⟨!synchronous, (bareRow (if synchronous then 2 else 1)).id, [], 0, none⟩

def twoCreates : Naming Bool Unit Unit :=
  ⟨(new .fjall 4).addNamespace namedNamespace, fun _ => .idle, fun _ => .idle,
    fun _ => .idle⟩

lemma opened_twoCreates : twoCreates.Opened nameA := ⟨rfl, fun _ => rfl, fun _ => rfl⟩

lemma injective_bothWays : Injective fun b => (bothWays b).id := by
  decide

/-- The volatile create is hydrated and drained before the synchronous one looks. -/
theorem conditional_create_one_winner_drained : ∃ b c : Naming Bool Unit Unit,
    Run nameA bothWays (Unshadowed nameA) twoCreates b ∧
      b.creates false = .succeeded ∧ (∃ e, b.creates true = .failed e) ∧
      Run nameA bothWays (Unshadowed nameA) b c ∧
      ∃ out, c.lookups () = .returned out ∧ out = some (bothWays false).id := by
  have hstart : Run nameA bothWays (Unshadowed nameA) twoCreates _ :=
    .single (.create false (.start rfl rfl))
  have hoverlay := hstart.tail
    (.create false (.askOverlay rfl rfl fun t => by cases t <;> rfl))
  have hstorage := hoverlay.tail (.create false (.askBehind rfl))
  have hrow := hstorage.tail (.create false (.insertRow rfl rfl (by decide)))
  have hbind := hrow.tail (.create false (.bindName rfl))
  have hcommit := hbind.tail (.hydrate () (.commit false rfl rfl rfl namedNamespace.shardId 1 none))
  have hdropRow := hcommit.tail (.hydrate () (.dropRow false rfl))
  have hdropName := hdropRow.tail (.hydrate () (.dropName false rfl))
  have hsecond := hdropName.tail (.create true (.start rfl rfl))
  have hcheck := hsecond.tail
    (.create true (.askStorage rfl rfl (fun t => by cases t <;> rfl) rfl))
  obtain ⟨_, hlookup⟩ := conditional_create_one_winner injective_bothWays opened_twoCreates hcheck
  refine ⟨_, _, hcheck, rfl, ⟨_, rfl⟩,
    .tail (.single (.lookup () (.noOverlay rfl rfl))) (.lookup () (.storage rfl)), _, rfl, ?_⟩
  exact hlookup false () _ _ rfl rfl
    (.tail (.single (.lookup () (.noOverlay rfl rfl))) (.lookup () (.storage rfl))) rfl

/-- Both creates succeed, and the lookup leads to the older row. -/
theorem both_creates_win : twoCreates.Opened nameA ∧ ∃ b c : Naming Bool Unit Unit,
    Run nameA bothWays (fun _ => True) twoCreates b ∧
      b.creates false = .succeeded ∧ b.creates true = .succeeded ∧ b.lookups () = .idle ∧
      Run nameA bothWays (fun _ => True) b c ∧ c.lookups () = .returned (some (bareRow 1).id) := by
  have hstart : Run nameA bothWays (fun _ => True) twoCreates _ :=
    .single (.create false (.start rfl rfl))
  have hoverlay := hstart.tail
    (.create false (.askOverlay rfl rfl fun t => by cases t <;> rfl))
  have hstorage := hoverlay.tail (.create false (.askBehind rfl))
  have hrow := hstorage.tail (.create false (.insertRow rfl rfl (by decide)))
  have hbind := hrow.tail (.create false (.bindName rfl))
  have hsecond := hbind.tail (.create true (.start rfl rfl))
  have hcheck := hsecond.tail
    (.create true (.askStorage rfl rfl (fun t => by cases t <;> rfl) trivial))
  have hput := hcheck.tail (.create true (.putWithName rfl rfl))
  exact ⟨opened_twoCreates, _, _, hput, rfl, rfl, rfl, .single (.lookup () (.overlay rfl rfl)), rfl⟩

end Naming

end Kiseki.Compositions
