import Kiseki.Composition.Types

namespace Kiseki.Compositions
open Intent Finmap List

inductive Backend where
  | memory
  | fjall
deriving DecidableEq, Repr

structure Storage where
  compositions : Finmap fun _ : CompositionId => Composition
  names : Finmap fun _ : NameKey => CompositionId
  namesReverse : Finmap fun _ : CompositionId => NameKey
  nameSeqs : Finmap fun _ : NameKey => PerspectiveSeq
  lastAppliedSeq : Finmap fun _ : ShardId => Nat
  stuckState : Finmap fun _ : ShardId => Option (Nat × Nat)
  halted : Finmap fun _ : ShardId => Bool

def Storage.empty : Storage := ⟨∅, ∅, ∅, ∅, ∅, ∅, ∅⟩

/-- A bind without a stamp wins, as does the first with one. -/
def lwwAcceptsBind : Option PerspectiveSeq → Option PerspectiveSeq → Bool
  | some old, some new => decide (old ≤ new)
  | _, _ => true

structure HydrationBatch where
  shardId : ShardId
  puts : List Composition
  removes : List CompositionId
  nameInserts : List (NameKey × CompositionId × Option PerspectiveSeq)
  nameRemoves : List (NameKey × Option PerspectiveSeq)
  newLastAppliedSeq : Nat
  stuckState : Option (Option (Nat × Nat))
  halted : Option Bool

namespace Storage

section
variable (s : Storage)

def get (id : CompositionId) : Option Composition := s.compositions.lookup id

def put (comp : Composition) : Storage :=
  { s with compositions := s.compositions.insert comp.id comp }

def nameLookup (key : NameKey) : Option CompositionId := s.names.lookup key

def nameFor (id : CompositionId) : Option NameKey := s.namesReverse.lookup id

def nameSeqRecord (key : NameKey) : Option PerspectiveSeq → Storage
  | some seq => { s with nameSeqs := s.nameSeqs.insert key seq }
  | none => { s with nameSeqs := s.nameSeqs.erase key }

def dropRow (seen s : Storage) (id : CompositionId) : Storage :=
  match seen.namesReverse.lookup id with
  | some key =>
    { s with
      names := s.names.erase key
      namesReverse := s.namesReverse.erase id
      nameSeqs := s.nameSeqs.erase key
      compositions := s.compositions.erase id }
  | none => { s with compositions := s.compositions.erase id }

/-- The reverse entry of the row that `seen` has under the key goes. -/
def dropOwner (seen s : Storage) (key : NameKey) (id : CompositionId) : Storage :=
  match seen.names.lookup key with
  | some old => if old = id then s else { s with namesReverse := s.namesReverse.erase old }
  | none => s

def dropOldName (seen s : Storage) (key : NameKey) (id : CompositionId) : Storage :=
  match seen.namesReverse.lookup id with
  | some old =>
    if old = key then s
    else { s with names := s.names.erase old, nameSeqs := s.nameSeqs.erase old }
  | none => s

def bind (seen s : Storage) (key : NameKey) (id : CompositionId)
    (incoming : Option PerspectiveSeq) : Storage :=
  if lwwAcceptsBind (seen.nameSeqs.lookup key) incoming then
    let s := dropOldName seen (dropOwner seen s key id) key id
    let s := { s with
      names := s.names.insert key id
      namesReverse := s.namesReverse.insert id key }
    s.nameSeqRecord key incoming
  else s

def unbind (seen s : Storage) (key : NameKey) (incoming : Option PerspectiveSeq) : Storage :=
  if lwwAcceptsBind (seen.nameSeqs.lookup key) incoming then
    { s with
      names := s.names.erase key
      nameSeqs := s.nameSeqs.erase key
      namesReverse :=
        match seen.names.lookup key with
        | some id => s.namesReverse.erase id
        | none => s.namesReverse }
  else s

def remove (id : CompositionId) : Storage := dropRow s s id

def nameInsert (key : NameKey) (id : CompositionId) : Storage := bind s s key id none

def nameRemove (key : NameKey) : Storage := unbind s s key none

def putWithName (comp : Composition) (key : NameKey) : Storage :=
  (s.put comp).nameInsert key comp.id

end

def seenBy (backend : Backend) (before s : Storage) : Storage :=
  match backend with
  | .memory => s
  | .fjall => before

/-- Rows first, then names, then the position of the shard. -/
def applyHydrationBatch (backend : Backend) (s : Storage) (batch : HydrationBatch) : Storage :=
  let before := s
  let s := batch.puts.foldl put s
  let s := batch.removes.foldl (fun s id => dropRow (seenBy backend before s) s id) s
  let s := batch.nameInserts.foldl
    (fun s b => bind (seenBy backend before s) s b.1 b.2.1 b.2.2) s
  let s := batch.nameRemoves.foldl (fun s b => unbind (seenBy backend before s) s b.1 b.2) s
  { s with
    lastAppliedSeq := s.lastAppliedSeq.insert batch.shardId batch.newLastAppliedSeq
    stuckState := match batch.stuckState with
      | some stuck => s.stuckState.insert batch.shardId stuck
      | none => s.stuckState
    halted := match batch.halted with
      | some halted => s.halted.insert batch.shardId halted
      | none => s.halted }

section
variable {seen s : Storage} {key : NameKey} {id : CompositionId}

@[simp] lemma compositions_dropOwner :
    (dropOwner seen s key id).compositions = s.compositions := by
  simp only [dropOwner]
  repeat' split
  all_goals rfl

@[simp] lemma compositions_dropOldName :
    (dropOldName seen s key id).compositions = s.compositions := by
  simp only [dropOldName]
  repeat' split
  all_goals rfl

variable {seq : Option PerspectiveSeq}

@[simp] lemma compositions_nameSeqRecord :
    (s.nameSeqRecord key seq).compositions = s.compositions := by
  cases seq <;> rfl

@[simp] lemma compositions_bind {incoming : Option PerspectiveSeq} :
    (bind seen s key id incoming).compositions = s.compositions := by
  simp only [bind]
  split
  · simp
  · rfl

@[simp] lemma names_nameSeqRecord : (s.nameSeqRecord key seq).names = s.names := by
  cases seq <;> rfl

@[simp] lemma namesReverse_nameSeqRecord :
    (s.nameSeqRecord key seq).namesReverse = s.namesReverse := by
  cases seq <;> rfl

lemma nameLookup_nameInsert : (s.nameInsert key id).nameLookup key = some id := by
  have haccepts : ∀ old, lwwAcceptsBind old none = true := fun old => by cases old <;> rfl
  simp only [nameLookup, nameInsert, bind, haccepts, if_true, names_nameSeqRecord, lookup_insert]

lemma compositions_dropRow : (dropRow seen s id).compositions = s.compositions.erase id := by
  simp only [dropRow]
  split <;> rfl

lemma get_remove_self : (s.remove id).get id = none := by
  rw [get, remove, compositions_dropRow, lookup_erase]

lemma get_remove_of_ne {x : CompositionId} (h : x ≠ id) : (s.remove id).get x = s.get x := by
  rw [get, remove, compositions_dropRow, lookup_erase_ne h, get]

lemma compositions_unbind (incoming : Option PerspectiveSeq) :
    (unbind seen s key incoming).compositions = s.compositions := by
  rw [unbind]
  split <;> rfl

lemma compositions_putWithName (comp : Composition) :
    (s.putWithName comp key).compositions = s.compositions.insert comp.id comp := by
  rw [putWithName, nameInsert, compositions_bind]
  rfl

end

def Unbound (id : CompositionId) (s : Storage) : Prop := ∀ k, s.names.lookup k ≠ some id

def Bound (name : Option NameKey) (id : CompositionId) (s : Storage) : Prop :=
  ∀ k, s.names.lookup k = some id → name = some k ∧ s.namesReverse.lookup id = some k

section
variable {seen s : Storage} {key k : NameKey} {id x : CompositionId} {name : Option NameKey}

lemma Unbound.bound (h : s.Unbound id) : s.Bound name id := fun k hk => absurd hk (h k)

lemma lookup_names_dropOldName (h : (dropOldName seen s key x).names.lookup k = some id) :
    s.names.lookup k = some id := by
  simp only [dropOldName] at h
  split at h
  · split at h
    · exact h
    · exact (Maps.of_lookup_erase h).2
  · exact h

lemma names_dropOwner : (dropOwner seen s key x).names = s.names := by
  simp only [dropOwner]
  split
  · split <;> rfl
  · rfl

lemma namesReverse_dropOldName : (dropOldName seen s key x).namesReverse = s.namesReverse := by
  simp only [dropOldName]
  split
  · split <;> rfl
  · rfl

lemma lookup_namesReverse_dropOwner (h : seen.names.lookup key ≠ some id) :
    (dropOwner seen s key x).namesReverse.lookup id = s.namesReverse.lookup id := by
  simp only [dropOwner]
  split
  · rename_i old hold
    split
    · rfl
    · apply lookup_erase_ne
      rintro rfl
      exact h hold
  · rfl

variable {incoming : Option PerspectiveSeq}

lemma lookup_names_bind (h : (bind seen s key x incoming).names.lookup k = some id) :
    k = key ∧ x = id ∨ s.names.lookup k = some id := by
  simp only [bind] at h
  split at h
  · rw [names_nameSeqRecord] at h
    obtain ⟨rfl, rfl⟩ | ⟨_, h⟩ := Maps.of_lookup_insert h
    · exact .inl ⟨rfl, rfl⟩
    · have hold := lookup_names_dropOldName h
      rw [names_dropOwner] at hold
      exact .inr hold
  · exact .inr h

lemma Unbound.bind (h : s.Unbound id) (hx : x ≠ id) (incoming : Option PerspectiveSeq) :
    (Storage.bind seen s key x incoming).Unbound id := by
  intro k hk
  rcases lookup_names_bind hk with ⟨_, heq⟩ | hold
  · exact hx heq
  · exact h k hold

lemma Bound.bind (h : s.Bound name id) (hseen : seen.Bound name id)
    (hkey : x = id → name = some key) (incoming : Option PerspectiveSeq) :
    (Storage.bind seen s key x incoming).Bound name id := by
  intro k hk
  simp only [Storage.bind] at hk ⊢
  split at hk
  · rename_i haccepts
    rw [if_pos haccepts, namesReverse_nameSeqRecord]
    rw [names_nameSeqRecord] at hk
    obtain ⟨rfl, rfl⟩ | ⟨hke, hk⟩ := Maps.of_lookup_insert hk
    · exact ⟨hkey rfl, lookup_insert _⟩
    · have hold := lookup_names_dropOldName hk
      rw [names_dropOwner] at hold
      obtain ⟨hname, hrev⟩ := h k hold
      -- the name of the row is another one, so neither side of this bind is the row's
      have hne : ∀ {y}, name = some y → y ≠ key := fun hy heq =>
        hke (Option.some.inj (hname.symm.trans hy) |>.trans heq)
      have hx : id ≠ x := fun heq => hne (hkey heq.symm) rfl
      refine ⟨hname, ?_⟩
      rw [lookup_insert_of_ne _ hx, namesReverse_dropOldName,
        lookup_namesReverse_dropOwner fun hseenKey => hne (hseen key hseenKey).1 rfl]
      exact hrev
  · rename_i hrejects
    rw [if_neg hrejects]
    exact h k hk

lemma lookup_names_unbind (h : (unbind seen s key incoming).names.lookup k = some id) :
    s.names.lookup k = some id := by
  rw [unbind] at h
  split at h
  · exact (Maps.of_lookup_erase h).2
  · exact h

lemma Unbound.unbind (h : s.Unbound id) (incoming : Option PerspectiveSeq) :
    (Storage.unbind seen s key incoming).Unbound id :=
  fun k hk => h k (lookup_names_unbind hk)

lemma Bound.unbind (h : s.Bound name id) (hseen : seen.Bound name id)
    (incoming : Option PerspectiveSeq) : (Storage.unbind seen s key incoming).Bound name id := by
  intro k hk
  have hold := lookup_names_unbind hk
  obtain ⟨hname, hrev⟩ := h k hold
  refine ⟨hname, ?_⟩
  rw [Storage.unbind] at hk ⊢
  split at hk
  · rename_i haccepts
    rw [if_pos haccepts]
    have hke := (Maps.of_lookup_erase hk).1
    dsimp only
    split
    · rename_i y hy
      rw [lookup_erase_ne]
      · exact hrev
      · rintro rfl
        exact hke (Option.some.inj (hname.symm.trans (hseen key hy).1))
    · exact hrev
  · rename_i hrejects
    rw [if_neg hrejects]
    exact hrev

lemma lookup_names_dropRow (h : (dropRow seen s x).names.lookup k = some id) :
    s.names.lookup k = some id := by
  simp only [dropRow] at h
  split at h
  · exact (Maps.of_lookup_erase h).2
  · exact h

lemma Unbound.dropRow (h : s.Unbound id) : (Storage.dropRow seen s x).Unbound id :=
  fun k hk => h k (lookup_names_dropRow hk)

lemma lookup_namesReverse_dropRow (h : id ≠ x) :
    (dropRow seen s x).namesReverse.lookup id = s.namesReverse.lookup id := by
  simp only [dropRow]
  split
  · exact lookup_erase_ne h
  · rfl

lemma Bound.dropRow_of_ne (h : s.Bound name id) (hx : id ≠ x) :
    (Storage.dropRow seen s x).Bound name id := by
  intro k hk
  rw [lookup_namesReverse_dropRow hx]
  exact h k (lookup_names_dropRow hk)

lemma Bound.dropRow_self (h : s.Bound name id)
    (hseen : seen.namesReverse.lookup id = s.namesReverse.lookup id) :
    (Storage.dropRow seen s id).Unbound id := by
  intro k hk
  obtain ⟨_, hrev⟩ := h k (lookup_names_dropRow hk)
  simp only [Storage.dropRow, hseen, hrev, lookup_erase] at hk
  cases hk

end

section
variable {s : Storage} {id : CompositionId} {name : Option NameKey} {batch : HydrationBatch}
  {backend : Backend}

lemma seenBy_cases (before s : Storage) :
    seenBy backend before s = s ∨ seenBy backend before s = before := by
  cases backend
  · exact .inl rfl
  · exact .inr rfl

section
variable (backend : Backend) (before : Storage) (removes : List CompositionId)

lemma unbound_foldl_dropRow (h : s.Unbound id) :
    (removes.foldl (fun s x => dropRow (seenBy backend before s) s x) s).Unbound id :=
  foldlRecOn removes _ h fun _ h _ _ => h.dropRow

lemma bound_foldl_dropRow
    (h : s.Bound name id) (hrev : before.namesReverse.lookup id = s.namesReverse.lookup id) :
    (removes.foldl (fun s x => dropRow (seenBy backend before s) s x) s).Bound name id ∧
      (id ∈ removes →
        (removes.foldl (fun s x => dropRow (seenBy backend before s) s x) s).Unbound id) := by
  induction removes generalizing s with
  | nil => exact ⟨h, nofun⟩
  | cons x removes ih =>
    have hseen : (seenBy backend before s).namesReverse.lookup id =
        s.namesReverse.lookup id := by
      rcases seenBy_cases before s with heq | heq
      · rw [heq]
      · rw [heq, hrev]
    rw [foldl_cons]
    by_cases hx : id = x
    · subst hx
      have hunbound := unbound_foldl_dropRow backend before removes (h.dropRow_self hseen)
      exact ⟨hunbound.bound, fun _ => hunbound⟩
    · obtain ⟨hbound, hmem⟩ := ih (h.dropRow_of_ne hx)
        (hrev.trans (lookup_namesReverse_dropRow hx).symm)
      exact ⟨hbound, fun h => hmem (mem_of_ne_of_mem hx h)⟩

end

lemma names_foldl_put (puts : List Composition) :
    (puts.foldl put s).names = s.names ∧ (puts.foldl put s).namesReverse = s.namesReverse := by
  have hstep : ∀ t : Storage, t.names = s.names ∧ t.namesReverse = s.namesReverse →
      ∀ comp ∈ puts, (t.put comp).names = s.names ∧ (t.put comp).namesReverse = s.namesReverse :=
    fun _ h _ _ => h
  exact foldlRecOn puts put ⟨rfl, rfl⟩ hstep

lemma names_rule {P : Storage → Prop} (before : Storage) {t : Storage} (h : P t)
    (hbind : ∀ {t : Storage} {b}, b ∈ batch.nameInserts → P t →
      P (bind (seenBy backend before t) t b.1 b.2.1 b.2.2))
    (hunbind : ∀ {t : Storage} {b : NameKey × Option PerspectiveSeq}, P t →
      P (unbind (seenBy backend before t) t b.1 b.2)) :
    P (batch.nameRemoves.foldl (fun s b => unbind (seenBy backend before s) s b.1 b.2)
      (batch.nameInserts.foldl (fun s b => bind (seenBy backend before s) s b.1 b.2.1 b.2.2)
        t)) := by
  have hinserted := foldlRecOn batch.nameInserts _ h fun _ ht _ hb => hbind hb ht
  exact foldlRecOn batch.nameRemoves _ hinserted fun _ ht _ _ => hunbind ht

lemma Bound.applyHydrationBatch (h : s.Bound name id) (backend : Backend)
    (hinserts : ∀ b ∈ batch.nameInserts, b.2.1 = id → name = some b.1) :
    (s.applyHydrationBatch backend batch).Bound name id := by
  have hseen : ∀ {t : Storage}, t.Bound name id → (seenBy backend s t).Bound name id := by
    intro t ht
    rcases seenBy_cases s t with heq | heq
    · rw [heq]
      exact ht
    · rw [heq]
      exact h
  obtain ⟨hnames, hrev⟩ := names_foldl_put batch.puts
  have hput : (batch.puts.foldl put s).Bound name id := by
    rw [Bound, hnames, hrev]
    exact h
  have hremoved := (bound_foldl_dropRow backend s batch.removes hput (by rw [hrev])).1
  exact names_rule (P := Bound name id) s hremoved
    (fun hb ht => ht.bind (hseen ht) (hinserts _ hb) _) fun ht => ht.unbind (hseen ht) _

lemma Unbound.applyHydrationBatch (h : s.Unbound id) (backend : Backend)
    (hinserts : ∀ b ∈ batch.nameInserts, b.2.1 ≠ id) :
    (s.applyHydrationBatch backend batch).Unbound id := by
  have hput : (batch.puts.foldl put s).Unbound id := by
    rw [Unbound, (names_foldl_put batch.puts).1]
    exact h
  exact names_rule (P := Unbound id) s (unbound_foldl_dropRow backend s batch.removes hput)
    (fun hb ht => ht.bind (hinserts _ hb) _) fun ht => ht.unbind _

lemma Bound.applyHydrationBatch_remove (h : s.Bound name id)
    (hmem : id ∈ batch.removes) (hinserts : ∀ b ∈ batch.nameInserts, b.2.1 ≠ id) :
    (s.applyHydrationBatch backend batch).Unbound id := by
  obtain ⟨hnames, hrev⟩ := names_foldl_put batch.puts
  have hput : (batch.puts.foldl put s).Bound name id := by
    rw [Bound, hnames, hrev]
    exact h
  have hremoved := (bound_foldl_dropRow backend s batch.removes hput (by rw [hrev])).2 hmem
  exact names_rule (P := Unbound id) s hremoved (fun hb ht => ht.bind (hinserts _ hb) _)
    fun ht => ht.unbind _

lemma rows_after_removes (before : Storage) {t : Storage}
    (P : (Finmap fun _ : CompositionId => Composition) → Prop) (h : P t.compositions) :
    P ((batch.nameRemoves.foldl (fun s b => unbind (seenBy backend before s) s b.1 b.2)
      (batch.nameInserts.foldl (fun s b => bind (seenBy backend before s) s b.1 b.2.1 b.2.2) t)
      )).compositions := by
  apply names_rule (P := fun s => P s.compositions) before h
  · intro s b _ hs
    rw [compositions_bind]
    exact hs
  · intro s b hs
    rw [compositions_unbind]
    exact hs

lemma get_applyHydrationBatch_of_untouched
    (hputs : ∀ comp ∈ batch.puts, comp.id ≠ id) (hremoves : id ∉ batch.removes) :
    (s.applyHydrationBatch backend batch).get id = s.get id := by
  apply rows_after_removes s fun rows => rows.lookup id = s.get id
  have hput := foldlRecOn (motive := fun t : Storage => t.get id = s.get id) batch.puts put rfl
    fun t ht comp hcomp => (lookup_insert_of_ne _ (hputs comp hcomp).symm).trans ht
  apply foldlRecOn (motive := fun t : Storage => t.get id = s.get id) batch.removes _ hput
  intro t ht x hx
  have hne : id ≠ x := by
    rintro rfl
    exact hremoves hx
  rw [get, compositions_dropRow, lookup_erase_ne hne]
  exact ht

def Keyed (s : Storage) : Prop := ∀ x comp, s.get x = some comp → comp.id = x

lemma Keyed.put (h : s.Keyed) (comp : Composition) : (s.put comp).Keyed :=
  Maps.forall_insert h rfl

lemma Keyed.ofRows {t : Storage} (h : s.Keyed) (hrows : t.compositions = s.compositions) :
    t.Keyed := by
  intro x comp hcomp
  rw [get, hrows] at hcomp
  exact h x comp hcomp

lemma Keyed.dropRow (h : s.Keyed) {seen : Storage} {x : CompositionId} :
    (Storage.dropRow seen s x).Keyed := by
  intro y comp hcomp
  rw [get, compositions_dropRow] at hcomp
  exact h y comp (Maps.of_lookup_erase hcomp).2

lemma Keyed.applyHydrationBatch (h : s.Keyed) (backend : Backend) (batch : HydrationBatch) :
    (s.applyHydrationBatch backend batch).Keyed := by
  have hput := foldlRecOn (motive := Keyed) batch.puts Storage.put h
    fun t ht comp _ => ht.put comp
  apply rows_after_removes s fun rows => ∀ x comp, rows.lookup x = some comp → comp.id = x
  exact foldlRecOn (motive := Keyed) batch.removes _ hput fun t ht x _ => ht.dropRow

end

end Storage

end Kiseki.Compositions
