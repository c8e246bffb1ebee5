import Kiseki.Composition.NameIndex

namespace Kiseki.Compositions
open Intent Pairing Storage

inductive StorageCall where
  | put (comp : Composition)
  | remove (id : CompositionId)
  | nameInsert (key : NameKey) (id : CompositionId)
  | nameRemove (key : NameKey)
  | putWithName (comp : Composition) (key : NameKey) (priorId : Option CompositionId)
  | applyHydrationBatch (batch : HydrationBatch)

namespace Storage

/-- The LSM store takes the owner of the name from its caller. -/
def putWithNamePrior (backend : Backend) (s : Storage) (comp : Composition) (key : NameKey)
    (priorId : Option CompositionId) : Storage :=
  match backend with
  | .memory => s.putWithName comp key
  | .fjall =>
    let previous := priorId.or (s.names.lookup key)
    let reverse := match previous with
      | some old => if old = comp.id then s.namesReverse else s.namesReverse.erase old
      | none => s.namesReverse
    { s with
      compositions := s.compositions.insert comp.id comp
      names := s.names.insert key comp.id
      namesReverse := reverse.insert comp.id key
      nameSeqs := s.nameSeqs.erase key }

def call (backend : Backend) (s : Storage) : StorageCall → Storage × Option Bool
  | .put comp => (s.put comp, none)
  | .remove id => (s.remove id, some (s.get id).isSome)
  | .nameInsert key id => (s.nameInsert key id, none)
  | .nameRemove key => (s.nameRemove key, some (s.nameLookup key).isSome)
  | .putWithName comp key priorId => (s.putWithNamePrior backend comp key priorId, none)
  | .applyHydrationBatch batch => (s.applyHydrationBatch backend batch, none)

def calls (backend : Backend) (s : Storage) : List StorageCall → Storage × List (Option Bool)
  | [] => (s, [])
  | c :: cs =>
    let called := s.call backend c
    let rest := calls backend called.1 cs
    (rest.1, called.2 :: rest.2)

end Storage

/-- No other name, a known owner, and binds that are apart. -/
def StorageCall.Sure (s : Storage) : StorageCall → Prop
  | .putWithName comp key priorId =>
    (s.nameFor comp.id = none ∨ s.nameFor comp.id = some key) ∧
      (priorId = none ∨ priorId = s.nameLookup key)
  | .applyHydrationBatch batch => batch.Apart s
  | _ => True

def Storage.SureRun : Storage → List StorageCall → Prop
  | _, [] => True
  | s, c :: cs => c.Sure s ∧ SureRun (s.call .memory c).1 cs

section
variable {s : Storage}

lemma putWithNamePrior_agree {comp : Composition} {key : NameKey} {priorId : Option CompositionId}
    (hname : s.nameFor comp.id = none ∨ s.nameFor comp.id = some key)
    (hprior : priorId = none ∨ priorId = s.nameLookup key) :
    s.putWithNamePrior .fjall comp key priorId = s.putWithName comp key := by
  have hprevious : priorId.or (s.names.lookup key) = s.names.lookup key := by
    rcases hprior with rfl | rfl
    · exact Option.none_or
    · exact Option.or_self
  have hold : ∀ t : Storage, dropOldName (s.put comp) t key comp.id = t := by
    intro t
    have hname' : (s.put comp).namesReverse.lookup comp.id = none ∨
        (s.put comp).namesReverse.lookup comp.id = some key := hname
    rw [dropOldName]
    rcases hname' with hnone | hsome
    · rw [hnone]
    · rw [hsome]
      exact if_pos rfl
  simp only [Storage.putWithNamePrior, Storage.putWithName, Storage.nameInsert, Storage.bind,
    lwwAcceptsBind_none, if_true, hprevious, hold]
  have hput : (s.put comp).names.lookup key = s.names.lookup key := rfl
  simp only [Storage.dropOwner, hput]
  cases s.names.lookup key with
  | none => rfl
  | some old =>
    by_cases heq : old = comp.id
    · simp only [if_pos heq]
      rfl
    · simp only [if_neg heq]
      rfl

lemma paired_nameInsert (h : s.index.Paired) (key : NameKey) (id : CompositionId) :
    (s.nameInsert key id).index.Paired := by
  rw [nameInsert, index_bind h]
  exact h.offer lwwAcceptsBind (key, id, none)

lemma paired_call (h : s.index.Paired) (c : StorageCall) : (s.call .memory c).1.index.Paired := by
  cases c with
  | put comp => exact h
  | remove id =>
    change (dropRow s s id).index.Paired
    rw [index_dropRow h]
    exact h.release id
  | nameInsert key id => exact paired_nameInsert h key id
  | nameRemove key =>
    change (s.nameRemove key).index.Paired
    rw [index_nameRemove]
    exact h.unbind key
  | putWithName comp key priorId =>
    have hput : (s.put comp).index.Paired := h
    exact paired_nameInsert hput key comp.id
  | applyHydrationBatch batch => exact paired_applyHydrationBatch h

lemma call_agree (h : s.index.Paired) {c : StorageCall} (hc : c.Sure s) :
    s.call .fjall c = s.call .memory c := by
  cases c with
  | put comp => rfl
  | remove id => rfl
  | nameInsert key id => rfl
  | nameRemove key => rfl
  | putWithName comp key priorId =>
    rw [call, putWithNamePrior_agree hc.1 hc.2]
    rfl
  | applyHydrationBatch batch =>
    have hbatch : batch.Apart s := hc
    rw [call, hbatch.agree h]
    rfl

lemma calls_agree (h : s.index.Paired) (cs : List StorageCall) (hcs : s.SureRun cs) :
    s.calls .fjall cs = s.calls .memory cs := by
  induction cs generalizing s with
  | nil => rfl
  | cons c cs ih =>
    obtain ⟨hc, hrest⟩ := hcs
    simp only [calls, call_agree h hc, ih (paired_call h c) hrest]

end

/-- In a run of sure calls the two stores agree in results and state. -/
theorem backends_agree (cs : List StorageCall) (h : Storage.empty.SureRun cs) :
    Storage.empty.calls .fjall cs = Storage.empty.calls .memory cs :=
  calls_agree paired_empty cs h

def bareRow (n : UInt8) : Composition :=
  .new ⟨⟨.replicate 16 2⟩, ⟨.replicate 16 1⟩, ⟨.replicate 16 1⟩, false, false⟩
    ⟨.replicate 16 n⟩ [] [] 0

def nameA : NameKey := (⟨.replicate 16 2⟩, "a")

def nameB : NameKey := (⟨.replicate 16 2⟩, "b")

def twoRows (binds : List (NameKey × CompositionId × Option PerspectiveSeq)) : HydrationBatch :=
  ⟨⟨.replicate 16 1⟩, [bareRow 1, bareRow 2], [], binds, [], 2, some none, none⟩

theorem backends_agree_two_names :
    Storage.empty.calls .fjall [.putWithName (bareRow 3) nameA none,
        .applyHydrationBatch (twoRows [(nameA, (bareRow 1).id, some ⟨2, 0, 0⟩),
          (nameB, (bareRow 2).id, some ⟨1, 0, 0⟩)]), .remove (bareRow 2).id] =
      Storage.empty.calls .memory [.putWithName (bareRow 3) nameA none,
        .applyHydrationBatch (twoRows [(nameA, (bareRow 1).id, some ⟨2, 0, 0⟩),
          (nameB, (bareRow 2).id, some ⟨1, 0, 0⟩)]), .remove (bareRow 2).id] := by
  apply backends_agree
  refine ⟨⟨.inl rfl, .inl rfl⟩, ⟨?_, ?_, ?_⟩, trivial, trivial⟩
  · decide
  · intro b _ id hid
    cases hid
  · intro b _ u hu
    cases hu

/-- The younger bind wins in memory, the later in the LSM store. -/
theorem backends_disagree : let batch := twoRows [(nameA, (bareRow 1).id, some ⟨2, 0, 0⟩),
      (nameA, (bareRow 2).id, some ⟨1, 0, 0⟩)]
    ((empty.calls .memory [.applyHydrationBatch batch]).1.nameLookup nameA =
        some (bareRow 1).id ∧
      (empty.calls .memory [.applyHydrationBatch batch]).1.nameFor (bareRow 2).id = none) ∧
    (empty.calls .fjall [.applyHydrationBatch batch]).1.nameLookup nameA =
        some (bareRow 2).id ∧
      (empty.calls .fjall [.applyHydrationBatch batch]).1.nameFor (bareRow 1).id =
        some nameA := by
  decide +kernel

end Kiseki.Compositions
