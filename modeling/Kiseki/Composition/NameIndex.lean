import Kiseki.Composition.Storage
import Kiseki.Lib.Pairing

namespace Kiseki.Compositions
open Intent Pairing Finmap Storage List

namespace Storage

def index (s : Storage) : Index NameKey CompositionId PerspectiveSeq :=
  ⟨s.names, s.namesReverse, s.nameSeqs⟩

lemma paired_empty : empty.index.Paired := Index.Paired.empty

section
variable {seen s t : Storage} {key : NameKey} {id : CompositionId}
  {incoming : Option PerspectiveSeq}

lemma index_dropRow (h : s.index.Paired) (id : CompositionId) :
    (dropRow s s id).index = s.index.release id := by
  cases hrev : s.namesReverse.lookup id with
  | none =>
    have hrev' : s.index.reverse.lookup id = none := hrev
    simp only [dropRow, Index.release, hrev, hrev']
    rfl
  | some key =>
    have hrev' : s.index.reverse.lookup id = some key := hrev
    have hname : s.index.names.lookup key = some id := (h.inverse key id).2 hrev
    simp only [dropRow, Index.release, hrev, hrev', Index.unbind, hname]
    rfl

lemma nameSeqs_dropOwner : (dropOwner seen s key id).nameSeqs = s.nameSeqs := by
  simp only [dropOwner]
  split
  · split <;> rfl
  · rfl

lemma lookup_names_dropOldName_eq (h : s.index.Paired) (key j : NameKey) (hj : j ≠ key) :
    (dropOldName s t key id).names.lookup j =
        (if s.names.lookup j = some id then none else t.names.lookup j) ∧
      (dropOldName s t key id).nameSeqs.lookup j =
        (if s.names.lookup j = some id then none else t.nameSeqs.lookup j) := by
  simp only [dropOldName]
  cases hrev : s.namesReverse.lookup id with
  | none =>
    have hne : s.names.lookup j ≠ some id := h.names_ne hrev
    rw [if_neg hne, if_neg hne]
    exact ⟨rfl, rfl⟩
  | some old =>
    have hiff : s.names.lookup j = some id ↔ j = old := h.names_eq_iff hrev
    simp only [hiff]
    by_cases hold : old = key
    · have hne : j ≠ old := fun heq => hj (heq.trans hold)
      rw [if_pos hold, if_neg hne, if_neg hne]
      exact ⟨rfl, rfl⟩
    · rw [if_neg hold]
      exact ⟨Maps.lookup_erase _ _ _, Maps.lookup_erase _ _ _⟩

lemma lookup_namesReverse_dropOwner_eq (h : s.index.Paired) {id x : CompositionId} (hx : x ≠ id) :
    (dropOwner s s key id).namesReverse.lookup x =
      if s.namesReverse.lookup x = some key then none else s.namesReverse.lookup x := by
  have hiff : s.namesReverse.lookup x = some key ↔ s.names.lookup key = some x :=
    (h.inverse key x).symm
  simp only [dropOwner, hiff]
  cases hname : s.names.lookup key with
  | none => rw [if_neg fun heq => by cases heq]
  | some old =>
    simp only [Option.some.injEq]
    split
    · next hold => rw [if_neg fun heq => hx (heq.symm.trans hold)]
    · simp only [Maps.lookup_erase, eq_comm]

lemma index_bind (h : s.index.Paired) (key : NameKey) (id : CompositionId)
    (incoming : Option PerspectiveSeq) :
    (bind s s key id incoming).index = s.index.offer lwwAcceptsBind (key, id, incoming) := by
  simp only [bind, Index.offer]
  by_cases haccepts : lwwAcceptsBind (s.nameSeqs.lookup key) incoming
  · have haccepts' : lwwAcceptsBind (s.index.stamps.lookup key) incoming := haccepts
    rw [if_pos haccepts, if_pos haccepts']
    apply Index.ext
    · apply ext_lookup
      intro j
      rw [h.names_rebind, index, names_nameSeqRecord]
      rw [Maps.lookup_insert]
      split
      · rfl
      · next hj =>
        rw [(lookup_names_dropOldName_eq h key j hj).1, names_dropOwner]
        rfl
    · apply ext_lookup
      intro x
      rw [h.reverse_rebind, index, namesReverse_nameSeqRecord]
      rw [Maps.lookup_insert]
      split
      · rfl
      · next hx =>
        rw [namesReverse_dropOldName, lookup_namesReverse_dropOwner_eq h hx]
        rfl
    · apply ext_lookup
      intro j
      rw [h.stamps_rebind]
      by_cases hj : j = key
      · rw [if_pos hj, hj]
        cases incoming with
        | none => exact lookup_erase _ _
        | some seq => exact lookup_insert _
      · rw [if_neg hj]
        have hseqs : (dropOldName s (dropOwner s s key id) key id).nameSeqs.lookup j =
            if s.names.lookup j = some id then none else s.nameSeqs.lookup j := by
          rw [(lookup_names_dropOldName_eq h key j hj).2, nameSeqs_dropOwner]
        cases incoming with
        | none => exact (lookup_erase_ne hj).trans hseqs
        | some seq => exact (lookup_insert_of_ne _ hj).trans hseqs
  · have haccepts' : ¬lwwAcceptsBind (s.index.stamps.lookup key) incoming := haccepts
    rw [if_neg haccepts, if_neg haccepts']

lemma index_unbind :
    (unbind s s key incoming).index =
      if lwwAcceptsBind (s.nameSeqs.lookup key) incoming then s.index.unbind key else s.index := by
  rw [unbind]
  split
  · cases hname : s.names.lookup key with
    | none =>
      have hname' : s.index.names.lookup key = none := hname
      simp only [Index.unbind, hname']
      rfl
    | some id =>
      have hname' : s.index.names.lookup key = some id := hname
      simp only [Index.unbind, hname']
      rfl
  · rfl

lemma lwwAcceptsBind_none (old : Option PerspectiveSeq) : lwwAcceptsBind old none = true := by
  cases old <;> rfl

lemma index_nameRemove :
    (s.nameRemove key).index = s.index.unbind key := by
  rw [nameRemove, index_unbind, if_pos (lwwAcceptsBind_none _)]

lemma index_foldl_put (puts : List Composition) (s : Storage) :
    (puts.foldl put s).index = s.index :=
  foldlRecOn (motive := fun t : Storage => t.index = s.index) puts put rfl fun _ ht _ _ => ht

variable {removes : List CompositionId}

lemma index_foldl_dropRow (h : s.index.Paired) :
    (removes.foldl (fun t id => dropRow t t id) s).index = s.index.releases removes := by
  induction removes generalizing s with
  | nil => rfl
  | cons id removes ih =>
    have hstep := index_dropRow h id
    have hpaired : (dropRow s s id).index.Paired := by
      rw [hstep]
      exact h.release id
    rw [foldl_cons, ih hpaired, hstep]
    rfl

lemma index_foldl_bind (h : s.index.Paired)
    (binds : List (NameKey × CompositionId × Option PerspectiveSeq)) :
    (binds.foldl (fun t b => bind t t b.1 b.2.1 b.2.2) s).index =
      s.index.offers lwwAcceptsBind binds := by
  induction binds generalizing s with
  | nil => rfl
  | cons b binds ih =>
    have hstep := index_bind h b.1 b.2.1 b.2.2
    have hpaired : (bind s s b.1 b.2.1 b.2.2).index.Paired := by
      rw [hstep]
      exact h.offer lwwAcceptsBind b
    rw [foldl_cons, ih hpaired, hstep]
    rfl

lemma paired_unbind (h : s.index.Paired) : (unbind s s key incoming).index.Paired := by
  rw [index_unbind]
  split
  · exact h.unbind key
  · exact h

def dropped (s : Storage) (batch : HydrationBatch) : Storage :=
  batch.removes.foldl (fun t id => dropRow t t id) (batch.puts.foldl put s)

def bound (s : Storage) (batch : HydrationBatch) : Storage :=
  batch.nameInserts.foldl (fun t b => bind t t b.1 b.2.1 b.2.2) (s.dropped batch)

variable {batch : HydrationBatch}

lemma index_dropped (h : s.index.Paired) :
    (s.dropped batch).index = s.index.releases batch.removes := by
  have hput : (batch.puts.foldl put s).index.Paired := by
    rw [index_foldl_put]
    exact h
  rw [dropped, index_foldl_dropRow hput, index_foldl_put]

lemma index_bound (h : s.index.Paired) :
    (s.bound batch).index =
      (s.index.releases batch.removes).offers lwwAcceptsBind batch.nameInserts := by
  have hpaired : (s.dropped batch).index.Paired := by
    rw [index_dropped h]
    exact h.releases batch.removes
  rw [bound, index_foldl_bind hpaired, index_dropped h]

lemma paired_bound (h : s.index.Paired) : (s.bound batch).index.Paired := by
  rw [index_bound h]
  exact (h.releases batch.removes).offers lwwAcceptsBind batch.nameInserts

lemma paired_applyHydrationBatch (h : s.index.Paired) :
    (s.applyHydrationBatch .memory batch).index.Paired :=
  foldlRecOn (motive := fun t : Storage => t.index.Paired) batch.nameRemoves
    (fun t u => unbind t t u.1 u.2) (paired_bound h)
    fun _ ht _ _ => paired_unbind ht

lemma index_foldl_unbind {unbinds : List (NameKey × Option PerspectiveSeq)}
    (h : ∀ u ∈ unbinds, u.2 = none) :
    (unbinds.foldl (fun t u => unbind t t u.1 u.2) s).index =
      s.index.unbinds (unbinds.map Prod.fst) := by
  induction unbinds generalizing s with
  | nil => rfl
  | cons u unbinds ih =>
    have hstep : (unbind s s u.1 u.2).index = s.index.unbind u.1 := by
      rw [h u mem_cons_self]
      exact index_nameRemove
    rw [foldl_cons, ih (fun v hv => h v (mem_cons_of_mem u hv)), hstep]
    rfl

lemma index_applyHydrationBatch (h : s.index.Paired) {batch : HydrationBatch}
    (hnone : ∀ u ∈ batch.nameRemoves, u.2 = none) :
    (s.applyHydrationBatch .memory batch).index =
      ((s.index.releases batch.removes).offers lwwAcceptsBind batch.nameInserts).unbinds
        (batch.nameRemoves.map Prod.fst) := by
  rw [← index_bound h]
  exact index_foldl_unbind hnone

/-! A batch of the LSM store reads the state before it. -/

lemma bind_seen (h : seen.index.Untouched s.index (key, id, incoming)) :
    bind seen s key id incoming = bind s s key id incoming := by
  have hstamp : s.nameSeqs.lookup key = seen.nameSeqs.lookup key := h.stamp
  have hname : s.names.lookup key = seen.names.lookup key := h.name
  have hrev : s.namesReverse.lookup id = seen.namesReverse.lookup id := h.reverse
  simp only [bind, dropOldName, dropOwner, hstamp, hname, hrev]

lemma erase_of_lookup_none {α β : Type} [DecidableEq α] {m : Finmap fun _ : α => β} {a : α}
    (h : m.lookup a = none) : m.erase a = m := by
  apply ext_lookup
  intro x
  rw [Maps.lookup_erase]
  split
  · next hx => rw [hx, h]
  · rfl

lemma dropRow_seen (h : seen.index.Paired) (hs : s.index.Paired)
    (hsettled : ∀ k, seen.index.Settled s.index k)
    (hnone : seen.namesReverse.lookup id = none → s.namesReverse.lookup id = none) :
    dropRow seen s id = dropRow s s id := by
  simp only [dropRow]
  cases hrev : seen.namesReverse.lookup id with
  | none => rw [hnone hrev]
  | some key =>
    have hname : seen.index.names.lookup key = some id := (h.inverse key id).2 hrev
    rcases hsettled key with ⟨hsame, _⟩ | ⟨hgone, hfree⟩
    · have hrev' : s.namesReverse.lookup id = some key := (hs.inverse key id).1 (hsame.trans hname)
      rw [hrev']
    · have hrev' : s.namesReverse.lookup id = none := hfree id hname
      have hnames : s.names.erase key = s.names := erase_of_lookup_none hgone
      have hseqs : s.nameSeqs.erase key = s.nameSeqs := erase_of_lookup_none (hs.stamped key hgone)
      simp only [hrev', hnames, hseqs, erase_of_lookup_none hrev']

lemma unbind_seen (hs : s.index.Paired) (hsettled : seen.index.Settled s.index key) :
    unbind seen s key incoming = unbind s s key incoming := by
  rcases hsettled with ⟨hname, hstamp⟩ | ⟨hgone, hfree⟩
  · have hname' : s.names.lookup key = seen.names.lookup key := hname
    have hstamp' : s.nameSeqs.lookup key = seen.nameSeqs.lookup key := hstamp
    simp only [unbind, hname', hstamp']
  · have hnone : s.names.lookup key = none := hgone
    have hstamp : s.nameSeqs.lookup key = none := hs.stamped key hgone
    have hnames : s.names.erase key = s.names := erase_of_lookup_none hnone
    have hseqs : s.nameSeqs.erase key = s.nameSeqs := erase_of_lookup_none hstamp
    have hself : unbind s s key incoming = s := by
      rw [unbind]
      split
      · simp only [hnone, hnames, hseqs]
      · rfl
    rw [hself, unbind]
    split
    · cases hseen : seen.names.lookup key with
      | none => simp only [hnames, hseqs]
      | some id =>
        have hid : s.namesReverse.lookup id = none := hfree id hseen
        simp only [hnames, hseqs, erase_of_lookup_none hid]
    · rfl

lemma foldl_dropRow_seen (h : seen.index.Paired)
    (hs : s.index.Paired) (hsettled : ∀ k, seen.index.Settled s.index k)
    (hnone : ∀ id, seen.namesReverse.lookup id = none → s.namesReverse.lookup id = none) :
    removes.foldl (fun t id => dropRow seen t id) s =
      removes.foldl (fun t id => dropRow t t id) s := by
  induction removes generalizing s with
  | nil => rfl
  | cons id removes ih =>
    have hstep := index_dropRow hs id
    rw [foldl_cons, foldl_cons, dropRow_seen h hs hsettled (hnone id)]
    apply ih
    · rw [hstep]
      exact hs.release id
    · intro k
      rw [hstep]
      exact (hsettled k).release hs id
    · intro x hx
      change (dropRow s s id).index.reverse.lookup x = none
      rw [hstep, hs.reverse_release]
      split
      · rfl
      · exact hnone x hx

lemma foldl_bind_seen (h : seen.index.Paired)
    {binds : List (NameKey × CompositionId × Option PerspectiveSeq)}
    (hapart : binds.Pairwise seen.index.Apart) (hs : s.index.Paired)
    (huntouched : ∀ b ∈ binds, seen.index.Untouched s.index b) :
    binds.foldl (fun t b => bind seen t b.1 b.2.1 b.2.2) s =
      binds.foldl (fun t b => bind t t b.1 b.2.1 b.2.2) s := by
  induction binds generalizing s with
  | nil => rfl
  | cons b binds ih =>
    have hstep := index_bind hs b.1 b.2.1 b.2.2
    obtain ⟨hfirst, hrest⟩ := pairwise_cons.1 hapart
    rw [foldl_cons, foldl_cons, bind_seen (huntouched b mem_cons_self)]
    apply ih hrest
    · rw [hstep]
      exact hs.offer lwwAcceptsBind b
    · intro c hc
      rw [hstep]
      exact (huntouched c (mem_cons_of_mem b hc)).offer h hs (hfirst c hc)

lemma foldl_unbind_seen {unbinds : List (NameKey × Option PerspectiveSeq)}
    (hs : s.index.Paired) (hsettled : ∀ u ∈ unbinds, seen.index.Settled s.index u.1) :
    unbinds.foldl (fun t u => unbind seen t u.1 u.2) s =
      unbinds.foldl (fun t u => unbind t t u.1 u.2) s := by
  induction unbinds generalizing s with
  | nil => rfl
  | cons u unbinds ih =>
    rw [foldl_cons, foldl_cons, unbind_seen hs (hsettled u mem_cons_self)]
    apply ih (paired_unbind hs)
    intro v hv
    have hbefore := hsettled v (mem_cons_of_mem u hv)
    rw [index_unbind]
    split
    · exact hbefore.unbind hs u.1
    · exact hbefore

end

end Storage

/-- No bind touches what another bind, a remove or an unbind touches. -/
structure HydrationBatch.Apart (s : Storage) (batch : HydrationBatch) : Prop where
  inserts : batch.nameInserts.Pairwise s.index.Apart
  removes : ∀ b ∈ batch.nameInserts, ∀ id ∈ batch.removes,
    b.2.1 ≠ id ∧ s.names.lookup b.1 ≠ some id
  nameRemoves : ∀ b ∈ batch.nameInserts, ∀ u ∈ batch.nameRemoves,
    b.1 ≠ u.1 ∧ s.names.lookup u.1 ≠ some b.2.1

lemma HydrationBatch.Apart.agree {s : Storage} {batch : HydrationBatch} (h : batch.Apart s)
    (hs : s.index.Paired) :
    s.applyHydrationBatch .fjall batch = s.applyHydrationBatch .memory batch := by
  have hremoves : batch.removes.foldl (fun t id => dropRow s t id)
      (batch.puts.foldl put s) = s.dropped batch := by
    have hput : (batch.puts.foldl put s).index = s.index :=
      index_foldl_put batch.puts s
    apply foldl_dropRow_seen hs
    · rw [hput]
      exact hs
    · intro k
      rw [hput]
      exact .refl _ k
    · intro id hid
      change (batch.puts.foldl put s).index.reverse.lookup id = none
      rw [hput]
      exact hid
  have hinserts : batch.nameInserts.foldl (fun t b => bind s t b.1 b.2.1 b.2.2)
      (s.dropped batch) = s.bound batch := by
    apply foldl_bind_seen hs h.inserts
    · rw [index_dropped hs]
      exact hs.releases batch.removes
    · intro b hb
      rw [index_dropped hs]
      exact (Index.Untouched.refl s.index b).releases hs batch.removes (h.removes b hb)
  have hunbinds : batch.nameRemoves.foldl (fun t u => unbind s t u.1 u.2) (s.bound batch) =
      batch.nameRemoves.foldl (fun t u => unbind t t u.1 u.2) (s.bound batch) := by
    apply foldl_unbind_seen (paired_bound hs)
    intro u hu
    rw [index_bound hs]
    exact ((Index.Settled.refl s.index u.1).releases hs batch.removes).offers
      (hs.releases batch.removes) batch.nameInserts fun b hb => h.nameRemoves b hb u hu
  simp only [applyHydrationBatch, seenBy]
  rw [hremoves, hinserts, hunbinds]
  rfl

end Kiseki.Compositions
