import Kiseki.Intent.Fjall
import Kiseki.Intent.View

namespace Kiseki.Intent

open List Finset Maps SeqMap

/-- All intents recorded, those live, and the seqs ever retired. -/
structure Ghost where
  recorded : List WriteIntent := []
  live : Finset PerspectiveSeq := ∅
  retired : Finset PerspectiveSeq := ∅

def PendingIndex.view (idx : PendingIndex) : View where
  intentAt := fun seq => idx.bySeq[seq]?.map Prod.fst
  holder := fun key => idx.byIdem.lookup key

def WriteIntent.value (i : WriteIntent) : DecodedValue := ⟨i.idempotencyKey, i.append⟩

def DecodedValue.intent (v : DecodedValue) (seq : PerspectiveSeq) : WriteIntent :=
  ⟨seq, v.idempotencyKey, v.append⟩

variable {d : Disk} {no e : Nat}

lemma Disk.keyspace_insertRow (r : WriteIntent) :
    (d.insertRow no r).keyspace e =
      if e = no then (d.keyspace no).insert r.perspectiveSeq r.value else d.keyspace e := by
  rw [keyspace, insertRow, lookup_insert]
  split
  · rfl
  · rfl

lemma Disk.keyspace_deleteKeyspace :
    (d.deleteKeyspace no).keyspace e = if e = no then ∅ else d.keyspace e := by
  rw [keyspace, deleteKeyspace, lookup_erase]
  split
  · rfl
  · rfl

def Disk.RowsRecorded (d : Disk) (g : Ghost) : Prop :=
  ∀ no seq v, (d.keyspace no)[seq]? = some v →
    v.intent seq ∈ g.recorded ∧ (seq ∈ g.live ∨ seq ∈ g.retired)

/-- Pending entries are rows of their epochs, not below the watermark. -/
def PendingIndex.Mirrors (idx : PendingIndex) (d : Disk) (nos : List Nat) (wm : Bytes) : Prop :=
  ∀ seq i no, idx.bySeq[seq]? = some (i, no) → i.perspectiveSeq = seq ∧ no ∈ nos ∧
    (d.keyspace no)[seq]? = some i.value ∧ ¬encodeSeqKey seq < wm

def PendingIndex.Counted (idx : PendingIndex) (live : Nat → Nat) (due : List Nat) : Prop :=
  ∃ tagged : Nat → Finset PerspectiveSeq,
    (∀ seq i no, idx.bySeq[seq]? = some (i, no) → seq ∈ tagged no) ∧
      ∀ no, (tagged no).card + due.count no ≤ live no

section
variable {d : Disk} {g : Ghost} {idx : PendingIndex} {nos : List Nat} {wm : Bytes}
  {r i : WriteIntent} {seq : PerspectiveSeq} {no : Nat} {live : Nat → Nat} {due : List Nat}

lemma Disk.RowsRecorded.insertRow (h : d.RowsRecorded g) (hr : r ∈ g.recorded)
    (hl : r.perspectiveSeq ∈ g.live) : (d.insertRow no r).RowsRecorded g := by
  intro e seq v hv
  rw [keyspace_insertRow] at hv
  split at hv
  · rw [getElem?_insert] at hv
    split at hv
    · obtain rfl := ‹r.perspectiveSeq = seq›
      obtain rfl := Option.some.inj hv
      exact ⟨hr, .inl hl⟩
    · exact h no seq v hv
  · exact h e seq v hv

lemma Disk.RowsRecorded.deleteKeyspace (h : d.RowsRecorded g) :
    (d.deleteKeyspace no).RowsRecorded g := by
  intro e seq v hv
  rw [keyspace_deleteKeyspace] at hv
  split at hv
  · simp only [Std.ExtTreeMap.getElem?_empty, reduceCtorEq] at hv
  · exact h e seq v hv

section
variable (idx : PendingIndex) (no : Nat) (r : WriteIntent)

lemma PendingIndex.getElem?_insertRecord
    (seq : PerspectiveSeq) : (idx.insertRecord no r).bySeq[seq]? =
      if r.perspectiveSeq = seq then some (r, no) else idx.bySeq[seq]? :=
  getElem?_insert

lemma PendingIndex.byIdem_insertRecord
    (key : IdempotencyKey) : (idx.insertRecord no r).byIdem.lookup key =
      if r.idempotencyKey = some key then some r.perspectiveSeq else idx.byIdem.lookup key := by
  rw [insertRecord]
  cases r.idempotencyKey with
  | none => rfl
  | some k => exact lookup_insert_some _ _ _

lemma PendingIndex.view_insertRecord : (idx.insertRecord no r).view = idx.view.insert r := by
  apply View.ext
  · funext seq
    simp only [view, View.insert, Function.update_apply, getElem?_insertRecord]
    by_cases h : r.perspectiveSeq = seq
    · rw [if_pos h, if_pos h.symm]
      rfl
    · rw [if_neg h, if_neg (Ne.symm h)]
  · funext key
    rw [View.holder_insert]
    exact idx.byIdem_insertRecord no r key

end

lemma PendingIndex.backed_empty : ({} : PendingIndex).view.Backed known where
  entry := by
    intro seq i h
    simp only [view, Std.ExtTreeMap.getElem?_empty, Option.map_none, reduceCtorEq] at h
  held := by
    intro key seq h
    simp only [view, Finmap.lookup_empty, reduceCtorEq] at h

lemma PendingIndex.backed_insertRecords {rs known : List WriteIntent}
    (h : idx.view.Backed known) (hu : UniqueSeqs known) (hrs : ∀ r ∈ rs, r ∈ known) :
    (rs.foldl (PendingIndex.insertRecord no) idx).view.Backed known := by
  induction rs generalizing idx with
  | nil => exact h
  | cons r rs ih =>
    obtain ⟨hr, hrs⟩ := forall_mem_cons.1 hrs
    apply ih _ hrs
    rw [view_insertRecord]
    exact h.insert hu hr

lemma PendingIndex.Mirrors.insertRow (h : idx.Mirrors d nos wm) (hno : no ∈ nos)
    (hwm : ¬encodeSeqKey r.perspectiveSeq < wm) :
    (idx.insertRecord no r).Mirrors (d.insertRow no r) nos wm := by
  intro seq i e he
  rw [getElem?_insertRecord] at he
  rw [Disk.keyspace_insertRow]
  split at he
  · obtain rfl := ‹r.perspectiveSeq = seq›
    obtain ⟨rfl, rfl⟩ := Prod.mk.inj (Option.some.inj he)
    refine ⟨rfl, hno, ?_, hwm⟩
    rw [if_pos rfl, getElem?_insert, if_pos rfl]
  · obtain ⟨hseq, hmem, hrow, hbelow⟩ := h seq i e he
    refine ⟨hseq, hmem, ?_, hbelow⟩
    split
    · obtain rfl := ‹e = no›
      rw [getElem?_insert, if_neg ‹_›]
      exact hrow
    · exact hrow

lemma PendingIndex.Mirrors.insertRecord (h : idx.Mirrors d nos wm) (hno : no ∈ nos)
    (hrow : (d.keyspace no)[r.perspectiveSeq]? = some r.value)
    (hwm : ¬encodeSeqKey r.perspectiveSeq < wm) : (idx.insertRecord no r).Mirrors d nos wm := by
  intro seq i e he
  rw [getElem?_insertRecord] at he
  split at he
  · obtain rfl := ‹r.perspectiveSeq = seq›
    obtain ⟨rfl, rfl⟩ := Prod.mk.inj (Option.some.inj he)
    exact ⟨rfl, hno, hrow, hwm⟩
  · exact h seq i e he

section
variable (h : idx.Counted live due)

include h

lemma PendingIndex.Counted.insertRecord (no : Nat) (r : WriteIntent) :
    (idx.insertRecord no r).Counted (fun e => live e + if e = no then 1 else 0) due := by
  obtain ⟨tagged, hmem, hcard⟩ := h
  refine ⟨fun e => if e = no then insert r.perspectiveSeq (tagged e) else tagged e, ?_, ?_⟩
  · intro seq i e he
    rw [getElem?_insertRecord] at he
    split at he
    · obtain rfl := ‹r.perspectiveSeq = seq›
      obtain ⟨rfl, rfl⟩ := Prod.mk.inj (Option.some.inj he)
      simp only [if_true]
      exact mem_insert_self _ _
    · have hold := hmem seq i e he
      simp only
      split
      · exact mem_insert_of_mem hold
      · exact hold
  · intro e
    have hold := hcard e
    simp only
    split
    · have hinsert := card_insert_le r.perspectiveSeq (tagged e)
      omega
    · omega

lemma PendingIndex.Counted.mono {live' : Nat → Nat}
    (hle : ∀ e, live e ≤ live' e) : idx.Counted live' due := by
  obtain ⟨tagged, hmem, hcard⟩ := h
  exact ⟨tagged, hmem, fun e => (hcard e).trans (hle e)⟩

lemma PendingIndex.Counted.pos (he : idx.bySeq[seq]? = some (i, no)) : 0 < live no := by
  obtain ⟨tagged, hmem, hcard⟩ := h
  have hpos := card_pos.2 ⟨seq, hmem seq i no he⟩
  have := hcard no
  omega

lemma PendingIndex.Counted.erase {idx' : PendingIndex}
    (he : idx.bySeq[seq]? = some (i, no)) (hidx : idx'.bySeq = idx.bySeq.erase seq) :
    idx'.Counted live (due ++ [no]) := by
  obtain ⟨tagged, hmem, hcard⟩ := h
  refine ⟨fun e => (tagged e).erase seq, ?_, ?_⟩
  · intro seq' i' e he'
    rw [hidx, getElem?_erase] at he'
    split at he'
    · cases he'
    · exact mem_erase.2 ⟨Ne.symm ‹_›, hmem seq' i' e he'⟩
  · intro e
    have hold := hcard e
    change ((tagged e).erase seq).card + (due ++ [no]).count e ≤ live e
    rw [count_append, count_singleton]
    split
    · obtain rfl : no = e := beq_iff_eq.1 ‹_›
      have hseq := hmem seq i no he
      have hpos := card_pos.2 ⟨seq, hseq⟩
      rw [card_erase_of_mem hseq]
      omega
    · have hle := card_erase_le (a := seq) (s := tagged e)
      omega

end

structure InStep (d : Disk) (idx : PendingIndex) (g : Ghost) (nos : List Nat) (wm : Bytes)
    (live : Nat → Nat) : Prop where
  rows : d.RowsRecorded g
  mirrors : idx.Mirrors d nos wm
  counted : idx.Counted live []

lemma InStep.insertAll {rs : List WriteIntent} (h : InStep d idx g nos wm live) (hno : no ∈ nos)
    (hrs : ∀ r ∈ rs, r ∈ g.recorded ∧ r.perspectiveSeq ∈ g.live ∧
      ¬encodeSeqKey r.perspectiveSeq < wm) :
    InStep (rs.foldl (Disk.insertRow no) d) (rs.foldl (PendingIndex.insertRecord no) idx) g nos wm
      (fun e => live e + if e = no then rs.length else 0) := by
  induction rs generalizing d idx live with
  | nil => exact { h with counted := h.counted.mono fun e => Nat.le_add_right _ _ }
  | cons r rs ih =>
    obtain ⟨⟨hrec, hlive, hwm⟩, hrs⟩ := forall_mem_cons.1 hrs
    have hone : InStep (d.insertRow no r) (idx.insertRecord no r) g nos wm
        (fun e => live e + if e = no then 1 else 0) :=
      ⟨h.rows.insertRow hrec hlive, h.mirrors.insertRow hno hwm, h.counted.insertRecord no r⟩
    have hall := ih hone hrs
    refine { hall with counted := hall.counted.mono fun e => ?_ }
    rw [length_cons]
    split <;> omega

lemma mem_insertRecord :
    seq ∈ (idx.insertRecord no r).bySeq ↔ seq ∈ idx.bySeq ∨ r.perspectiveSeq = seq := by
  rw [mem_iff, mem_iff, idx.getElem?_insertRecord]
  split
  · exact iff_of_true ⟨_, rfl⟩ (.inr ‹_›)
  · exact (or_iff_left ‹_›).symm

lemma mem_foldl_insertRecord {rs : List WriteIntent} :
    seq ∈ (rs.foldl (PendingIndex.insertRecord no) idx).bySeq ↔
      seq ∈ idx.bySeq ∨ ∃ r ∈ rs, r.perspectiveSeq = seq := by
  induction rs generalizing idx with
  | nil => simp
  | cons r rs ih =>
    rw [foldl_cons, ih, mem_insertRecord, or_assoc, exists_mem_cons_iff]

end

def liveOf (live : Finmap fun _ : Nat => Nat) (no : Nat) : Nat := (live.lookup no).getD 0

section
variable (live : Finmap fun _ : Nat => Nat)

lemma liveOf_insert (no n e : Nat) :
    liveOf (live.insert no n) e = if e = no then n else liveOf live e := by
  rw [liveOf, lookup_insert]
  split
  · rfl
  · rfl

lemma liveOf_decrementLive :
    liveOf (EpochSet.decrementLive live no) e =
      if e = no then liveOf live e - 1 else liveOf live e := by
  rw [EpochSet.decrementLive]
  split
  · rw [liveOf_insert]
    by_cases h : e = no
    · subst h
      rw [if_pos rfl, if_pos rfl, liveOf, ‹live.lookup e = some _›]
      rfl
    · rw [if_neg h, if_neg h]
  · by_cases h : e = no
    · subst h
      rw [if_pos rfl, liveOf, ‹live.lookup e = none›]
      rfl
    · rw [if_neg h]

lemma liveOf_foldl_decrementLive (due : List Nat) :
    liveOf (due.foldl EpochSet.decrementLive live) e = liveOf live e - due.count e := by
  induction due generalizing live with
  | nil => rfl
  | cons no due ih =>
    rw [foldl_cons, ih, liveOf_decrementLive, count_cons]
    by_cases h : e = no
    · subst h
      rw [if_pos rfl, if_pos (beq_self_eq_true e)]
      omega
    · rw [if_neg h, if_neg (by simpa using Ne.symm h), Nat.add_zero]

end

lemma PendingIndex.Counted.decrement {idx : PendingIndex} {live : Finmap fun _ : Nat => Nat}
    (h : idx.Counted (liveOf live) due) :
    idx.Counted (liveOf (due.foldl EpochSet.decrementLive live)) [] := by
  obtain ⟨tagged, hmem, hcard⟩ := h
  refine ⟨tagged, hmem, ?_⟩
  intro e
  have hold := hcard e
  rw [liveOf_foldl_decrementLive, count_nil]
  omega

lemma liveOf_erase (live : Finmap fun _ : Nat => Nat) :
    liveOf (live.erase no) e = if e = no then 0 else liveOf live e := by
  rw [liveOf, lookup_erase]
  split
  · rfl
  · rfl

lemma liveOf_foldl_erase (live : Finmap fun _ : Nat => Nat) (dead : List Nat)
    (h : ∀ no ∈ dead, liveOf live no = 0) :
    liveOf (dead.foldl (fun l no => l.erase no) live) e = liveOf live e := by
  induction dead generalizing live with
  | nil => rfl
  | cons no dead ih =>
    obtain ⟨hno, hdead⟩ := forall_mem_cons.1 h
    have hsame : ∀ e, liveOf (live.erase no) e = liveOf live e := by
      intro e
      rw [liveOf_erase]
      split
      · rw [‹e = no›, hno]
      · rfl
    rw [foldl_cons, ih _ fun no' hm => (hsame no').trans (hdead no' hm), hsame]

end Kiseki.Intent
