import Kiseki.Intent.Store

namespace Kiseki.Intent

open Function List

/-- The pending intents, and the seqs that hold idempotency keys. -/
@[ext]
structure View where
  intentAt : PerspectiveSeq → Option WriteIntent
  holder : IdempotencyKey → Option PerspectiveSeq

namespace View

def empty : View := ⟨fun _ => none, fun _ => none⟩

def insert (v : View) (r : WriteIntent) : View where
  intentAt := update v.intentAt r.perspectiveSeq (some r)
  holder := match r.idempotencyKey with
    | some key => update v.holder key (some r.perspectiveSeq)
    | none => v.holder

def remove (v : View) (seq : PerspectiveSeq) (key : Option IdempotencyKey) : View where
  intentAt := update v.intentAt seq none
  holder := fun k => if key = some k ∧ v.holder k = some seq then none else v.holder k

/-- Nothing when the seq is pending or the key is held, else record. -/
inductive Put (v : View) (r : WriteIntent) : View → Prop
  | pending (h : v.intentAt r.perspectiveSeq = some i) : Put v r v
  | duplicate (hkey : r.idempotencyKey = some key) (h : v.holder key = some seq) : Put v r v
  | recorded (h : ∀ key, r.idempotencyKey = some key → v.holder key = none) : Put v r (v.insert r)

inductive PutAll : View → List WriteIntent → View → Prop
  | nil : PutAll v [] v
  | cons (h : Put v r v') (hrest : PutAll v' rs v'') : PutAll v (r :: rs) v''

end View

def WriteIntent.SharesKey (j i : WriteIntent) : Prop :=
  j ≠ i ∧ j.idempotencyKey = i.idempotencyKey ∧ i.idempotencyKey ≠ none

def UniqueSeqs (known : List WriteIntent) : Prop :=
  ∀ i ∈ known, ∀ j ∈ known, i.perspectiveSeq = j.perspectiveSeq → i = j

lemma UniqueSeqs.mono (h : UniqueSeqs known) (hsub : ∀ i ∈ known', i ∈ known) :
    UniqueSeqs known' :=
  fun i hi j hj => h i (hsub i hi) j (hsub j hj)

structure View.Backed (v : View) (known : List WriteIntent) : Prop where
  entry : ∀ seq i, v.intentAt seq = some i → i.perspectiveSeq = seq ∧ i ∈ known
  held : ∀ key seq, v.holder key = some seq →
    ∃ i, v.intentAt seq = some i ∧ i.idempotencyKey = some key

namespace View
variable {v v' : View} {r i : WriteIntent} {rs known : List WriteIntent} {seq : PerspectiveSeq}
  {key : IdempotencyKey}

lemma holder_insert : (v.insert r).holder key =
    if r.idempotencyKey = some key then some r.perspectiveSeq else v.holder key := by
  simp only [insert]
  cases r.idempotencyKey with
  | none => rw [if_neg nofun]
  | some k =>
    simp only [update_apply, Option.some.injEq]
    simp only [eq_comm]

lemma backed_empty : empty.Backed known where
  entry := by
    intro seq i h
    cases h
  held := by
    intro key seq h
    cases h

lemma Backed.mono (h : v.Backed known) (hsub : ∀ i ∈ known, i ∈ known') : v.Backed known' where
  entry := fun seq i hi => ⟨(h.entry seq i hi).1, hsub i (h.entry seq i hi).2⟩
  held := h.held

lemma Backed.insert (h : v.Backed known) (hu : UniqueSeqs known) (hr : r ∈ known) :
    (v.insert r).Backed known := by
  constructor
  · intro seq i hi
    simp only [View.insert, update_apply] at hi
    split at hi
    · obtain rfl := Option.some.inj hi
      exact ⟨(‹seq = _›).symm, hr⟩
    · exact h.entry seq i hi
  · intro key seq hk
    rw [holder_insert] at hk
    simp only [View.insert, update_apply]
    split at hk
    · rw [if_pos (Option.some.inj hk).symm]
      exact ⟨r, rfl, ‹_›⟩
    · obtain ⟨i, hi, hikey⟩ := h.held key seq hk
      obtain ⟨hseq, hknown⟩ := h.entry seq i hi
      by_cases heq : seq = r.perspectiveSeq
      · obtain rfl := hu i hknown r hr (hseq.trans heq)
        exact absurd hikey ‹_›
      · rw [if_neg heq]
        exact ⟨i, hi, hikey⟩

lemma Backed.remove {key : Option IdempotencyKey} (h : v.Backed known)
    (hkey : ∀ i, v.intentAt seq = some i → i.idempotencyKey = key) :
    (v.remove seq key).Backed known := by
  constructor
  · intro seq' i hi
    simp only [View.remove, update_apply] at hi
    exact h.entry seq' i (Option.ite_none_left_eq_some.1 hi).2
  · intro k seq' hk
    simp only [View.remove] at hk
    split at hk
    · cases hk
    · obtain ⟨i, hi, hik⟩ := h.held k seq' hk
      refine ⟨i, ?_, hik⟩
      simp only [View.remove, update_apply]
      rw [if_neg]
      · exact hi
      · rintro rfl
        have hne : ¬(key = some k ∧ v.holder k = some seq') := ‹_›
        exact hne ⟨(hkey i hi).symm.trans hik, hk⟩

lemma Put.backed (hput : Put v r v') (h : v.Backed known) (hu : UniqueSeqs known)
    (hr : r ∈ known) : v'.Backed known := by
  cases hput with
  | pending _ => exact h
  | duplicate _ _ => exact h
  | recorded _ => exact h.insert hu hr

lemma PutAll.backed (hput : PutAll v rs v') (h : v.Backed known) (hu : UniqueSeqs known)
    (hrs : ∀ r ∈ rs, r ∈ known) : v'.Backed known := by
  induction hput with
  | nil => exact h
  | cons hone _ ih =>
    obtain ⟨hr, hrs⟩ := forall_mem_cons.1 hrs
    exact ih (hone.backed h hu hr) hrs

def Covers (v : View) (i : WriteIntent) : Prop :=
  v.intentAt i.perspectiveSeq = some i ∨
    ∃ j, v.intentAt j.perspectiveSeq = some j ∧ j.SharesKey i

lemma Put.intentAt_mono (hput : Put v r v') (hb : v.Backed known) (hu : UniqueSeqs known)
    (hr : r ∈ known) (h : v.intentAt seq = some i) : v'.intentAt seq = some i := by
  cases hput with
  | pending _ => exact h
  | duplicate _ _ => exact h
  | recorded _ =>
    obtain ⟨rfl, hi⟩ := hb.entry seq i h
    simp only [View.insert, update_apply]
    split
    · rw [hu i hi r hr ‹_›]
    · exact h

lemma PutAll.intentAt_mono (hput : PutAll v rs v') (hb : v.Backed known) (hu : UniqueSeqs known)
    (hrs : ∀ r ∈ rs, r ∈ known) (h : v.intentAt seq = some i) : v'.intentAt seq = some i := by
  induction hput with
  | nil => exact h
  | cons hone _ ih =>
    obtain ⟨hr, hrs⟩ := forall_mem_cons.1 hrs
    exact ih (hone.backed hb hu hr) hrs (hone.intentAt_mono hb hu hr h)

lemma Put.covers (hput : Put v r v') (hb : v.Backed known) (hu : UniqueSeqs known)
    (hr : r ∈ known) : v'.Covers r := by
  cases hput with
  | pending h =>
    obtain ⟨hseq, hi⟩ := hb.entry _ _ h
    rw [hu _ hi r hr hseq] at h
    exact .inl h
  | @duplicate key seq hkey h =>
    obtain ⟨j, hj, hjkey⟩ := hb.held key seq h
    obtain ⟨rfl, _⟩ := hb.entry seq j hj
    by_cases heq : j = r
    · rw [heq] at hj
      exact .inl hj
    · exact .inr ⟨j, hj, heq, hjkey.trans hkey.symm, by rw [hkey]; nofun⟩
  | recorded _ =>
    left
    simp only [View.insert, update_self]

lemma Covers.mono (h : v.Covers i)
    (hmono : ∀ seq j, v.intentAt seq = some j → v'.intentAt seq = some j) : v'.Covers i := by
  rcases h with h | ⟨j, hj, hshare⟩
  · exact .inl (hmono _ _ h)
  · exact .inr ⟨j, hmono _ _ hj, hshare⟩

lemma Covers.of_sharesKey {j : WriteIntent} (h : v.Covers j) (hshare : j.SharesKey i) :
    v.Covers i := by
  obtain ⟨hne, hkey, hsome⟩ := hshare
  rcases h with h | ⟨j', hj', _, hkey', _⟩
  · exact .inr ⟨j, h, hne, hkey, hsome⟩
  · by_cases heq : j' = i
    · rw [heq] at hj'
      exact .inl hj'
    · exact .inr ⟨j', hj', heq, hkey'.trans hkey, hsome⟩

lemma PutAll.covers (hput : PutAll v rs v') (hb : v.Backed known) (hu : UniqueSeqs known)
    (hrs : ∀ r ∈ rs, r ∈ known) : ∀ r ∈ rs, v'.Covers r := by
  induction hput with
  | nil => exact fun r hr => absurd hr not_mem_nil
  | cons hone hrest ih =>
    obtain ⟨hr, hrs⟩ := forall_mem_cons.1 hrs
    have hb' := hone.backed hb hu hr
    refine forall_mem_cons.2 ⟨?_, ih hb' hrs⟩
    exact (hone.covers hb hu hr).mono fun seq j => hrest.intentAt_mono hb' hu hrs

lemma PutAll.source (hput : PutAll v rs v') (h : v'.intentAt seq = some i) :
    v.intentAt seq = some i ∨ i ∈ rs := by
  induction hput with
  | nil => exact .inl h
  | @cons v r v' rs v'' hone _ ih =>
    rcases ih h with hi | hi
    · cases hone with
      | pending _ => exact .inl hi
      | duplicate _ _ => exact .inl hi
      | recorded _ =>
        simp only [View.insert, update_apply] at hi
        split at hi
        · exact .inr (mem_cons.2 (.inl (Option.some.inj hi).symm))
        · exact .inl hi
    · exact .inr (mem_cons_of_mem _ hi)

end View

end Kiseki.Intent
