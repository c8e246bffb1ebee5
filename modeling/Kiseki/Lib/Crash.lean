import Mathlib.Tactic.Lemma

namespace Crash

open List

/-- The disks at which a program could be cut, then how it ends. -/
structure Outcome (D V α : Type) where
  cuts : List D
  disk : D
  mem : V
  value : α

/-- A program that commits to a disk in atomic steps. -/
def Prog (D V α : Type) : Type := D → V → Outcome D V α

namespace Prog

def ret (a : α) : Prog D V α := fun d v => ⟨[], d, v, a⟩

def bind (m : Prog D V α) (k : α → Prog D V β) : Prog D V β := fun d v =>
  let o := m d v
  let o' := k o.value o.disk o.mem
  ⟨o.cuts ++ o'.cuts, o'.disk, o'.mem, o'.value⟩

instance : Monad (Prog D V) where
  pure := ret
  bind := bind

/-- One atomic durable step; the program can be cut right after it. -/
def commit (f : D → D) : Prog D V Unit := fun d v => ⟨[f d], f d, v, ()⟩

@[simp]
lemma cuts_bind (m : Prog D V α) (k : α → Prog D V β) (d : D) (v : V) :
    ((m >>= k) d v).cuts =
      (m d v).cuts ++ (k (m d v).value (m d v).disk (m d v).mem).cuts := rfl

lemma value_bind (m : Prog D V α) (k : α → Prog D V β) (d : D) (v : V) :
    ((m >>= k) d v).value = (k (m d v).value (m d v).disk (m d v).mem).value := rfl

@[simp]
lemma cuts_pure (a : α) (d : D) (v : V) : ((pure a : Prog D V α) d v).cuts = [] := rfl

def disk : Prog D V D := fun d v => ⟨[], d, v, d⟩

lemma read_disk_bind (k : D → Prog D V α) (d : D) (v : V) : (disk >>= k) d v = k d d v := rfl

def mem : Prog D V V := fun d v => ⟨[], d, v, v⟩

lemma read_mem_bind (k : V → Prog D V α) (d : D) (v : V) : (mem >>= k) d v = k v d v := rfl

def modify (f : V → V) : Prog D V Unit := fun d v => ⟨[], d, f v, ()⟩

lemma modify_bind (f : V → V) (k : Unit → Prog D V α) (d : D) (v : V) :
    (modify f >>= k) d v = k () d (f v) := rfl

def commitAll (fs : List (D → D)) : Prog D V Unit :=
  match fs with
  | [] => pure ()
  | f :: fs => do
    commit f
    commitAll fs

lemma commitAll_result {fs : List (D → D)} (d : D) {v : V} :
    (commitAll fs d v).disk = fs.foldl (fun d f => f d) d ∧ (commitAll fs d v).mem = v := by
  induction fs generalizing d with
  | nil => exact ⟨rfl, rfl⟩
  | cons f fs ih => exact ih (f d)

lemma commitAll_cut {fs : List (D → D)} {d d' : D} {v : V} {k : Nat}
    (h : (commitAll fs d v).cuts[k]? = some d') :
    d' = (fs.take (k + 1)).foldl (fun d f => f d) d := by
  induction fs generalizing d k with
  | nil => cases h
  | cons f fs ih =>
    cases k with
    | zero => exact (Option.some.inj h).symm
    | succ k => exact ih h

end Prog

/-- Every disk the program could be cut at meets the crash condition. -/
def Triple (P : D → V → Prop) (m : Prog D V α) (Q : α → D → V → Prop) (C : D → Prop) : Prop :=
  ∀ d v, P d v →
    (∀ d' ∈ (m d v).cuts, C d') ∧ Q (m d v).value (m d v).disk (m d v).mem

namespace Triple
variable {D V α β : Type} {P : D → V → Prop} {Q : α → D → V → Prop} {C : D → Prop}

lemma ret (h : ∀ d v, P d v → Q a d v) : Triple P (pure a : Prog D V α) Q C := by
  intro d v hp
  exact ⟨fun _ hd => absurd hd not_mem_nil, h d v hp⟩

lemma bind {m : Prog D V α} {k : α → Prog D V β} {R : β → D → V → Prop}
    (hm : Triple P m Q C) (hk : ∀ a, Triple (Q a) (k a) R C) : Triple P (m >>= k) R C := by
  intro d v hp
  obtain ⟨hcut, hr⟩ := hm d v hp
  obtain ⟨hcut', hq⟩ := hk _ _ _ hr
  refine ⟨?_, hq⟩
  intro d' hd
  rcases mem_append.1 hd with hd | hd
  · exact hcut d' hd
  · exact hcut' d' hd

lemma commit {f : D → D} {Q : Unit → D → V → Prop}
    (h : ∀ d v, P d v → Q () (f d) v ∧ C (f d)) : Triple P (Prog.commit f) Q C := by
  intro d v hp
  refine ⟨?_, (h d v hp).1⟩
  intro d' hd
  rw [mem_singleton.1 hd]
  exact (h d v hp).2

lemma modify {f : V → V} {Q : Unit → D → V → Prop} (h : ∀ d v, P d v → Q () d (f v)) :
    Triple P (Prog.modify f) Q C := by
  intro d v hp
  exact ⟨fun _ hd => absurd hd not_mem_nil, h d v hp⟩

lemma bind_disk {k : D → Prog D V α} (h : ∀ a, Triple (fun d v => P d v ∧ d = a) (k a) Q C) :
    Triple P (Prog.disk >>= k) Q C := by
  intro d v hp
  exact h d d v ⟨hp, rfl⟩

lemma bind_mem {k : V → Prog D V α} (h : ∀ a, Triple (fun d v => P d v ∧ v = a) (k a) Q C) :
    Triple P (Prog.mem >>= k) Q C := by
  intro d v hp
  exact h v d v ⟨hp, rfl⟩

lemma weaken {m : Prog D V α} {P' : D → V → Prop} {Q' : α → D → V → Prop} {C' : D → Prop}
    (h : Triple P m Q C) (hp : ∀ d v, P' d v → P d v) (hq : ∀ a d v, Q a d v → Q' a d v)
    (hc : ∀ d, C d → C' d) : Triple P' m Q' C' := by
  intro d v hp'
  obtain ⟨hcut, hpost⟩ := h d v (hp d v hp')
  exact ⟨fun d' hd => hc d' (hcut d' hd), hq _ _ _ hpost⟩

lemma of_exists {ι : Sort _} {m : Prog D V α} {P : ι → D → V → Prop}
    (h : ∀ i, Triple (P i) m Q C) : Triple (fun d v => ∃ i, P i d v) m Q C := by
  intro d v hp
  obtain ⟨i, hi⟩ := hp
  exact h i d v hi

lemma of_pure {p : Prop} {m : Prog D V α} (hp : ∀ d v, P d v → p) (h : p → Triple P m Q C) :
    Triple P m Q C := by
  intro d v hpre
  exact h (hp d v hpre) d v hpre

lemma ite [Decidable c] {m m' : Prog D V α}
    (ht : c → Triple P m Q C) (he : ¬c → Triple P m' Q C) :
    Triple P (if c then m else m') Q C := by
  split
  · exact ht ‹_›
  · exact he ‹_›

lemma commitAll {fs : List (D → D)} (hp : ∀ f ∈ fs, ∀ d v, P d v → P (f d) v ∧ C (f d)) :
    Triple P (Prog.commitAll fs) (fun _ => P) C := by
  induction fs with
  | nil => exact ret fun _ _ h => h
  | cons f fs ih =>
    have hf := hp f mem_cons_self
    exact bind (commit hf) fun _ => ih fun g hg => hp g (mem_cons_of_mem _ hg)

end Triple

end Crash
