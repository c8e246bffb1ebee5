import Mathlib.Order.Lattice

/-! A register whose writes carry stamps. A write is taken if the stamp that it is compared with
gives way: the stamp that the register has, or the one that it had before a window of writes. -/

namespace Register

open List

variable {α : Type u} {σ : Type v} [LinearOrder σ] {top b : α × σ} {e : Option (α × σ)}
  {first last bs : List (α × σ)} {stored : Option σ}

def gives (stored : Option σ) (s : σ) : Bool :=
  match stored with
  | some q => decide (q ≤ s)
  | none => true

def take (stored : Option σ) (e : Option (α × σ)) (b : α × σ) : Option (α × σ) :=
  if gives stored b.2 then some b else e

def write (e : Option (α × σ)) (b : α × σ) : Option (α × σ) := take (e.map Prod.snd) e b

/-- Writes that are all compared with the register before them. -/
def window (e : Option (α × σ)) (bs : List (α × σ)) : Option (α × σ) :=
  bs.foldl (take (e.map Prod.snd)) e

def Below (top : α × σ) (e : Option (α × σ)) : Prop := ∀ p ∈ e, p.2 < top.2

section
variable (h : Below top e)

include h

lemma Below.ne : e ≠ some top := by
  rintro rfl
  exact lt_irrefl _ (h top rfl)

lemma Below.gives : gives (e.map Prod.snd) top.2 = true := by
  cases e with
  | none => rfl
  | some p => exact decide_eq_true (h p rfl).le

lemma Below.take (hb : b.2 < top.2) : Below top (take stored e b) := by
  rw [Register.take]
  split
  · intro p hp
    rw [← Option.some.inj hp]
    exact hb
  · exact h

lemma Below.foldl_take (hbs : ∀ b ∈ bs, b.2 < top.2) :
    Below top (bs.foldl (Register.take stored) e) :=
  foldlRecOn bs _ h fun _ he b hb => he.take (hbs b hb)

lemma Below.foldl_write (hbs : ∀ b ∈ bs, b.2 < top.2) : Below top (bs.foldl write e) :=
  foldlRecOn bs _ h fun _ he b hb => he.take (hbs b hb)

lemma Below.foldl_window {ws : List (List (α × σ))}
    (hws : ∀ w ∈ ws, ∀ b ∈ w, b.2 < top.2) : Below top (ws.foldl window e) :=
  foldlRecOn ws _ h fun _ he w hw => he.foldl_take (hws w hw)

lemma Below.take_top : Register.take (e.map Prod.snd) e' top = some top := by
  rw [Register.take, if_pos h.gives]

end

lemma foldl_write_of_lt (hbs : ∀ b ∈ bs, b.2 < top.2) : bs.foldl write (some top) = some top := by
  induction bs with
  | nil => rfl
  | cons b bs ih =>
    have hold : gives (some top.2) b.2 = false :=
      decide_eq_false (not_le.2 (hbs b mem_cons_self))
    have hwrite : write (some top) b = some top := by
      rw [write, take, Option.map_some, hold]
      rfl
    rw [foldl_cons, hwrite]
    exact ih fun c hc => hbs c (mem_cons_of_mem b hc)

lemma foldl_write_top (h : Below top e) (hfirst : ∀ b ∈ first, b.2 < top.2)
    (hlast : ∀ b ∈ last, b.2 < top.2) :
    (first ++ top :: last).foldl write e = some top := by
  have hwrite : write (first.foldl write e) top = some top := (h.foldl_write hfirst).take_top
  rw [foldl_append, foldl_cons, hwrite]
  exact foldl_write_of_lt hlast

lemma foldl_window_of_lt {ws : List (List (α × σ))} (hws : ∀ w ∈ ws, ∀ b ∈ w, b.2 < top.2) :
    ws.foldl window (some top) = some top := by
  apply foldlRecOn (motive := fun e : Option (α × σ) => e = some top) ws window rfl
  intro e he w hw
  subst he
  apply foldlRecOn (motive := fun e : Option (α × σ) => e = some top) w _ rfl
  intro e he b hb
  have hold : gives (some top.2) b.2 = false := decide_eq_false (not_le.2 (hws w hw b hb))
  rw [take, Option.map_some, hold, he]
  rfl

lemma foldl_take_top (hlast : ∀ b ∈ last, b.2 < top.2) :
    (last.foldl (take stored) (some top) = some top ∧ ∀ b ∈ last, gives stored b.2 = false) ∨
      Below top (last.foldl (take stored) (some top)) ∧ ∃ b ∈ last, gives stored b.2 = true := by
  induction last with
  | nil =>
    left
    apply And.intro rfl
    intro b hb
    cases hb
  | cons b last ih =>
    have hrest : ∀ c ∈ last, c.2 < top.2 := fun c hc => hlast c (mem_cons_of_mem b hc)
    rw [foldl_cons, take]
    cases hgives : gives stored b.2 with
    | false =>
      rw [if_neg Bool.false_ne_true]
      rcases ih hrest with ⟨hkept, hnone⟩ | ⟨hbelow, c, hc, htaken⟩
      · exact .inl ⟨hkept, forall_mem_cons.2 ⟨hgives, hnone⟩⟩
      · exact .inr ⟨hbelow, c, mem_cons_of_mem b hc, htaken⟩
    | true =>
      have hbelow : Below top (some b) := by
        intro p hp
        rw [← Option.some.inj hp]
        exact hlast b mem_cons_self
      rw [if_pos rfl]
      exact .inr ⟨hbelow.foldl_take hrest, b, mem_cons_self, hgives⟩

/-- The youngest wins exactly if none behind it in its window is taken. -/
lemma foldl_window_top_iff {before after : List (List (α × σ))} (h : Below top e)
    (hbefore : ∀ w ∈ before, ∀ b ∈ w, b.2 < top.2) (hlast : ∀ b ∈ last, b.2 < top.2)
    (hafter : ∀ w ∈ after, ∀ b ∈ w, b.2 < top.2) :
    (before ++ (first ++ top :: last) :: after).foldl window e = some top ↔
      ∀ b ∈ last, gives ((before.foldl window e).map Prod.snd) b.2 = false := by
  have hstart := h.foldl_window hbefore
  have hwindow : window (before.foldl window e) (first ++ top :: last) =
      last.foldl (take ((before.foldl window e).map Prod.snd)) (some top) := by
    rw [window, foldl_append, foldl_cons, hstart.take_top]
  rw [foldl_append, foldl_cons, hwindow]
  rcases foldl_take_top hlast with ⟨hkept, hnone⟩ | ⟨hbelow, b, hb, htaken⟩
  · rw [hkept]
    exact iff_of_true (foldl_window_of_lt hafter) hnone
  · -- once it is replaced, what comes later is older than it
    apply iff_of_false (hbelow.foldl_window hafter).ne
    intro hall
    rw [hall b hb] at htaken
    cases htaken

end Register
