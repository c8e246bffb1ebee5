import Kiseki.Lib.Maps

/-! A map with its inverse, and a stamp for the keys that are bound. -/

namespace Pairing

open Finmap List Option Maps

@[ext]
structure Index (κ : Type u) (ι : Type v) (σ : Type w) where
  names : Finmap fun _ : κ => ι
  reverse : Finmap fun _ : ι => κ
  stamps : Finmap fun _ : κ => σ

namespace Index
variable {κ : Type u} {ι : Type v} {σ : Type w} [DecidableEq κ] [DecidableEq ι]

def empty : Index κ ι σ := ⟨∅, ∅, ∅⟩

structure Paired (x : Index κ ι σ) : Prop where
  inverse : ∀ k i, x.names.lookup k = some i ↔ x.reverse.lookup i = some k
  stamped : ∀ k, x.names.lookup k = none → x.stamps.lookup k = none

section
variable (x : Index κ ι σ)

def entry (k : κ) : Option ι × Option σ := (x.names.lookup k, x.stamps.lookup k)

def unbind (k : κ) : Index κ ι σ where
  names := x.names.erase k
  reverse :=
    match x.names.lookup k with
    | some i => x.reverse.erase i
    | none => x.reverse
  stamps := x.stamps.erase k

def release (i : ι) : Index κ ι σ :=
  match x.reverse.lookup i with
  | some k => x.unbind k
  | none => x

def rebind (k : κ) (i : ι) (stamp : Option σ) : Index κ ι σ where
  names := ((x.release i).unbind k).names.insert k i
  reverse := ((x.release i).unbind k).reverse.insert i k
  stamps :=
    match stamp with
    | some s => ((x.release i).unbind k).stamps.insert k s
    | none => ((x.release i).unbind k).stamps

end

section
variable {x y : Index κ ι σ} {k j : κ} {i l : ι} {stamp : Option σ}

lemma Paired.empty : (empty : Index κ ι σ).Paired where
  inverse := fun k i => by rw [Index.empty, lookup_empty, lookup_empty]; simp
  stamped := fun k _ => lookup_empty k

lemma Paired.names_eq_iff (h : x.Paired) (hi : x.reverse.lookup i = some k) :
    x.names.lookup j = some i ↔ j = k := by
  rw [h.inverse, hi, some.injEq, eq_comm]

lemma Paired.names_ne (h : x.Paired) (hi : x.reverse.lookup i = none) :
    x.names.lookup j ≠ some i := by
  rw [Ne, h.inverse, hi]
  intro heq
  cases heq

lemma Paired.ext (h : x.Paired) (h' : y.Paired) (hentry : ∀ k, x.entry k = y.entry k) :
    x = y := by
  have hnames := fun k => congrArg Prod.fst (hentry k)
  apply Index.ext
  · exact ext_lookup hnames
  · apply ext_lookup
    intro i
    apply Option.ext
    intro k
    rw [← h.inverse, ← h'.inverse]
    exact Eq.congr_left (hnames k)
  · exact ext_lookup fun k => congrArg Prod.snd (hentry k)

lemma names_unbind : (x.unbind k).names.lookup j = if j = k then none else x.names.lookup j :=
  lookup_erase _ _ _

lemma stamps_unbind : (x.unbind k).stamps.lookup j = if j = k then none else x.stamps.lookup j :=
  lookup_erase _ _ _

lemma entry_unbind : (x.unbind k).entry j = if j = k then (none, none) else x.entry j := by
  rw [entry, names_unbind, stamps_unbind]
  split <;> rfl

section
variable (h : x.Paired)

include h

lemma Paired.reverse_unbind (k : κ) (i : ι) :
    (x.unbind k).reverse.lookup i =
      if x.reverse.lookup i = some k then none else x.reverse.lookup i := by
  simp only [unbind, ← h.inverse]
  cases x.names.lookup k with
  | none => rfl
  | some l => simp only [Maps.lookup_erase, some.injEq, eq_comm]

lemma Paired.unbind (k : κ) : (x.unbind k).Paired where
  inverse := by
    intro j i
    rw [names_unbind, h.reverse_unbind, ite_none_left_eq_some, ite_none_left_eq_some, h.inverse]
    exact and_congr_left fun hrev => by rw [hrev, some.injEq]
  stamped := by
    intro j hj
    rw [names_unbind, ite_eq_left_iff] at hj
    rw [stamps_unbind, ite_eq_left_iff]
    exact fun hne => h.stamped j (hj hne)

lemma Paired.unbind_of_none (hk : x.names.lookup k = none) : x.unbind k = x := by
  apply (h.unbind k).ext h
  intro j
  rw [entry_unbind]
  split
  · next hj => rw [hj, entry, hk, h.stamped k hk]
  · rfl

lemma Paired.release (i : ι) : (x.release i).Paired := by
  rw [Index.release]
  split
  · exact h.unbind _
  · exact h

lemma Paired.names_release (i : ι) (j : κ) :
    (x.release i).names.lookup j =
      if x.names.lookup j = some i then none else x.names.lookup j := by
  simp only [Index.release]
  cases hk : x.reverse.lookup i with
  | none => rw [if_neg (h.names_ne hk)]
  | some k => simp only [names_unbind, h.names_eq_iff hk]

lemma Paired.stamps_release (i : ι) (j : κ) :
    (x.release i).stamps.lookup j =
      if x.names.lookup j = some i then none else x.stamps.lookup j := by
  simp only [Index.release]
  cases hk : x.reverse.lookup i with
  | none => rw [if_neg (h.names_ne hk)]
  | some k => simp only [stamps_unbind, h.names_eq_iff hk]

lemma Paired.entry_release (i : ι) (j : κ) :
    (x.release i).entry j = if x.names.lookup j = some i then (none, none) else x.entry j := by
  rw [entry, h.names_release, h.stamps_release]
  split <;> rfl

lemma Paired.reverse_release (i l : ι) :
    (x.release i).reverse.lookup l = if l = i then none else x.reverse.lookup l := by
  rw [Index.release]
  split
  · next k hk =>
    rw [h.reverse_unbind]
    by_cases hl : l = i
    · rw [if_pos hl, hl, if_pos hk]
    · rw [if_neg hl, if_neg]
      intro heq
      have hil : x.names.lookup k = some i := (h.inverse k i).2 hk
      rw [(h.inverse k l).2 heq] at hil
      exact hl (some.inj hil)
  · next hk =>
    split
    · next hl => rw [hl, hk]
    · rfl

section
variable (k : κ) (i : ι) (stamp : Option σ)

lemma Paired.names_rebind (j : κ) :
    (x.rebind k i stamp).names.lookup j =
      if j = k then some i
      else if x.names.lookup j = some i then none else x.names.lookup j := by
  apply (lookup_insert _ _ _).trans
  rw [names_unbind, h.names_release]
  grind

lemma Paired.stamps_rebind (j : κ) :
    (x.rebind k i stamp).stamps.lookup j =
      if j = k then stamp
      else if x.names.lookup j = some i then none else x.stamps.lookup j := by
  rw [← h.stamps_release]
  cases stamp with
  | none => exact lookup_erase _ _ _
  | some s =>
    apply (lookup_insert _ _ _).trans
    rw [stamps_unbind]
    grind

lemma Paired.reverse_rebind (l : ι) :
    (x.rebind k i stamp).reverse.lookup l =
      if l = i then some k
      else if x.reverse.lookup l = some k then none else x.reverse.lookup l := by
  apply (lookup_insert _ _ _).trans
  rw [(h.release i).reverse_unbind, h.reverse_release]
  grind

lemma Paired.entry_rebind (j : κ) :
    (x.rebind k i stamp).entry j = if j = k then (some i, stamp) else (x.release i).entry j := by
  rw [entry, h.names_rebind, h.stamps_rebind, entry, h.names_release, h.stamps_release]
  split <;> rfl

lemma Paired.rebind : (x.rebind k i stamp).Paired where
  inverse := by
    intro j l
    rw [h.names_rebind, h.reverse_rebind]
    by_cases hj : j = k
    · by_cases hl : l = i
      · rw [if_pos hj, if_pos hl, hj, hl]
        simp
      · rw [if_pos hj, if_neg hl, hj, ite_none_left_eq_some]
        exact iff_of_false (fun heq => hl (some.inj heq).symm) fun hrev => hrev.1 hrev.2
    · rw [if_neg hj, ite_none_left_eq_some]
      by_cases hl : l = i
      · rw [if_pos hl, hl]
        exact iff_of_false (fun hname => hname.1 hname.2) fun heq => hj (some.inj heq).symm
      · rw [if_neg hl, ite_none_left_eq_some, h.inverse j l]
        refine and_congr_left fun hrev => ?_
        rw [(h.inverse j l).2 hrev, hrev, some.injEq, some.injEq]
        exact iff_of_true hl hj
  stamped := by
    intro j hj
    rw [h.names_rebind] at hj
    split at hj
    · cases hj
    · next hne =>
      rw [ite_eq_left_iff] at hj
      rw [h.stamps_rebind, if_neg hne, ite_eq_left_iff]
      exact fun hi => h.stamped j (hj hi)

end

lemma Paired.rebind_unbind (hk : j ≠ k) :
    (x.unbind k).rebind j i stamp = (x.rebind j i stamp).unbind k := by
  have hu := h.unbind k
  apply (hu.rebind j i stamp).ext ((h.rebind j i stamp).unbind k)
  intro m
  rw [hu.entry_rebind, entry_unbind, h.entry_rebind, hu.entry_release, h.entry_release,
    names_unbind, entry_unbind]
  by_cases hm : m = k
  · rw [if_pos hm, if_pos hm, if_pos hm, hm, if_neg hk.symm]
    rfl
  · rw [if_neg hm, if_neg hm, if_neg hm]

end

end

abbrev Offer (κ : Type u) (ι : Type v) (σ : Type w) := κ × ι × Option σ

section
variable (accepts : Option σ → Option σ → Bool)

section
variable (x : Index κ ι σ)

/-- Taken if the stamp of the key gives way. -/
def offer (b : Offer κ ι σ) : Index κ ι σ :=
  if accepts (x.stamps.lookup b.1) b.2.2 then x.rebind b.1 b.2.1 b.2.2 else x

def offers (bs : List (Offer κ ι σ)) : Index κ ι σ := bs.foldl (offer accepts) x

def unbinds (ks : List κ) : Index κ ι σ := ks.foldl unbind x

def releases (is : List ι) : Index κ ι σ := is.foldl release x

end

variable {x y : Index κ ι σ} {k : κ} {i : ι} {b : Offer κ ι σ} {ks ks' : List κ}
  {bs : List (Offer κ ι σ)}

lemma Paired.offer (h : x.Paired) (b : Offer κ ι σ) : (x.offer accepts b).Paired := by
  rw [Index.offer]
  split
  · exact h.rebind _ _ _
  · exact h

lemma Paired.offers (h : x.Paired) (bs : List (Offer κ ι σ)) : (x.offers accepts bs).Paired :=
  foldlRecOn bs _ h fun _ hy b _ => hy.offer accepts b

lemma Paired.unbinds (h : x.Paired) (ks : List κ) : (x.unbinds ks).Paired :=
  foldlRecOn ks _ h fun _ hy k _ => hy.unbind k

lemma Paired.releases (h : x.Paired) (is : List ι) : (x.releases is).Paired :=
  foldlRecOn is _ h fun _ hy i _ => hy.release i

variable {accepts}

lemma Paired.offer_unbind (h : x.Paired) (hk : b.1 ≠ k) :
    (x.unbind k).offer accepts b = (x.offer accepts b).unbind k := by
  rw [Index.offer, Index.offer, stamps_unbind, if_neg hk]
  split
  · exact h.rebind_unbind hk
  · rfl

lemma Paired.offers_unbind (h : x.Paired) (hk : ∀ b ∈ bs, b.1 ≠ k) :
    (x.unbind k).offers accepts bs = (x.offers accepts bs).unbind k := by
  induction bs generalizing x with
  | nil => rfl
  | cons b bs ih =>
    have hrest := ih (h.offer accepts b) fun c hc => hk c (mem_cons_of_mem b hc)
    rw [Index.offers, foldl_cons, h.offer_unbind (hk b mem_cons_self)]
    exact hrest

lemma Paired.offers_unbinds (h : x.Paired) (hk : ∀ b ∈ bs, b.1 ∉ ks) :
    (x.unbinds ks).offers accepts bs = (x.offers accepts bs).unbinds ks := by
  induction ks generalizing x with
  | nil => rfl
  | cons k ks ih =>
    have hfirst : (x.unbind k).offers accepts bs = (x.offers accepts bs).unbind k :=
      h.offers_unbind fun b hb heq => hk b hb (heq ▸ mem_cons_self)
    have hrest := ih (h.unbind k) fun b hb hmem => hk b hb (mem_cons_of_mem k hmem)
    rw [hfirst] at hrest
    exact hrest

variable {j : κ}

lemma entry_unbinds (x : Index κ ι σ) :
    (x.unbinds ks).entry j = if j ∈ ks then (none, none) else x.entry j := by
  induction ks generalizing x with
  | nil => rw [if_neg not_mem_nil]; rfl
  | cons k ks ih =>
    apply (ih (x.unbind k)).trans
    by_cases hj : j ∈ ks
    · rw [if_pos hj, if_pos (mem_cons_of_mem k hj)]
    · rw [if_neg hj, entry_unbind]
      simp only [mem_cons, hj, or_false]

lemma names_unbinds (x : Index κ ι σ) :
    (x.unbinds ks).names.lookup j = if j ∈ ks then none else x.names.lookup j :=
  (congrArg Prod.fst x.entry_unbinds).trans (apply_ite _ _ _ _)

section
variable (h : x.Paired)

include h

lemma Paired.unbinds_absorb (hks : ks ⊆ ks') : (x.unbinds ks).unbinds ks' = x.unbinds ks' := by
  apply ((h.unbinds ks).unbinds ks').ext (h.unbinds ks')
  intro j
  rw [entry_unbinds, entry_unbinds, entry_unbinds]
  by_cases hj : j ∈ ks'
  · rw [if_pos hj, if_pos hj]
  · rw [if_neg hj, if_neg hj, if_neg fun hmem => hj (hks hmem)]

lemma Paired.entry_releases (is : List ι) (j : κ) :
    (x.releases is).entry j =
      if ∃ i ∈ is, x.names.lookup j = some i then (none, none) else x.entry j := by
  induction is generalizing x with
  | nil => rfl
  | cons i is ih =>
    apply (ih (h.release i)).trans
    rw [h.names_release, h.entry_release]
    by_cases hj : x.names.lookup j = some i
    · simp [hj]
    · simp [hj]

lemma Paired.releases_eq_unbinds (is : List ι) :
    x.releases is = x.unbinds (is.filterMap x.reverse.lookup) := by
  have hiff : ∀ j, j ∈ is.filterMap x.reverse.lookup ↔ ∃ i ∈ is, x.names.lookup j = some i := by
    intro j
    simp only [mem_filterMap, h.inverse]
  apply (h.releases is).ext (h.unbinds _)
  intro j
  simp only [h.entry_releases, entry_unbinds, hiff]

lemma Paired.names_offer (hk : (x.offer accepts b).names.lookup k = some i) :
    b.1 = k ∧ b.2.1 = i ∨ x.names.lookup k = some i := by
  rw [Index.offer] at hk
  split at hk
  · rw [h.names_rebind] at hk
    split at hk
    · next heq => exact .inl ⟨heq.symm, some.inj hk⟩
    · exact .inr (ite_none_left_eq_some.1 hk).2
  · exact .inr hk

lemma Paired.names_offers (hk : (x.offers accepts bs).names.lookup k = some i) :
    (∃ b ∈ bs, b.1 = k ∧ b.2.1 = i) ∨ x.names.lookup k = some i := by
  induction bs generalizing x with
  | nil => exact .inr hk
  | cons b bs ih =>
    rcases ih (h.offer accepts b) hk with ⟨c, hc, hbound⟩ | hbefore
    · exact .inl ⟨c, mem_cons_of_mem b hc, hbound⟩
    · rcases h.names_offer hbefore with hbound | hbefore
      · exact .inl ⟨b, mem_cons_self, hbound⟩
      · exact .inr hbefore

/-- A value and key that were not offered are released as at first. -/
lemma Paired.release_offers (accepts : Option σ → Option σ → Bool) (ks : List κ)
    (hids : ∀ b ∈ bs, b.2.1 ≠ i) (hkeys : ∀ b ∈ bs, x.names.lookup b.1 ≠ some i) :
    ((x.unbinds ks).offers accepts bs).release i =
      match x.reverse.lookup i with
      | some k => ((x.unbinds ks).offers accepts bs).unbind k
      | none => (x.unbinds ks).offers accepts bs := by
  have hu := h.unbinds ks
  have ho := hu.offers accepts bs
  have hbefore : ∀ k l, ((x.unbinds ks).offers accepts bs).names.lookup k = some l →
      (∀ b ∈ bs, b.1 = k → b.2.1 ≠ l) → x.names.lookup k = some l := by
    intro k l hk hno
    rcases hu.names_offers hk with ⟨b, hb, hkey, hid⟩ | hold
    · exact absurd hid (hno b hb hkey)
    · rw [names_unbinds] at hold
      exact (ite_none_left_eq_some.1 hold).2
  rw [Index.release]
  split
  · next k hk =>
    have hx := hbefore k i ((ho.inverse k i).2 hk) fun b hb _ => hids b hb
    rw [(h.inverse k i).1 hx]
  · next hk =>
    cases hx : x.reverse.lookup i with
    | none => rfl
    | some k =>
      -- the key is gone already: nobody took it over
      have hnone : ((x.unbinds ks).offers accepts bs).names.lookup k = none := by
        apply eq_none_iff_forall_ne_some.2
        intro l hl
        have hi := (h.inverse k i).2 hx
        have hxl := hbefore k l hl fun b hb hkey => absurd (hkey ▸ hi) (hkeys b hb)
        rw [hi] at hxl
        rw [← some.inj hxl, ho.inverse, hk] at hl
        cases hl
      exact (ho.unbind_of_none hnone).symm

end

end

/-! Reading an index `x` that has become `y` since: what has been read stays valid for an offer that
nothing has touched, and for a key that is as it was or gone. -/

section
variable {accepts : Option σ → Option σ → Bool} {x y : Index κ ι σ} {k j : κ} {i : ι}
  {b c : Offer κ ι σ}

structure Untouched (x y : Index κ ι σ) (b : Offer κ ι σ) : Prop where
  stamp : y.stamps.lookup b.1 = x.stamps.lookup b.1
  name : y.names.lookup b.1 = x.names.lookup b.1
  reverse : y.reverse.lookup b.2.1 = x.reverse.lookup b.2.1

def Settled (x y : Index κ ι σ) (k : κ) : Prop :=
  (y.names.lookup k = x.names.lookup k ∧ y.stamps.lookup k = x.stamps.lookup k) ∨
    y.names.lookup k = none ∧ ∀ i, x.names.lookup k = some i → y.reverse.lookup i = none

/-- No key or value in common, nor in what they replace. -/
def Apart (x : Index κ ι σ) (b c : Offer κ ι σ) : Prop :=
  b.1 ≠ c.1 ∧ b.2.1 ≠ c.2.1 ∧ x.names.lookup b.1 ≠ some c.2.1 ∧ x.names.lookup c.1 ≠ some b.2.1

instance : DecidableRel (Apart x) := fun b c =>
  inferInstanceAs (Decidable (b.1 ≠ c.1 ∧ b.2.1 ≠ c.2.1 ∧ x.names.lookup b.1 ≠ some c.2.1 ∧
    x.names.lookup c.1 ≠ some b.2.1))

lemma Untouched.refl (x : Index κ ι σ) (b : Offer κ ι σ) : x.Untouched x b := ⟨rfl, rfl, rfl⟩

lemma Untouched.release (h : x.Untouched y b) (hy : y.Paired) (hid : b.2.1 ≠ i)
    (hkey : x.names.lookup b.1 ≠ some i) : x.Untouched (y.release i) b where
  stamp := by
    rw [hy.stamps_release, h.name, if_neg hkey]
    exact h.stamp
  name := by
    rw [hy.names_release, h.name, if_neg hkey]
  reverse := by
    rw [hy.reverse_release, if_neg hid]
    exact h.reverse

lemma Untouched.offer (h : x.Untouched y b) (hx : x.Paired) (hy : y.Paired)
    (hapart : x.Apart c b) : x.Untouched (y.offer accepts c) b := by
  obtain ⟨hkey, hid, hname, hname'⟩ := hapart
  rw [Index.offer]
  split
  · constructor
    · rw [hy.stamps_rebind, if_neg (Ne.symm hkey), h.name, if_neg hname']
      exact h.stamp
    · rw [hy.names_rebind, if_neg (Ne.symm hkey), h.name, if_neg hname']
    · have hrev : x.reverse.lookup b.2.1 ≠ some c.1 := by
        rw [Ne, ← hx.inverse]
        exact hname
      rw [hy.reverse_rebind, if_neg (Ne.symm hid), h.reverse, if_neg hrev]
  · exact h

lemma Untouched.releases (h : x.Untouched y b) (hy : y.Paired) (is : List ι)
    (his : ∀ i ∈ is, b.2.1 ≠ i ∧ x.names.lookup b.1 ≠ some i) : x.Untouched (y.releases is) b := by
  induction is generalizing y with
  | nil => exact h
  | cons i is ih =>
    obtain ⟨hid, hkey⟩ := his i mem_cons_self
    exact ih (h.release hy hid hkey) (hy.release i) fun l hl => his l (mem_cons_of_mem i hl)

lemma Settled.refl (x : Index κ ι σ) (k : κ) : x.Settled x k := .inl ⟨rfl, rfl⟩

section
variable (h : x.Settled y k)

include h

lemma Settled.unbind (hy : y.Paired) (j : κ) : x.Settled (y.unbind j) k := by
  rw [Settled, names_unbind, stamps_unbind]
  by_cases hk : k = j
  · right
    rw [if_pos hk]
    apply And.intro rfl
    intro i hi
    rw [hy.reverse_unbind, ite_eq_left_iff]
    intro hne
    rcases h with ⟨hname, _⟩ | ⟨_, hgone⟩
    · rw [hi, hk, hy.inverse] at hname
      exact absurd hname hne
    · exact hgone i hi
  · rw [if_neg hk, if_neg hk]
    apply Or.imp_right _ h
    intro hgone
    apply And.intro hgone.1
    intro i hi
    rw [hy.reverse_unbind, ite_eq_left_iff]
    exact fun _ => hgone.2 i hi

lemma Settled.release (hy : y.Paired) (i : ι) : x.Settled (y.release i) k := by
  rw [Index.release]
  split
  · exact h.unbind hy _
  · exact h

lemma Settled.releases (hy : y.Paired) (is : List ι) : x.Settled (y.releases is) k := by
  induction is generalizing y with
  | nil => exact h
  | cons i is ih => exact ih (h.release hy i) (hy.release i)

lemma Settled.offer (hy : y.Paired) (hkey : b.1 ≠ k)
    (hid : x.names.lookup k ≠ some b.2.1) : x.Settled (y.offer accepts b) k := by
  rw [Index.offer]
  split
  · rw [Settled, hy.names_rebind, hy.stamps_rebind, if_neg hkey.symm, if_neg hkey.symm]
    rcases h with ⟨hname, hstamp⟩ | ⟨hnone, hgone⟩
    · rw [hname, if_neg hid, if_neg hid]
      exact .inl ⟨rfl, hstamp⟩
    · right
      have hne : y.names.lookup k ≠ some b.2.1 := by
        rw [hnone]
        intro heq
        cases heq
      rw [if_neg hne]
      apply And.intro hnone
      intro i hi
      have hib : i ≠ b.2.1 := fun heq => hid (heq ▸ hi)
      rw [hy.reverse_rebind, if_neg hib, hgone i hi]
      exact if_neg fun heq => by cases heq
  · exact h

lemma Settled.offers (hy : y.Paired) (bs : List (Offer κ ι σ))
    (hbs : ∀ b ∈ bs, b.1 ≠ k ∧ x.names.lookup k ≠ some b.2.1) :
    x.Settled (y.offers accepts bs) k := by
  induction bs generalizing y with
  | nil => exact h
  | cons b bs ih =>
    obtain ⟨hkey, hid⟩ := hbs b mem_cons_self
    exact ih (h.offer hy hkey hid) (hy.offer accepts b) fun c hc =>
      hbs c (mem_cons_of_mem b hc)

end

end

end Index

end Pairing
