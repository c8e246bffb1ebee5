import Kiseki.Block.FileDevice
import Mathlib.Algebra.Order.BigOperators.Group.List
import Mathlib.Algebra.Order.Group.Nat

namespace Kiseki.Block

open List Option Nat DeviceBackend LawfulBackend FileBackedDevice Extent Finset

/-- Members behind one address space: member `i` has the offsets from `bases[i]` on. -/
structure DevicePool (D : Type) where
  members : List D
  bases : List Nat
  tiers : List StorageTier
  totalBytes : Nat

def satAdd (a b : Nat) : Nat := min (a + b) u64Max

def lastAtMost (offset : Nat) : List Nat → Nat → Nat → Nat
  | [], _, idx => idx
  | base :: rest, i, idx => if base ≤ offset then lastAtMost offset rest (i + 1) i else idx

namespace DevicePool
variable {D : Type} [DeviceBackend D]

def layout (acc : Nat) : List D → List Nat × Nat
  | [] => ([], acc)
  | m :: ms =>
    let (bases, total) := layout (satAdd acc (DeviceBackend.capacity m).2) ms
    (acc :: bases, total)

def new (members : List D) : Except BlockError (DevicePool D) :=
  if members.isEmpty then .error .notInitialized
  else .ok {
    members := members
    bases := (layout 0 members).1
    tiers := members.map DeviceBackend.tier
    totalBytes := (layout 0 members).2 }

section
variable (p : DevicePool D)

def memberFree (i : Nat) : Nat :=
  match p.members[i]? with
  | some m => (DeviceBackend.capacity m).2 - (DeviceBackend.capacity m).1
  | none => 0

def memberTier (i : Nat) : StorageTier := p.tiers[i]?.getD .cold

def place (i : Nat) (e : Extent) : Extent :=
  ⟨p.bases[i]?.getD 0 + e.offset, e.length⟩

def setMember (i : Nat) (m : D) : DevicePool D :=
  { p with members := p.members.set i m }

def tryAllocOrdered (p : DevicePool D) (size : Nat) (lastErr : AllocError) :
    List Nat → Except AllocError (Extent × DevicePool D)
  | [] => .error lastErr
  | i :: order =>
    match p.members[i]? with
    | none => p.tryAllocOrdered size lastErr order
    | some m =>
      match DeviceBackend.alloc m size with
      | .ok (e, m') => .ok (p.place i e, p.setMember i m')
      | .error err => p.tryAllocOrdered size err order

/-- The fastest tier first, in it the member with most free space. -/
def fastestFirst (i : Nat) : ℕ ×ₗ ℕᵒᵈ :=
  toLex ((p.memberTier i).rank, OrderDual.toDual (p.memberFree i))

def wantedFirst (want : StorageTier) (i : Nat) : ℕ ×ₗ ℕ ×ₗ ℕᵒᵈ :=
  toLex (if p.memberTier i = want then 0 else 1, p.fastestFirst i)

def alloc (size : Nat) : Except AllocError (Extent × DevicePool D) :=
  p.tryAllocOrdered size (.deviceFull size 0) ((List.range p.members.length).mergeSort
    fun i j => decide (p.fastestFirst i ≤ p.fastestFirst j))

def allocInTier (size : Nat) :
    Option StorageTier → Except AllocError (Extent × DevicePool D)
  | none => p.alloc size
  | some want =>
    p.tryAllocOrdered size (.deviceFull size 0) ((List.range p.members.length).mergeSort
      fun i j => decide (p.wantedFirst want i ≤ p.wantedFirst want j))

def route (globalOffset : Nat) : Nat × Nat :=
  let idx := lastAtMost globalOffset p.bases 0 0
  (idx, globalOffset - p.bases[idx]?.getD 0)

def write (extent : Extent) (data : Bytes) : Except BlockError (DevicePool D) :=
  let (i, offset) := p.route extent.offset
  match p.members[i]? with
  | none => .error .notInitialized
  | some m => (DeviceBackend.write m ⟨offset, extent.length⟩ data).map (p.setMember i)

def read (extent : Extent) : Except BlockError Bytes :=
  let (i, offset) := p.route extent.offset
  match p.members[i]? with
  | none => .error .notInitialized
  | some m => DeviceBackend.read m ⟨offset, extent.length⟩

def free (extent : Extent) : Except AllocError (DevicePool D) :=
  let (i, offset) := p.route extent.offset
  match p.members[i]? with
  | none => .error (.inconsistency "no member")
  | some m => (DeviceBackend.free m ⟨offset, extent.length⟩).map (p.setMember i)

end

def AllocatedBy (p : DevicePool D) (size : Nat) (g : Extent) (p' : DevicePool D) (i : Nat)
    (e : Extent) : Prop :=
  ∃ m m', p.members[i]? = some m ∧ DeviceBackend.alloc m size = .ok (e, m') ∧
    p' = p.setMember i m' ∧ g = p.place i e

/-- A live extent is known by its member and its local extent there. -/
inductive Step : DevicePool D × Finset (Nat × Extent) → DevicePool D × Finset (Nat × Extent) → Prop
  | alloc (size : Nat) (hok : p.alloc size = .ok (g, p')) (hby : p.AllocatedBy size g p' i e) :
    Step (p, live) (p', insert (i, e) live)
  | allocInTier (size : Nat) (hint : Option StorageTier)
    (hok : p.allocInTier size hint = .ok (g, p')) (hby : p.AllocatedBy size g p' i e) :
    Step (p, live) (p', insert (i, e) live)
  | free (hx : (i, e) ∈ live) (hok : p.free (p.place i e) = .ok p') :
    Step (p, live) (p', live.erase (i, e))
  | write (hx : (i, e) ∈ live) (hok : p.write (p.place i e) data = .ok p') :
    Step (p, live) (p', live)

def capacities (p : DevicePool D) : List Nat := p.members.map fun m => (DeviceBackend.capacity m).2

structure Laid (p : DevicePool D) : Prop where
  length : p.bases.length = p.members.length
  bases : ∀ i, i < p.members.length → p.bases[i]? = some (p.capacities.take i).sum
  total : p.totalBytes = p.capacities.sum

def locals (live : Finset (Nat × Extent)) (i : Nat) : Finset Extent :=
  (live.filter fun x => x.1 = i).image Prod.snd

variable [LawfulBackend D]

structure Out (p : DevicePool D) (live : Finset (Nat × Extent)) : Prop where
  laid : p.Laid
  index : ∀ x ∈ live, x.1 < p.members.length
  holds : ∀ i m, p.members[i]? = some m → LawfulBackend.Holds m (locals live i)

section
variable {p p' : DevicePool D} {live : Finset (Nat × Extent)} {i j k n size : Nat} {e g : Extent}
  {m m' : D}

omit [LawfulBackend D] in
lemma layout_eq (acc : Nat) (ms : List D)
    (h : acc + (ms.map fun m => (DeviceBackend.capacity m).2).sum ≤ u64Max) :
    (layout acc ms).1.length = ms.length ∧
      (∀ i, i < ms.length → (layout acc ms).1[i]? =
        some (acc + ((ms.map fun m => (DeviceBackend.capacity m).2).take i).sum)) ∧
      (layout acc ms).2 = acc + (ms.map fun m => (DeviceBackend.capacity m).2).sum := by
  induction ms generalizing acc with
  | nil => exact ⟨rfl, fun i hi => absurd hi (not_lt_zero i), rfl⟩
  | cons m ms ih =>
    rw [List.map_cons, List.sum_cons] at h
    have hsat : satAdd acc (capacity m).2 = acc + (capacity m).2 := by
      rw [satAdd, min_eq_left (by omega)]
    obtain ⟨hlen, hbases, htotal⟩ := ih (acc + (capacity m).2) (by omega)
    simp only [layout, hsat, length_cons, List.map_cons, List.sum_cons]
    refine ⟨by rw [hlen], ?_, by rw [htotal, add_assoc]⟩
    intro i hi
    cases i with
    | zero => rfl
    | succ i =>
      rw [getElem?_cons_succ, hbases i (by omega), take_succ_cons, List.sum_cons, add_assoc]

omit [LawfulBackend D] in
lemma laid_new {members : List D}
    (hfits : (members.map fun m => (DeviceBackend.capacity m).2).sum ≤ u64Max)
    (hok : new members = .ok p) : p.Laid ∧ p.members = members := by
  rw [new] at hok
  split at hok
  · cases hok
  · obtain rfl := Except.ok.inj hok
    obtain ⟨hlen, hbases, htotal⟩ := layout_eq 0 members (by omega)
    simp only [zero_add] at hbases htotal
    exact ⟨⟨hlen, hbases, htotal⟩, rfl⟩

lemma lastAtMost_eq {offset : Nat} {bases : List Nat} {idx : Nat}
    (hle : ∀ j, j ≤ k → ∃ b, bases[j]? = some b ∧ b ≤ offset)
    (hgt : ∀ b, bases[k + 1]? = some b → offset < b) :
    lastAtMost offset bases n idx = n + k := by
  induction bases generalizing n k idx with
  | nil =>
    obtain ⟨b, hb, _⟩ := hle 0 (zero_le k)
    cases hb
  | cons base rest ih =>
    obtain ⟨b, hb, hbase⟩ := hle 0 (zero_le k)
    obtain rfl := some.inj hb
    rw [lastAtMost, if_pos hbase]
    cases k with
    | zero =>
      cases rest with
      | nil => rfl
      | cons b rest =>
        rw [lastAtMost, if_neg (Nat.not_le_of_lt (hgt b rfl))]
        rfl
    | succ k =>
      rw [ih (fun j hj => hle (j + 1) (by omega)) fun b hb => hgt b hb]
      omega

lemma sum_take_le {caps : List Nat} (h : i ≤ j) : (caps.take i).sum ≤ (caps.take j).sum :=
  (take_sublist_take_left h).sum_le_sum fun _ _ => zero_le _

lemma sum_take_add {caps : List Nat} {c : Nat} (hi : caps[i]? = some c) (hij : i < j) :
    (caps.take i).sum + c ≤ (caps.take j).sum := by
  refine le_trans ?_ (sum_take_le (succ_le_of_lt hij))
  rw [take_add_one, hi, List.sum_append]
  exact le_rfl

omit [LawfulBackend D] in
lemma getElem?_capacities (hm : p.members[i]? = some m) :
    p.capacities[i]? = some (DeviceBackend.capacity m).2 := by
  rw [capacities, getElem?_map, hm]
  rfl

omit [LawfulBackend D] in
lemma Laid.base (h : p.Laid) (hm : p.members[i]? = some m) :
    p.bases[i]? = some (p.capacities.take i).sum :=
  h.bases i (List.getElem?_eq_some_iff.1 hm).1

omit [LawfulBackend D] in
lemma Laid.route (h : p.Laid) (hm : p.members[i]? = some m)
    (he : e.offset < (DeviceBackend.capacity m).2) :
    p.route (p.place i e).offset = (i, e.offset) := by
  have hbase := h.base hm
  have hoffset : (p.place i e).offset = (p.capacities.take i).sum + e.offset := by
    rw [place, hbase]
    rfl
  have hidx : lastAtMost (p.place i e).offset p.bases 0 0 = i := by
    rw [hoffset, lastAtMost_eq (k := i), zero_add]
    · intro j hj
      have hlt := (List.getElem?_eq_some_iff.1 hm).1
      refine ⟨_, h.bases j (by omega), ?_⟩
      exact le_trans (sum_take_le hj) (le_add_right _ _)
    · intro b hb
      have hlt := (List.getElem?_eq_some_iff.1 hb).1
      rw [h.length] at hlt
      rw [h.bases (i + 1) hlt] at hb
      obtain rfl := some.inj hb
      have := sum_take_add (getElem?_capacities hm) (Nat.lt_add_one i)
      omega
  rw [DevicePool.route, hidx, hbase, hoffset]
  dsimp only [getD_some]
  rw [Nat.add_sub_cancel_left]

omit [LawfulBackend D] in
lemma Laid.setMember (h : p.Laid) (hm : p.members[i]? = some m)
    (htotal : (DeviceBackend.capacity m').2 = (DeviceBackend.capacity m).2) :
    (p.setMember i m').Laid := by
  have hcaps : (p.setMember i m').capacities = p.capacities := by
    change ((p.members.set i m').map fun m => (capacity m).2) = p.capacities
    obtain ⟨hlt, rfl⟩ := List.getElem?_eq_some_iff.1 hm
    rw [map_set, htotal, capacities, ← getElem_map (fun m : D =>
      (capacity m).2) (h := by rw [length_map]; exact hlt), set_getElem_self]
  have hlen : (p.setMember i m').members.length = p.members.length := length_set
  constructor
  · rw [hlen]
    exact h.length
  · intro j hj
    rw [hlen] at hj
    rw [hcaps]
    exact h.bases j hj
  · rw [hcaps]
    exact h.total

lemma mem_locals : e ∈ locals live i ↔ (i, e) ∈ live := by
  rw [locals, mem_image]
  constructor
  · intro h
    obtain ⟨x, hx, rfl⟩ := h
    obtain ⟨hmem, rfl⟩ := mem_filter.1 hx
    exact hmem
  · intro h
    exact ⟨(i, e), mem_filter.2 ⟨h, rfl⟩, rfl⟩

lemma locals_insert_self : locals (insert (i, e) live) i = insert e (locals live i) := by
  ext e'
  rw [mem_locals, mem_insert, mem_insert, mem_locals, Prod.mk.injEq]
  exact or_congr_left ⟨fun h => h.2, fun h => ⟨rfl, h⟩⟩

lemma locals_insert_ne (h : j ≠ i) : locals (insert (i, e) live) j = locals live j := by
  ext e'
  rw [mem_locals, mem_insert, mem_locals]
  exact ⟨fun hor => hor.resolve_left fun heq => h (congrArg Prod.fst heq), .inr⟩

lemma locals_erase_self : locals (live.erase (i, e)) i = (locals live i).erase e := by
  ext e'
  rw [mem_locals, mem_erase, mem_erase, mem_locals]
  exact and_congr_left fun _ => not_congr ⟨congrArg Prod.snd, congrArg (Prod.mk i)⟩

lemma locals_erase_ne (h : j ≠ i) : locals (live.erase (i, e)) j = locals live j := by
  ext e'
  rw [mem_locals, mem_erase, mem_locals]
  exact ⟨fun hand => hand.2, fun hin => ⟨fun heq => h (congrArg Prod.fst heq), hin⟩⟩

lemma Out.member (h : p.Out live) (hx : (i, e) ∈ live) :
    ∃ m, p.members[i]? = some m ∧ LawfulBackend.Holds m (locals live i) ∧ e ∈ locals live i := by
  have hlt := h.index _ hx
  have hm := getElem?_eq_getElem hlt
  exact ⟨_, hm, h.holds i _ hm, mem_locals.2 hx⟩

lemma Out.route (h : p.Out live) (hx : (i, e) ∈ live) :
    p.route (p.place i e).offset = (i, e.offset) := by
  obtain ⟨m, hm, hholds, he⟩ := h.member hx
  obtain ⟨hpos, hstop⟩ := inside hholds he
  rw [stop] at hstop
  exact h.laid.route hm (by omega)

lemma Out.apart (h : p.Out live) {x y : Nat × Extent} (hx : x ∈ live) (hy : y ∈ live)
    (hne : x ≠ y) : (p.place x.1 x.2).Disjoint (p.place y.1 y.2) := by
  have hacross : ∀ x y : Nat × Extent, x ∈ live → y ∈ live → x.1 < y.1 →
      (p.place x.1 x.2).stop ≤ (p.place y.1 y.2).offset := by
    intro x y hx hy hlt
    obtain ⟨m, hm, hholds, he⟩ := h.member hx
    obtain ⟨m', hm', _, _⟩ := h.member hy
    have hstop := (inside hholds he).2
    have hstep := sum_take_add (getElem?_capacities hm) hlt
    rw [stop] at hstop
    rw [place, place, h.laid.base hm, h.laid.base hm', stop]
    dsimp only [getD_some]
    omega
  rcases lt_trichotomy x.1 y.1 with hlt | heq | hgt
  · exact .inl (hacross x y hx hy hlt)
  · obtain ⟨i, e⟩ := x
    obtain ⟨j, e'⟩ := y
    obtain rfl : i = j := heq
    obtain ⟨m, hm, hholds, he⟩ := h.member hx
    have hapart := LawfulBackend.apart hholds he (mem_locals.2 hy)
      fun hsame => hne (congrArg (Prod.mk i) hsame)
    rw [Extent.Disjoint, stop, stop] at hapart ⊢
    dsimp only [place]
    omega
  · exact .inr (hacross y x hy hx hgt)

lemma Out.setMember (h : p.Out live) {live' : Finset (Nat × Extent)} (hm : p.members[i]? = some m)
    (htotal : (DeviceBackend.capacity m').2 = (DeviceBackend.capacity m).2)
    (hindex : ∀ x ∈ live', x.1 < p.members.length)
    (hself : LawfulBackend.Holds m' (locals live' i))
    (hothers : ∀ j, j ≠ i → locals live' j = locals live j) : (p.setMember i m').Out live' := by
  have hlt := (List.getElem?_eq_some_iff.1 hm).1
  constructor
  · exact h.laid.setMember hm htotal
  · intro x hx
    change x.1 < (p.members.set i m').length
    rw [length_set]
    exact hindex x hx
  · intro j m'' hm''
    change (p.members.set i m')[j]? = some m'' at hm''
    by_cases hj : j = i
    · subst hj
      rw [getElem?_set_self hlt] at hm''
      obtain rfl := some.inj hm''
      exact hself
    · rw [getElem?_set_ne (Ne.symm hj)] at hm''
      rw [hothers j hj]
      exact h.holds j m'' hm''

lemma Out.allocated (h : p.Out live) (hby : p.AllocatedBy size g p' i e) :
    p'.Out (insert (i, e) live) := by
  obtain ⟨m, m', hm, hok, rfl, _⟩ := hby
  obtain ⟨hholds, _, _, hagree⟩ := LawfulBackend.alloc (h.holds i m hm) hok
  apply h.setMember hm hagree.total
  · intro x hx
    rcases mem_insert.1 hx with rfl | hx
    · exact (List.getElem?_eq_some_iff.1 hm).1
    · exact h.index x hx
  · rw [locals_insert_self]
    exact hholds
  · intro j hj
    exact locals_insert_ne hj

omit [LawfulBackend D] in
lemma tryAllocOrdered_ok {err : AllocError} {order : List Nat}
    (hok : p.tryAllocOrdered size err order = .ok (g, p')) :
    ∃ i e, p.AllocatedBy size g p' i e := by
  induction order generalizing err with
  | nil => cases hok
  | cons i order ih =>
    rw [tryAllocOrdered] at hok
    split at hok
    · exact ih hok
    · rename_i m hm
      split at hok
      · rename_i e m' halloc
        cases hok
        exact ⟨i, e, m, m', hm, halloc, rfl, rfl⟩
      · exact ih hok

omit [LawfulBackend D] in
lemma allocInTier_ok {hint : Option StorageTier} (hok : p.allocInTier size hint = .ok (g, p')) :
    ∃ i e, p.AllocatedBy size g p' i e := by
  cases hint with
  | none => exact tryAllocOrdered_ok hok
  | some want => exact tryAllocOrdered_ok hok

lemma Out.calls (h : p.Out live) (hx : (i, e) ∈ live) : ∃ m, p.members[i]? = some m ∧
    (LawfulBackend.Holds m (locals live i) ∧ e ∈ locals live i) ∧
    (∀ data, p.write (p.place i e) data = (DeviceBackend.write m e data).map (p.setMember i)) ∧
    p.read (p.place i e) = DeviceBackend.read m e ∧
    p.free (p.place i e) = (DeviceBackend.free m e).map (p.setMember i) := by
  obtain ⟨m, hm, hown⟩ := h.member hx
  have hroute := h.route hx
  refine ⟨m, hm, hown, ?_, ?_, ?_⟩
  · intro data
    rw [DevicePool.write, hroute]
    dsimp only
    rw [hm]
    rfl
  · rw [DevicePool.read, hroute]
    dsimp only
    rw [hm]
    rfl
  · rw [DevicePool.free, hroute]
    dsimp only
    rw [hm]
    rfl

lemma Out.freed (h : p.Out live) (hx : (i, e) ∈ live) :
    ∃ m m', p.members[i]? = some m ∧ p.free (p.place i e) = .ok (p.setMember i m') ∧
      Agree m m' (locals (live.erase (i, e)) i) ∧ (p.setMember i m').Out (live.erase (i, e)) := by
  obtain ⟨m, hm, ⟨hholds, he⟩, _, _, hfree⟩ := h.calls hx
  obtain ⟨m', hok, hholds', hagree⟩ := LawfulBackend.free hholds he
  refine ⟨m, m', hm, by rw [hfree, hok]; rfl, locals_erase_self ▸ hagree, ?_⟩
  apply h.setMember hm hagree.total
  · intro x hx'
    exact h.index x (mem_of_mem_erase hx')
  · rw [locals_erase_self]
    exact hholds'
  · intro j hj
    exact locals_erase_ne hj

lemma Out.fitting (h : p.Out live) (hx : (i, e) ∈ live) {data : Bytes} (hfits : e.Fits data) :
    ∃ m m', p.members[i]? = some m ∧ p.write (p.place i e) data = .ok (p.setMember i m') ∧
      DeviceBackend.read m' e = .ok data ∧ Agree m m' (locals (live.erase (i, e)) i) ∧
      (p.setMember i m').Out live := by
  obtain ⟨m, hm, ⟨hholds, he⟩, hwrite, _, _⟩ := h.calls hx
  obtain ⟨m', hok, hholds', hread, hagree⟩ := LawfulBackend.write hholds he hfits
  refine ⟨m, m', hm, by rw [hwrite, hok]; rfl, hread, locals_erase_self ▸ hagree, ?_⟩
  exact h.setMember hm hagree.total h.index hholds' fun _ _ => rfl

lemma Out.rejected (h : p.Out live) (hx : (i, e) ∈ live) {data : Bytes}
    (hfits : ¬e.Fits data) : ∃ err, p.write (p.place i e) data = .error err := by
  obtain ⟨m, hm, ⟨hholds, he⟩, hwrite, _, _⟩ := h.calls hx
  obtain ⟨err, herr⟩ := rejects hholds he hfits
  exact ⟨err, by rw [hwrite, herr]; rfl⟩

lemma Out.written (h : p.Out live) (hx : (i, e) ∈ live) {data : Bytes}
    (hok : p.write (p.place i e) data = .ok p') : p'.Out live := by
  by_cases hfits : e.Fits data
  · obtain ⟨_, m', _, hok', _, _, hout⟩ := h.fitting hx hfits
    obtain rfl := Except.ok.inj (hok.symm.trans hok')
    exact hout
  · obtain ⟨err, herr⟩ := h.rejected hx hfits
    cases hok.symm.trans herr

end

section
variable {st st' : DevicePool D × Finset (Nat × Extent)}

lemma Out.step (h : st.1.Out st.2) (hstep : Step st st') : st'.1.Out st'.2 := by
  cases hstep with
  | alloc size hok hby => exact Out.allocated h hby
  | allocInTier size hint hok hby => exact Out.allocated h hby
  | free hx hok =>
    obtain ⟨_, _, _, hok', _, hout⟩ := Out.freed h hx
    obtain rfl := Except.ok.inj (hok.symm.trans hok')
    exact hout
  | write hx hok => exact Out.written h hx hok

lemma Out.run (h : st.1.Out st.2) (hrun : Relation.ReflTransGen Step st st') :
    st'.1.Out st'.2 := by
  induction hrun with
  | refl => exact h
  | tail _ hstep ih => exact ih.step hstep

end

/-- Live extents are apart, and every call goes to the member that allocated. -/
theorem pool_routes {members : List D} {p₀ p : DevicePool D} {live₀ live : Finset (Nat × Extent)}
    (hfits : (members.map fun m => (DeviceBackend.capacity m).2).sum ≤ u64Max)
    (hnew : new members = .ok p₀) (hindex : ∀ x ∈ live₀, x.1 < members.length)
    (hholds : ∀ i m, members[i]? = some m → LawfulBackend.Holds m (locals live₀ i))
    (hrun : Relation.ReflTransGen Step (p₀, live₀) (p, live)) :
    (∀ x ∈ live, ∀ y ∈ live, x ≠ y → (p.place x.1 x.2).Disjoint (p.place y.1 y.2)) ∧
      (∀ i e, (i, e) ∈ live → ∃ m, p.members[i]? = some m ∧
        p.route (p.place i e).offset = (i, e.offset) ∧
        (∀ data, p.write (p.place i e) data =
          (DeviceBackend.write m e data).map (p.setMember i)) ∧
        p.read (p.place i e) = DeviceBackend.read m e ∧
        p.free (p.place i e) = (DeviceBackend.free m e).map (p.setMember i)) ∧
      ∀ size hint g p', p.alloc size = .ok (g, p') ∨ p.allocInTier size hint = .ok (g, p') →
        ∃ i e, p.AllocatedBy size g p' i e := by
  obtain ⟨hlaid, rfl⟩ := laid_new hfits hnew
  have hstart : Out (p₀, live₀).1 (p₀, live₀).2 := ⟨hlaid, hindex, hholds⟩
  have h : p.Out live := hstart.run hrun
  apply And.intro fun x hx y hy hne => h.apart hx hy hne
  apply And.intro
  · intro i e hx
    obtain ⟨m, hm, _, hcalls⟩ := h.calls hx
    exact ⟨m, hm, h.route hx, hcalls⟩
  · intro size hint g p' hor
    rcases hor with hok | hok
    · exact tryAllocOrdered_ok hok
    · exact allocInTier_ok hok

/-- A member without capacity before one with an extent out. -/
theorem pool_routes_emptyMember : ∃ d p, FileBackedDevice.tiny.alloc 5 = .ok (⟨0, 16⟩, d) ∧
    new [FileBackedDevice.init (.replicate 16 0) 0 16 (by decide), d] = .ok p ∧
    p.route (p.place 1 ⟨0, 16⟩).offset = (1, 0) := by
  obtain ⟨d, halloc, hd⟩ := tiny_alloc
  have htotal : d.allocator.totalBytes = 160 :=
    (FileBackedDevice.Holds.alloc (holds_init _) halloc).2.2.2.2.2
  have hempty : (init (.replicate 16 0) 0 16 (by decide) :
      FileBackedDevice fun _ => 0).Holds ∅ := holds_init _
  let live : Finset (Nat × Extent) := {(1, ⟨0, 16⟩)}
  let members := [init (.replicate 16 0) 0 16 (by decide), d]
  have hlocals : locals live 0 = ∅ ∧ locals live 1 = {⟨0, 16⟩} := by decide
  have hfits : (members.map fun m => (capacity m).2).sum ≤ u64Max := by
    change 0 + (d.allocator.totalBytes + 0) ≤ u64Max
    rw [htotal]
    decide
  have hindex : ∀ x ∈ live, x.1 < members.length := by
    intro x hx
    rw [List.mem_singleton.1 hx]
    exact Nat.one_lt_two
  have hholds : ∀ i m, members[i]? = some m → LawfulBackend.Holds m (locals live i) := by
    intro i m hm
    rcases i with _ | _ | i
    · obtain rfl := some.inj hm
      rw [hlocals.1]
      exact hempty
    · obtain rfl := some.inj hm
      rw [hlocals.2]
      exact hd
    · cases hm
  have hroutes := pool_routes hfits rfl hindex hholds .refl
  obtain ⟨m, _, hroute, _⟩ := hroutes.2.1 1 ⟨0, 16⟩ (List.mem_singleton_self _)
  exact ⟨d, _, halloc, rfl, hroute⟩

end DevicePool

end Kiseki.Block
