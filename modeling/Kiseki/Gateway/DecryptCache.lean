import Kiseki.Common

namespace Kiseki.Gateway

open Finmap Function List Nat

def maxCacheBytes : Nat := 256 * 1024 * 1024

structure DecryptCacheEntry where
  plaintext : Bytes
  insertedAt : Nat
deriving DecidableEq

/-- Times are those of the monotonic clock, in nanoseconds. -/
structure DecryptCache where
  map : Finmap fun _ : ChunkId => DecryptCacheEntry := ∅
  queue : List ChunkId := []
  totalBytes : Nat := 0
  ttl : Nat

namespace DecryptCache

def evict (c : DecryptCache) (id : ChunkId) : DecryptCache :=
  match c.map.lookup id with
  | none => c
  | some entry =>
    { c with map := c.map.erase id, totalBytes := c.totalBytes - entry.plaintext.length }

def get (c : DecryptCache) (now : Nat) (id : ChunkId) : Option Bytes × DecryptCache :=
  match c.map.lookup id with
  | none => (none, c)
  | some entry =>
    if c.ttl ≠ 0 ∧ c.ttl < now - entry.insertedAt then (none, c.evict id)
    else (some entry.plaintext, c)

def sweep (c : DecryptCache) : List ChunkId → DecryptCache
  | [] => { c with queue := [] }
  | victim :: rest =>
    if maxCacheBytes < c.totalBytes then (c.evict victim).sweep rest
    else { c with queue := victim :: rest }

def insert (c : DecryptCache) (now : Nat) (id : ChunkId) (plaintext : Bytes) : DecryptCache :=
  if c.ttl = 0 ∨ id ∈ c.map then c
  else
    sweep { c with
      map := c.map.insert id ⟨plaintext, now⟩
      totalBytes := c.totalBytes + plaintext.length } (c.queue ++ [id])

def wipe (c : DecryptCache) : DecryptCache := { c with map := ∅, queue := [], totalBytes := 0 }

inductive Op
  | insert (now : Nat) (id : ChunkId) (plaintext : Bytes)
  | get (now : Nat) (id : ChunkId)
  | wipe

def apply (c : DecryptCache) : Op → DecryptCache
  | .insert now id plaintext => c.insert now id plaintext
  | .get now id => (c.get now id).2
  | .wipe => c.wipe

def Expires (c : DecryptCache) : Op → Prop
  | .get now id => ∃ e, c.map.lookup id = some e ∧ c.ttl ≠ 0 ∧ c.ttl < now - e.insertedAt
  | _ => False

def bytes (map : Finmap fun _ : ChunkId => DecryptCacheEntry) : Nat :=
  (map.entries.map fun e => e.2.plaintext.length).sum

/-- What holds whatever has expired: the queue may have more ids than the map. -/
structure Counted (c : DecryptCache) : Prop where
  total : c.totalBytes = bytes c.map
  cap : c.totalBytes ≤ maxCacheBytes
  queued : ∀ id ∈ c.map, id ∈ c.queue

def QueueExact (c : DecryptCache) : Prop := c.queue.Nodup ∧ ∀ id, id ∈ c.queue ↔ id ∈ c.map

variable {c : DecryptCache} {id : ChunkId}

lemma bytes_insert {map : Finmap fun _ : ChunkId => DecryptCacheEntry} (e : DecryptCacheEntry)
    (h : id ∉ map) : bytes (map.insert id e) = e.plaintext.length + bytes map := by
  induction map using Finmap.induction_on with
  | _ s =>
    simp only [bytes, insert_toFinmap, AList.toFinmap_entries,
      AList.entries_insert_of_notMem (mem_toFinmap.not.1 h), Multiset.map_coe, Multiset.sum_coe,
      map_cons, sum_cons]

lemma evict_spec (h : c.totalBytes = bytes c.map) (victim : ChunkId) :
    (c.evict victim).totalBytes = bytes (c.evict victim).map ∧
      (c.evict victim).totalBytes ≤ c.totalBytes ∧ (c.evict victim).queue = c.queue ∧
      ∀ id, id ∈ (c.evict victim).map ↔ id ≠ victim ∧ id ∈ c.map := by
  rw [evict]
  split
  · next hnone =>
    refine ⟨h, le_rfl, rfl, fun id => ⟨fun hid => ⟨?_, hid⟩, And.right⟩⟩
    rintro rfl
    exact lookup_eq_none.1 hnone hid
  · next e he =>
    have hback : c.map = (c.map.erase victim).insert victim e := by
      apply ext_lookup
      intro id
      rw [Maps.lookup_insert, Maps.lookup_erase]
      grind
    have hsum := bytes_insert e (notMem_erase_self (a := victim) (s := c.map))
    rw [← hback, ← h] at hsum
    exact ⟨hsum ▸ Nat.add_sub_cancel_left .., Nat.sub_le .., rfl, fun id => mem_erase⟩

/-- The loop takes ids off the front until the rest fits. -/
lemma sweep_spec (q : List ChunkId) (htotal : c.totalBytes = bytes c.map)
    (hq : ∀ id ∈ c.map, id ∈ q) :
    (c.sweep q).Counted ∧ ∃ victims, q = victims ++ (c.sweep q).queue ∧
      ∀ id, id ∈ (c.sweep q).map ↔ id ∈ c.map ∧ id ∉ victims := by
  induction q generalizing c with
  | nil =>
    have hempty : c.map = ∅ := by
      apply ext_lookup
      intro id
      rw [lookup_empty, lookup_eq_none]
      exact fun hid => not_mem_nil (hq id hid)
    have hzero : c.totalBytes = 0 := by rw [htotal, hempty]; rfl
    exact ⟨⟨htotal, hzero ▸ zero_le _, hq⟩, [], rfl, by simp [sweep]⟩
  | cons victim rest ih =>
    rw [sweep]
    split
    · obtain ⟨hevicted, _, _, hmem⟩ := evict_spec htotal victim
      have hrest : ∀ id ∈ (c.evict victim).map, id ∈ rest := by
        intro id hid
        obtain ⟨hne, hid⟩ := (hmem id).1 hid
        exact (mem_cons.1 (hq id hid)).resolve_left hne
      obtain ⟨hcounted, victims, happend, hmap⟩ := ih hevicted hrest
      refine ⟨hcounted, victim :: victims, congrArg (victim :: ·) happend, fun id => ?_⟩
      rw [hmap, hmem, mem_cons, not_or]
      tauto
    · next hle => exact ⟨⟨htotal, not_lt.1 hle, hq⟩, [], rfl, by simp⟩

lemma Counted.insert (h : c.Counted) (now : Nat) (plaintext : Bytes)
    (hnew : ¬(c.ttl = 0 ∨ id ∈ c.map)) :
    (c.insert now id plaintext).Counted ∧
      ∃ victims, c.queue ++ [id] = victims ++ (c.insert now id plaintext).queue ∧
        ∀ x, x ∈ (c.insert now id plaintext).map ↔ (x = id ∨ x ∈ c.map) ∧ x ∉ victims := by
  rw [DecryptCache.insert, if_neg hnew]
  refine (sweep_spec _ ?_ ?_).imp_right fun ⟨victims, happend, hmem⟩ =>
    ⟨victims, happend, fun x => (hmem x).trans (and_congr_left' mem_insert)⟩
  · rw [bytes_insert ⟨plaintext, now⟩ (not_or.1 hnew).2, ← h.total, add_comm]
  · intro x hx
    rcases mem_insert.1 hx with rfl | hx
    · exact mem_append_right _ mem_cons_self
    · exact mem_append_left _ (h.queued x hx)

lemma get_expired (h : c.Expires (.get now id)) : (c.get now id).2 = c.evict id := by
  obtain ⟨e, he, hlate⟩ := h
  simp only [DecryptCache.get, he, if_pos hlate]

lemma get_unexpired (h : ¬c.Expires (.get now id)) : (c.get now id).2 = c := by
  rw [DecryptCache.get]
  split
  · rfl
  · next e he => rw [if_neg fun hlate => h ⟨e, he, hlate⟩]

lemma Counted.apply (h : c.Counted) (op : Op) : (c.apply op).Counted := by
  cases op with
  | insert now id plaintext =>
    by_cases hskip : c.ttl = 0 ∨ id ∈ c.map
    · rwa [DecryptCache.apply, DecryptCache.insert, if_pos hskip]
    · exact (h.insert now plaintext hskip).1
  | get now id =>
    rw [DecryptCache.apply]
    by_cases hexp : c.Expires (.get now id)
    · obtain ⟨htotal, hle, hqueue, hmem⟩ := evict_spec h.total id
      rw [get_expired hexp]
      exact ⟨htotal, hle.trans h.cap, fun x hx => hqueue ▸ h.queued x ((hmem x).1 hx).2⟩
    · rwa [get_unexpired hexp]
  | wipe => exact ⟨rfl, zero_le _, fun _ hid => absurd hid notMem_empty⟩

lemma not_queueExact_of_expires {op : Op} (h : c.Counted) (hexp : c.Expires op) :
    ¬(c.apply op).QueueExact := by
  cases op with
  | insert => exact hexp.elim
  | wipe => exact hexp.elim
  | get now id =>
    obtain ⟨_, _, hqueue, hmem⟩ := evict_spec h.total id
    rw [DecryptCache.apply, get_expired hexp]
    intro ⟨_, hexact⟩
    obtain ⟨e, he, _⟩ := hexp
    have hid : id ∈ c.map := mem_iff.2 ⟨e, he⟩
    exact ((hmem id).1 ((hexact id).1 (hqueue ▸ h.queued id hid))).1 rfl

end DecryptCache

structure Aged where
  cache : DecryptCache
  born : ChunkId → Nat := fun _ => 0
  calls : Nat := 0

namespace Aged

def step (a : Aged) (op : DecryptCache.Op) : Aged where
  cache := a.cache.apply op
  born := match op with
    | .insert _ id _ =>
      if a.cache.ttl = 0 ∨ id ∈ a.cache.map then a.born else update a.born id a.calls
    | _ => a.born
  calls := a.calls + 1

def run (ttl : Nat) (ops : List DecryptCache.Op) : Aged :=
  ops.foldl step { cache := { ttl := ttl } }

def FirstOut (a : Aged) : DecryptCache.Op → Prop
  | .insert now id plaintext =>
    ∀ v w, v ∈ a.cache.map ∨ v = id ∧ a.cache.ttl ≠ 0 →
      v ∉ (a.step (.insert now id plaintext)).cache.map →
      w ∈ (a.step (.insert now id plaintext)).cache.map →
      (a.step (.insert now id plaintext)).born v < (a.step (.insert now id plaintext)).born w
  | _ => True

structure Ordered (a : Aged) : Prop where
  mem_queue : ∀ id, id ∈ a.cache.queue ↔ id ∈ a.cache.map
  sorted : a.cache.queue.Pairwise fun x y => a.born x < a.born y
  born_lt : ∀ id ∈ a.cache.queue, a.born id < a.calls

variable {a : Aged}

lemma Ordered.queueExact (h : a.Ordered) : a.cache.QueueExact :=
  ⟨h.sorted.imp fun hlt heq => absurd (heq ▸ hlt) (lt_irrefl _), h.mem_queue⟩

lemma Ordered.later (h : a.Ordered) : ({ a with calls := a.calls + 1 } : Aged).Ordered :=
  ⟨h.mem_queue, h.sorted, fun x hx => lt_succ_of_lt (h.born_lt x hx)⟩

lemma Ordered.insert (h : a.Ordered) (hc : a.cache.Counted) (now : Nat) (id : ChunkId)
    (plaintext : Bytes) :
    (a.step (.insert now id plaintext)).Ordered ∧ a.FirstOut (.insert now id plaintext) := by
  by_cases hskip : a.cache.ttl = 0 ∨ id ∈ a.cache.map
  · have hstep : a.step (.insert now id plaintext) = { a with calls := a.calls + 1 } := by
      simp only [step, DecryptCache.apply, DecryptCache.insert, if_pos hskip]
    refine ⟨hstep ▸ h.later, fun v w hv hgone => absurd ?_ hgone⟩
    rw [hstep]
    grind
  · obtain ⟨_, victims, happend, hmem⟩ := hc.insert now plaintext hskip
    have hid : id ∉ a.cache.queue := fun hid => hskip (.inr ((h.mem_queue id).1 hid))
    have hborn : (a.step (.insert now id plaintext)).born = update a.born id a.calls :=
      if_neg hskip
    have hold : ∀ x ∈ a.cache.queue, (update a.born id a.calls) x = a.born x :=
      fun x hx => update_of_ne (ne_of_mem_of_not_mem hx hid) ..
    -- the new id is the youngest, at the back
    have hsorted : (victims ++ (a.cache.insert now id plaintext).queue).Pairwise fun x y =>
        (update a.born id a.calls) x < (update a.born id a.calls) y := by
      rw [← happend, pairwise_append]
      refine ⟨h.sorted.imp_of_mem fun hx hy hlt => ?_, pairwise_singleton .., ?_⟩
      · rwa [hold _ hx, hold _ hy]
      · intro x hx y hy
        rw [mem_singleton.1 hy, hold x hx, update_self]
        exact h.born_lt x hx
    obtain ⟨_, hsuffix, hacross⟩ := pairwise_append.1 hsorted
    have hall : ∀ x, x ∈ victims ∨ x ∈ (a.cache.insert now id plaintext).queue ↔
        x = id ∨ x ∈ a.cache.map := by
      intro x
      rw [← List.mem_append, ← happend, List.mem_append, List.mem_singleton, h.mem_queue, or_comm]
    have hqueue : ∀ x, x ∈ (a.cache.insert now id plaintext).queue ↔
        x ∈ (a.cache.insert now id plaintext).map := by
      intro x
      rw [hmem, ← hall]
      have := fun hv hx => lt_irrefl _ (hacross x hv x hx)
      tauto
    refine ⟨⟨hqueue, hborn ▸ hsuffix, fun x hx => ?_⟩, fun v w hv hgone hw => ?_⟩
    · rw [hborn]
      rcases (hall x).1 (.inr hx) with rfl | hx
      · rw [update_self]
        exact lt_succ_self _
      · have hx := (h.mem_queue x).2 hx
        rw [hold x hx]
        exact lt_succ_of_lt (h.born_lt x hx)
    · rw [hborn]
      refine hacross v (((hall v).2 ?_).resolve_right fun hv => hgone ((hqueue v).1 hv)) w
        ((hqueue w).2 hw)
      tauto

lemma Ordered.step {op : DecryptCache.Op} (h : a.Ordered) (hc : a.cache.Counted)
    (hexp : ¬a.cache.Expires op) : (a.step op).Ordered ∧ a.FirstOut op := by
  cases op with
  | insert now id plaintext => exact h.insert hc now id plaintext
  | get now id =>
    simp only [Aged.step, DecryptCache.apply, DecryptCache.get_unexpired hexp]
    exact ⟨h.later, trivial⟩
  | wipe =>
    exact ⟨⟨fun _ => iff_of_false not_mem_nil notMem_empty, .nil,
      fun _ hx => absurd hx not_mem_nil⟩, trivial⟩

lemma counted_run (ttl : Nat) (ops : List DecryptCache.Op) : (run ttl ops).cache.Counted := by
  induction ops using reverseRecOn with
  | nil => exact ⟨rfl, zero_le _, fun _ hid => absurd hid notMem_empty⟩
  | append_singleton ops op ih =>
    rw [run, foldl_append]
    exact ih.apply op

lemma ordered_run (ttl : Nat) (ops : List DecryptCache.Op)
    (h : ∀ pre op, pre ++ [op] <+: ops → ¬(run ttl pre).cache.Expires op) :
    (run ttl ops).Ordered := by
  induction ops using reverseRecOn with
  | nil =>
    exact ⟨fun _ => iff_of_false not_mem_nil notMem_empty, .nil,
      fun _ hx => absurd hx not_mem_nil⟩
  | append_singleton ops op ih =>
    have hbefore := ih fun pre op hpre => h pre op (hpre.trans (prefix_append ..))
    rw [run, foldl_append]
    exact (hbefore.step (counted_run ttl ops) (h ops op prefix_rfl)).1

/-- The counter is exact, and the queue unless an expired entry is met. -/
theorem decrypt_cache_exact_iff (ttl : Nat) (ops : List DecryptCache.Op) :
    (run ttl ops).cache.totalBytes = DecryptCache.bytes (run ttl ops).cache.map ∧
      (run ttl ops).cache.totalBytes ≤ maxCacheBytes ∧
      ((∀ pre op, pre ++ [op] <+: ops →
          (run ttl (pre ++ [op])).cache.QueueExact ∧ (run ttl pre).FirstOut op) ↔
        ∀ pre op, pre ++ [op] <+: ops → ¬(run ttl pre).cache.Expires op) := by
  have hrun := counted_run ttl ops
  refine ⟨hrun.total, hrun.cap, fun h pre op hpre hexp => ?_, fun h pre op hpre => ?_⟩
  · have hexact := (h pre op hpre).1
    rw [run, foldl_append] at hexact
    exact DecryptCache.not_queueExact_of_expires (counted_run ttl pre) hexp hexact
  · have hordered := ordered_run ttl pre fun p o hp =>
      h p o ((hp.trans (prefix_append ..)).trans hpre)
    obtain ⟨hafter, hfirst⟩ := hordered.step (counted_run ttl pre) (h pre op hpre)
    rw [run, foldl_append]
    exact ⟨hafter.queueExact, hfirst⟩

lemma born_lt_of_firstOut {e : DecryptCacheEntry} (hqueue : a.cache.queue = x :: y :: rest)
    (hx : a.cache.map.lookup x = some e) (hy : y ∈ a.cache.map) (hne : y ≠ x)
    (hnew : ¬(a.cache.ttl = 0 ∨ z ∈ a.cache.map))
    (hfull : maxCacheBytes < a.cache.totalBytes + data.length)
    (hfits : ¬maxCacheBytes < a.cache.totalBytes + data.length - e.plaintext.length)
    (h : a.FirstOut (.insert now z data)) : a.born x < a.born y := by
  have hmem : x ∈ a.cache.map := mem_iff.2 ⟨e, hx⟩
  have hxz : x ≠ z := fun heq => hnew (.inr (heq ▸ hmem))
  have hyz : y ≠ z := fun heq => hnew (.inr (heq ▸ hy))
  have hx' := (lookup_insert_of_ne (b := (⟨data, now⟩ : DecryptCacheEntry)) a.cache.map hxz).trans
      hx
  have hlt := h x y (.inl hmem)
  simp only [step, DecryptCache.apply, DecryptCache.insert, if_neg hnew, hqueue, cons_append,
    DecryptCache.sweep, if_pos hfull, DecryptCache.evict, hx', if_neg hfits, update_of_ne hxz,
    update_of_ne hyz] at hlt
  exact hlt notMem_erase_self (mem_erase.2 ⟨hne, mem_insert.2 (.inr hy)⟩)

/-- Chunk 0 is read again after it expired, and evicted by its old place. -/
theorem newest_entry_evicted : ∃ pre op,
    ¬(run 1 pre).cache.QueueExact ∧ ¬(run 1 pre).FirstOut op := by
  let id (n : UInt8) : ChunkId := ⟨.replicate 32 n⟩
  let pre : List DecryptCache.Op :=
    [.insert 0 (id 0) [7], .insert 0 (id 1) [7], .get 2 (id 0), .insert 2 (id 0) [7]]
  obtain ⟨a, ha, hqueue, hnodup, htotal, hheld, hother, hne, hnew, hborn⟩ : ∃ a, a = run 1 pre ∧
      a.cache.queue = [id 0, id 1, id 0] ∧ ¬[id 0, id 1, id 0].Nodup ∧ a.cache.totalBytes = 2 ∧
      a.cache.map.lookup (id 0) = some ⟨[7], 2⟩ ∧ id 1 ∈ a.cache.map ∧ id 1 ≠ id 0 ∧
      ¬(a.cache.ttl = 0 ∨ id 2 ∈ a.cache.map) ∧ ¬a.born (id 0) < a.born (id 1) :=
    ⟨_, rfl, by decide +kernel⟩
  obtain ⟨data, hdata⟩ : ∃ data : Bytes, data.length = maxCacheBytes - 1 :=
    ⟨.replicate _ 7, length_replicate⟩
  refine ⟨pre, .insert 2 (id 2) data, ?_⟩
  rw [← ha]
  refine ⟨fun hexact => hnodup (hqueue ▸ hexact.1), fun hfirst => hborn ?_⟩
  apply born_lt_of_firstOut hqueue hheld hother hne hnew _ _ hfirst
  · rw [hdata, htotal]; decide
  · rw [hdata, htotal]; decide

end Aged

end Kiseki.Gateway
