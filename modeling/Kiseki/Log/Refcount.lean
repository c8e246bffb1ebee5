import Kiseki.Lib.Tally
import Kiseki.Log.AtMostOnce

namespace Kiseki.Log
open Tally Finmap List Option Nat ShardSmInner

def ShardSmInner.count (s : ShardSmInner) (key : ChunkKey) : Option (Nat × Bool) :=
  (s.clusterChunkState.lookup key).map fun entry => (entry.refcount, entry.tombstoned)

def ShardSmInner.parked (s : ShardSmInner) (key : ChunkKey) : Nat :=
  (s.pendingChunkDecrements.lookup key).getD 0

def bornWith (parked : Nat) : Nat × Bool :=
  (1 - parked, decide (parked > 0))

lemma ShardSmInner.count_eq_none {s : ShardSmInner} {key : ChunkKey} :
    s.count key = none ↔ key ∉ s.clusterChunkState := by
  rw [count, map_eq_none_iff, lookup_eq_none]

def listsChunk (key : ChunkKey) (tenantIdBytes : Uuid) (newChunks : List NewChunkMeta) : Bool :=
  newChunks.any fun nc => decide (key = (⟨tenantIdBytes⟩, ⟨nc.chunkId⟩))

section
variable {s : ShardSmInner} {key : ChunkKey} {logIndex : Nat} {nc : NewChunkMeta}

lemma ShardSmInner.count_applyNewChunk_of_some (h : s.count key = some c) (tenant : OrgId) :
    (s.applyNewChunk tenant logIndex nc).count key = some c := by
  simp only [applyNewChunk]
  split
  · exact h
  · rename_i hrow
    have hne : key ≠ (tenant, ⟨nc.chunkId⟩) := by
      rintro rfl
      rw [count_eq_none.2 hrow] at h
      cases h
    simp only [count] at h ⊢
    rw [lookup_insert_of_ne _ hne]
    exact h

lemma ShardSmInner.applyNewChunk_self (h : s.count key = none)
    (hkey : key = (tenant, ⟨nc.chunkId⟩)) :
    (s.applyNewChunk tenant logIndex nc).count key = some (bornWith (s.parked key)) := by
  subst hkey
  simp only [applyNewChunk, count, parked]
  rw [if_neg (count_eq_none.1 h), lookup_insert]
  rfl

lemma ShardSmInner.applyNewChunk_other (logIndex : Nat) (nc : NewChunkMeta)
    (hne : key ≠ (tenant, ⟨nc.chunkId⟩)) :
    (s.applyNewChunk tenant logIndex nc).count key = s.count key ∧
      (s.applyNewChunk tenant logIndex nc).parked key = s.parked key := by
  simp only [applyNewChunk]
  split
  · exact ⟨rfl, rfl⟩
  · simp only [count, parked]
    rw [lookup_insert_of_ne _ hne, lookup_erase_ne hne]
    exact ⟨rfl, rfl⟩

lemma ShardSmInner.count_applyNewChunks_of_some (h : s.count key = some c)
    {tenantIdBytes : Uuid} {newChunks : List NewChunkMeta} :
    (s.applyNewChunks tenantIdBytes newChunks logIndex).count key = some c := by
  induction newChunks generalizing s with
  | nil => exact h
  | cons nc ncs ih => exact ih (count_applyNewChunk_of_some h _)

lemma ShardSmInner.count_applyNewChunks (h : s.count key = none) {tenantIdBytes : Uuid}
    {newChunks : List NewChunkMeta} (logIndex : Nat) :
    (listsChunk key tenantIdBytes newChunks = true →
      (s.applyNewChunks tenantIdBytes newChunks logIndex).count key =
        some (bornWith (s.parked key))) ∧
    (listsChunk key tenantIdBytes newChunks = false →
      (s.applyNewChunks tenantIdBytes newChunks logIndex).count key = none ∧
        (s.applyNewChunks tenantIdBytes newChunks logIndex).parked key = s.parked key) := by
  induction newChunks generalizing s with
  | nil => exact ⟨nofun, fun _ => ⟨h, rfl⟩⟩
  | cons nc ncs ih =>
    rw [listsChunk, any_cons]
    by_cases hkey : key = (⟨tenantIdBytes⟩, ⟨nc.chunkId⟩)
    · rw [decide_eq_true hkey, Bool.true_or]
      refine ⟨fun _ => ?_, nofun⟩
      exact count_applyNewChunks_of_some (applyNewChunk_self h hkey)
    · rw [decide_eq_false hkey, Bool.false_or]
      obtain ⟨hcount, hparked⟩ := applyNewChunk_other (s := s) logIndex nc hkey
      have hnext := ih (hcount.trans h)
      rw [hparked] at hnext
      exact hnext

def itemsCarry (key : ChunkKey) (logIndex nowMs : Nat) :
    List IncorporateItem → DedupWindow → Bool
  | [], _ => false
  | item :: items, w =>
    if w.refuses item.perspectiveSeq logIndex then itemsCarry key logIndex nowMs items w
    else listsChunk key item.tenantIdBytes item.newChunks ||
      itemsCarry key logIndex nowMs items (w.push logIndex item.perspectiveSeq nowMs)

def LogCommand.carries (key : ChunkKey) (logIndex nowMs : Nat) (w : DedupWindow) :
    LogCommand → Bool
  | .chunkAndDelta args newChunks _ => listsChunk key args.tenantIdBytes newChunks
  | .incorporateIntent item => itemsCarry key logIndex nowMs [item] w
  | .incorporateIntents items => itemsCarry key logIndex nowMs items w
  | _ => false

variable {item : IncorporateItem} {logIndex nowMs : Nat}

lemma ShardSmInner.count_incorporate :
    (s.incorporate item logIndex nowMs []).1.count key =
      (s.applyNewChunks item.tenantIdBytes item.newChunks logIndex).count key := rfl

lemma ShardSmInner.parked_incorporate :
    (s.incorporate item logIndex nowMs []).1.parked key =
      (s.applyNewChunks item.tenantIdBytes item.newChunks logIndex).parked key := rfl

lemma ShardSmInner.count_afterItems_of_some (h : s.count key = some c) (logIndex nowMs : Nat)
    (items : List IncorporateItem) :
    (afterItems logIndex nowMs items s).count key = some c := by
  induction items generalizing s with
  | nil => exact h
  | cons item items ih =>
    apply ih
    rw [applyOneIncorporate]
    split
    · exact h
    · exact count_applyNewChunks_of_some h

lemma ShardSmInner.count_afterItems (h : s.count key = none)
    (items : List IncorporateItem) (hc : itemsCarry key logIndex nowMs items s.window = true) :
    (afterItems logIndex nowMs items s).count key = some (bornWith (s.parked key)) := by
  induction items generalizing s with
  | nil => cases hc
  | cons item items ih =>
    rw [itemsCarry] at hc
    rw [afterItems, applyOneIncorporate, refuses_window]
    split at hc
    · rename_i hr
      rw [if_pos hr]
      exact ih h hc
    · rename_i hr
      rw [if_neg hr]
      obtain ⟨hyes, hno⟩ := count_applyNewChunks h logIndex
      rw [← count_incorporate] at hyes hno
      rw [← parked_incorporate] at hno
      cases hlist : listsChunk key item.tenantIdBytes item.newChunks with
      | true => exact count_afterItems_of_some (hyes hlist) _ _ items
      | false =>
        rw [hlist, Bool.false_or] at hc
        obtain ⟨hcount, hparked⟩ := hno hlist
        rw [← hparked]
        apply ih hcount
        rw [window_incorporate]
        exact hc

lemma ShardSmInner.count_apply_create (h : s.count key = none) (e : Applied)
    (hc : e.cmd.carries key e.logIndex e.nowMs s.window = true) :
    (s.apply e).count key = some (bornWith (s.parked key)) := by
  obtain ⟨cmd, logIndex, nowMs⟩ := e
  cases cmd with
  | chunkAndDelta args newChunks inlinePayloads =>
    exact (count_applyNewChunks h logIndex).1 hc
  | incorporateIntent item => exact count_afterItems h [item] hc
  | incorporateIntents items =>
    have hitems := count_afterItems h items hc
    rw [← applyItems_fst logIndex nowMs items (s, [])] at hitems
    exact hitems
  | _ => cases hc

end

structure Arrival where
  move : Move
  logIndex : Nat
  nowMs : Nat
deriving DecidableEq, Repr

def refcountCommand (key : ChunkKey) : Move → LogCommand
  | .up => .incrementChunkRefcount key.1.uuid key.2.bytes
  | .down => .decrementChunkRefcount key.1.uuid key.2.bytes

def Arrival.applied (key : ChunkKey) (a : Arrival) : Applied :=
  ⟨refcountCommand key a.move, a.logIndex, a.nowMs⟩

def movesOf (as : List Arrival) : List Move := as.map Arrival.move

/-- The commands of a chunk before, at and after its row's. -/
structure Arrivals (s : ShardSmInner) (key : ChunkKey) where
  early : List Arrival
  create : Applied
  late : List Arrival
  carries : create.cmd.carries key create.logIndex create.nowMs s.window = true

namespace Arrivals
variable {s : ShardSmInner} {key : ChunkKey}

section
variable (a : Arrivals s key)

def entries : List Applied :=
  a.early.map (Arrival.applied key) ++ a.create :: a.late.map (Arrival.applied key)

def increments : Nat := ups (movesOf a.early) + ups (movesOf a.late)

def decrements : Nat := downs (movesOf a.early) + downs (movesOf a.late)

def charged : List Move :=
  List.replicate (downs (movesOf a.early)) .down ++ movesOf a.late

end

end Arrivals

structure Awaits (w : DedupWindow) (key : ChunkKey) (s : ShardSmInner) (parked : Nat) : Prop where
  window : s.window = w
  count : s.count key = none
  parked : s.parked key = parked
  room : s.pendingChunkDecrements.keys.card < pendingChunkDecrementsCap ∨
    key ∈ s.pendingChunkDecrements

section
variable {s : ShardSmInner} {key : ChunkKey}

lemma Awaits.apply (h : Awaits w key s n) (a : Arrival) :
    Awaits w key (s.apply (a.applied key)) (n + downs [a.move]) := by
  obtain ⟨move, logIndex, nowMs⟩ := a
  have hnone : s.clusterChunkState.lookup key = none :=
    lookup_eq_none.2 (ShardSmInner.count_eq_none.1 h.count)
  cases move with
  | up =>
    have hsame : s.apply (Arrival.applied key ⟨.up, logIndex, nowMs⟩) = s := by
      simp only [ShardSmInner.apply, Arrival.applied, refcountCommand,
        ShardSmInner.applyCommandAt, ShardSmInner.incrementChunkRefcount, hnone]
    rw [hsame]
    exact h
  | down =>
    have hparks : s.apply (Arrival.applied key ⟨.down, logIndex, nowMs⟩) =
        { s with pendingChunkDecrements :=
            s.pendingChunkDecrements.insert key (s.parked key + 1) } := by
      have hroom : ¬(pendingChunkDecrementsCap ≤ s.pendingChunkDecrements.keys.card ∧
          key ∉ s.pendingChunkDecrements) := by
        rintro ⟨hcap, hout⟩
        rcases h.room with hlt | hin
        · exact not_le.2 hlt hcap
        · exact hout hin
      simp only [ShardSmInner.apply, Arrival.applied, refcountCommand,
        ShardSmInner.applyCommandAt, ShardSmInner.decrementChunkRefcount, hnone, if_neg hroom]
      rfl
    rw [hparks]
    refine ⟨h.window, h.count, ?_, .inr ?_⟩
    · simp only [ShardSmInner.parked, lookup_insert, getD_some]
      exact congrArg (· + 1) h.parked
    · exact mem_insert.2 (.inl rfl)

lemma Awaits.run (h : Awaits w key s n) (as : List Arrival) :
    Awaits w key (s.run (as.map (Arrival.applied key))) (n + downs (movesOf as)) := by
  induction as generalizing s n with
  | nil => exact h
  | cons a as ih =>
    have hnext := ih (h.apply a)
    rw [add_assoc, ← downs_append] at hnext
    exact hnext

def Counts (key : ChunkKey) (s : ShardSmInner) (n : Nat) : Prop :=
  s.count key = some (n, decide (n = 0))

lemma Counts.apply (h : Counts key s n) (a : Arrival) (hn : n + ups [a.move] ≤ u64Max) :
    Counts key (s.apply (a.applied key)) (Tally.step n a.move) := by
  obtain ⟨move, logIndex, nowMs⟩ := a
  obtain ⟨entry, hentry, hcount⟩ := map_eq_some_iff.1 h
  obtain ⟨hn', htomb⟩ := Prod.mk.inj hcount
  cases move with
  | up =>
    simp only [Counts, ShardSmInner.apply, Arrival.applied, refcountCommand,
      ShardSmInner.applyCommandAt, ShardSmInner.incrementChunkRefcount, hentry, ShardSmInner.count,
      lookup_insert, map_some, hn', Tally.step]
    rw [min_eq_left (show n + 1 ≤ u64Max from hn)]
    rfl
  | down =>
    simp only [Counts, ShardSmInner.apply, Arrival.applied, refcountCommand,
      ShardSmInner.applyCommandAt, ShardSmInner.decrementChunkRefcount, hentry, ShardSmInner.count,
      lookup_insert, map_some, hn', htomb, Tally.step]
    cases n with
    | zero => rfl
    | succ n =>
      simp only [succ_ne_zero, decide_false, Bool.not_false, Bool.and_true, Bool.false_or]
      rfl

lemma Counts.run (h : Counts key s n) (as : List Arrival) (hn : n + ups (movesOf as) ≤ u64Max) :
    Counts key (s.run (as.map (Arrival.applied key))) (walk n (movesOf as)) := by
  induction as generalizing s n with
  | nil => exact h
  | cons a as ih =>
    have hsplit : ups (movesOf (a :: as)) = ups [a.move] + ups (movesOf as) := by
      rw [← ups_append]
      rfl
    have hstep : walk n [a.move] ≤ n + ups [a.move] := Tally.walk_le n
    exact ih (h.apply a (by omega)) (by change walk n [a.move] + _ ≤ _; omega)

lemma walk_replicate_down (n : Nat) : walk 1 (List.replicate n .down) = 1 - n := by
  induction n with
  | zero => rfl
  | succ n ih =>
    rw [replicate_succ', walk, foldl_append]
    change step (walk 1 _) .down = _
    rw [ih]
    exact Nat.sub_sub 1 n 1

lemma Arrivals.counts (a : Arrivals s key) (hrow : key ∉ s.clusterChunkState)
    (hparked : key ∉ s.pendingChunkDecrements)
    (hcap : s.pendingChunkDecrements.keys.card < pendingChunkDecrementsCap)
    (hfits : 1 + a.increments ≤ u64Max) :
    Counts key (s.run a.entries) (walk 1 a.charged) := by
  have hstart : Awaits s.window key s 0 := by
    refine ⟨rfl, count_eq_none.2 hrow, ?_, .inl hcap⟩
    rw [parked, lookup_eq_none.2 hparked]
    rfl
  have hearly := hstart.run a.early
  rw [zero_add] at hearly
  have hcreate := count_apply_create hearly.count a.create (hearly.window ▸ a.carries)
  have hborn : Counts key ((s.run (a.early.map (Arrival.applied key))).apply a.create)
      (1 - downs (movesOf a.early)) := by
    rw [Counts, hcreate, hearly.parked, bornWith]
    cases downs (movesOf a.early) with
    | zero => rfl
    | succ n => simp
  have hlate := hborn.run a.late (by rw [increments] at hfits; omega)
  rw [entries, run, foldl_append]
  rw [charged, walk, foldl_append]
  change Counts key _ (walk (walk 1 (replicate _ .down)) (movesOf a.late))
  rw [walk_replicate_down]
  exact hlate

/-- The count ignores the order exactly if early increments match late decrements. -/
theorem refcount_of_arrivals_iff (a : Arrivals s key) (hrow : key ∉ s.clusterChunkState)
    (hparked : key ∉ s.pendingChunkDecrements)
    (hcap : s.pendingChunkDecrements.keys.card < pendingChunkDecrementsCap)
    (hle : a.decrements ≤ 1 + a.increments) (hfits : 1 + a.increments ≤ u64Max) :
    (∃ entry, (s.run a.entries).clusterChunkState.lookup key = some entry ∧
        entry.refcount = 1 + a.increments - a.decrements ∧
        (entry.tombstoned = true ↔ 1 + a.increments - a.decrements = 0)) ↔
      ups (movesOf a.early) = shortfall 1 a.charged := by
  have hcounts := a.counts hrow hparked hcap hfits
  obtain ⟨entry, hentry, heq⟩ := map_eq_some_iff.1 hcounts
  obtain ⟨hcount, htomb⟩ := Prod.mk.inj heq
  have hwalk := walk_add_downs 1 a.charged
  have hups : ups a.charged = ups (movesOf a.late) := by
    rw [Arrivals.charged, ups_append, ups, count_replicate, if_neg (by decide), zero_add]
  have hdowns : downs a.charged = a.decrements := by
    rw [Arrivals.charged, downs_append, downs, count_replicate_self]
    rfl
  have hincrements : a.increments = ups (movesOf a.early) + ups (movesOf a.late) := rfl
  constructor
  · rintro ⟨entry', hentry', hcount', _⟩
    obtain rfl := some.inj (hentry.symm.trans hentry')
    omega
  · intro hearly
    have hvalue : walk 1 a.charged = 1 + a.increments - a.decrements := by omega
    refine ⟨entry, hentry, hcount.trans hvalue, ?_⟩
    rw [htomb, decide_eq_true_iff, hvalue]

end

def plainChunk : ChunkKey := (⟨.replicate 16 0⟩, ⟨.replicate 32 7⟩)

def createPlainChunk (logIndex : Nat) : Applied :=
  ⟨.incorporateIntents [{ plainItem 5 with
    newChunks := [⟨Vector.replicate 32 7, [1, 2, 3], 64⟩] }], logIndex, 0⟩

def deletedEarly : Arrivals (plainShard 2 60000) plainChunk where
  early := [⟨.down, 1, 0⟩]
  create := createPlainChunk 2
  late := [⟨.up, 3, 0⟩]
  carries := by decide

theorem refcount_of_arrivals_iff_deleted_early :
    ∃ entry, ((plainShard 2 60000).run deletedEarly.entries).clusterChunkState.lookup plainChunk =
      some entry ∧ entry.refcount = 1 + 1 - 1 ∧ (entry.tombstoned = true ↔ 1 + 1 - 1 = 0) :=
  (refcount_of_arrivals_iff deletedEarly notMem_empty notMem_empty (by decide)
    (by decide) (by decide)).2 (by decide)

def referencedEarly : Arrivals (plainShard 2 60000) plainChunk where
  early := [⟨.up, 1, 0⟩]
  create := createPlainChunk 2
  late := []
  carries := by decide

/-- The early reference is lost: the row has one reference of two. -/
theorem early_increment_lost : referencedEarly.increments = 1 ∧ referencedEarly.decrements = 0 ∧
    ¬∃ entry, ((plainShard 2 60000).run
      referencedEarly.entries).clusterChunkState.lookup plainChunk = some entry ∧
        entry.refcount = 1 + 1 - 0 := by
  refine ⟨rfl, rfl, ?_⟩
  rintro ⟨entry, hentry, hcount⟩
  have hcounts := referencedEarly.counts notMem_empty notMem_empty (by decide)
    (by decide)
  rw [Counts, ShardSmInner.count, hentry, map_some, some.injEq, Prod.mk.injEq, hcount] at hcounts
  exact absurd hcounts.1 (by decide)

end Kiseki.Log
