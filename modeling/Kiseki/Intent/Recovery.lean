import Kiseki.Intent.CrashRuns
import Kiseki.Log.AtMostOnce

namespace Kiseki.Intent
open Crash Log Std.ExtTreeMap List Triple PendingIndex StoreCore SeqMap

structure InMemIntentStore where
  bySeq : SeqMap WriteIntent := ∅
  byKey : Finmap fun _ : IdempotencyKey => PerspectiveSeq := ∅

namespace InMemIntentStore

section
variable (g : InMemIntentStore)

def record (intent : WriteIntent) : InMemIntentStore :=
  { g with bySeq := g.bySeq.insert intent.perspectiveSeq intent }

def put (intent : WriteIntent) : PutOutcome × InMemIntentStore :=
  match intent.idempotencyKey with
  | none => (.recorded, g.record intent)
  | some key =>
    match g.byKey.lookup key with
    | some existing => (.duplicate existing, g)
    | none =>
      (.recorded, { g with byKey := g.byKey.insert key intent.perspectiveSeq }.record intent)

def pending : List WriteIntent :=
  g.bySeq.toList.map Prod.snd

def putAll (set : List WriteIntent) : InMemIntentStore :=
  set.foldl (fun g intent => (g.put intent).2) g

def view : View where
  intentAt := fun seq => g.bySeq[seq]?
  holder := fun key => g.byKey.lookup key

end

end InMemIntentStore

/-- Any quorum of this many voters meets every set of `minAcks` voters. -/
def gatherThreshold (clusterSize minAcks : Nat) : Nat :=
  let rf := max clusterSize 1
  let acks := min (max minAcks 1) rf
  rf - acks + 1

def unionBySeq (intents : List WriteIntent) : SeqMap WriteIntent :=
  intents.foldl (fun m intent => m.insertIfNew intent.perspectiveSeq intent) ∅

def recoverPending (views : List (List WriteIntent)) (clusterSize minAcks : Nat) :
    Except IntentError (List WriteIntent) :=
  let need := gatherThreshold clusterSize minAcks
  if views.length < need then .error (.insufficientQuorum views.length need)
  else .ok ((unionBySeq views.flatten).toList.map Prod.snd)

def restoreLoop (existing : List PerspectiveSeq) :
    List WriteIntent → Nat → Prog Disk StoreCore (Except IntentError Nat)
  | [], inserted => pure (.ok inserted)
  | intent :: rest, inserted => do
    let _ ← put intent
    restoreLoop existing rest
      (if intent.perspectiveSeq ∈ existing then inserted else inserted + 1)

def restoreInto (recovered : List WriteIntent) : Prog Disk StoreCore (Except IntentError Nat) := do
  let core ← Prog.mem
  restoreLoop (core.pending.map WriteIntent.perspectiveSeq) recovered 0

def restoreUnion : Except IntentError (List WriteIntent) →
    Prog Disk StoreCore (Except IntentError Nat)
  | .error e => pure (.error e)
  | .ok union => restoreInto union

structure ShardCommitter where
  clusterSize : Nat
  minAcks : Nat

def collapseByNode (peerPending : List (NodeId × List WriteIntent)) :
    Finmap fun _ : NodeId => List WriteIntent :=
  peerPending.foldl (fun m peer => m.insert peer.1 peer.2) ∅

def ShardCommitter.recover (c : ShardCommitter) (order : List NodeId)
    (peerPending : List (NodeId × List WriteIntent)) :
    Prog Disk StoreCore (Except IntentError Nat) := do
  let byNode := collapseByNode peerPending
  let peerStores := (order.filterMap byNode.lookup).map fun set =>
    ({} : InMemIntentStore).putAll set
  let core ← Prog.mem
  restoreUnion (recoverPending (core.pending :: peerStores.map InMemIntentStore.pending)
    c.clusterSize c.minAcks)

/-- More than a millisecond before the recent set, with a non-zero cutoff. -/
def dropsAncient (recent : Finset HybridLogicalClock) (cutoff : Nat) (seq : PerspectiveSeq) :
    Bool :=
  decide (0 < cutoff) &&
    match (recent.image fun h => h.physicalMs.toNat).min with
    | some minRecent => decide (seq.physicalMs.toNat < minRecent - 1)
    | none => false

def keepsGathered (recent : Finset HybridLogicalClock) (cutoff : Nat) (intent : WriteIntent) :
    Bool :=
  !decide (intent.perspectiveSeq ∈ recent) && !dropsAncient recent cutoff intent.perspectiveSeq

def electionRecovery (c : ShardCommitter) (shard : ShardSmInner) (order : List NodeId)
    (peers : List (NodeId × List WriteIntent)) : Prog Disk StoreCore (Except IntentError Nat) :=
  let recentSnap := shard.recentIncorporatedSeqs
  let cutoff := shard.ancientCutoffLogIndex
  c.recover order (peers.map fun peer => (peer.1, peer.2.filter (keepsGathered recentSnap cutoff)))

section
variable {g : InMemIntentStore} {core : StoreCore} {d : Disk} {seq : PerspectiveSeq}
  {i r : WriteIntent} {is known : List WriteIntent}

lemma InMemIntentStore.record_intentAt :
    (g.record r).view.intentAt = (g.view.insert r).intentAt := by
  funext seq
  simp only [view, record, View.insert, Function.update_apply, getElem?_insert]
  by_cases h : r.perspectiveSeq = seq
  · rw [if_pos h, if_pos h.symm]
  · rw [if_neg h, if_neg (Ne.symm h)]

lemma InMemIntentStore.record_view (hkey : r.idempotencyKey = none) :
    (g.record r).view = g.view.insert r := by
  apply View.ext record_intentAt
  simp only [View.insert, hkey]
  rfl

lemma InMemIntentStore.record_view_of_key {key : IdempotencyKey}
    (hkey : r.idempotencyKey = some key) :
    ({ g with byKey := g.byKey.insert key r.perspectiveSeq }.record r).view = g.view.insert r := by
  apply View.ext
  · exact record_intentAt (g := { g with byKey := g.byKey.insert key r.perspectiveSeq })
  funext k
  rw [View.holder_insert, hkey]
  exact Maps.lookup_insert_some _ _ _

lemma InMemIntentStore.put_view : g.view.Put r (g.put r).2.view := by
  rw [put]
  split
  · rw [record_view ‹_›]
    exact .recorded fun key hkey => by rw [‹r.idempotencyKey = none›] at hkey; cases hkey
  · rename_i key hkey
    split
    · exact .duplicate hkey ‹_›
    · rw [record_view_of_key hkey]
      apply View.Put.recorded
      intro k hk
      obtain rfl := Option.some.inj (hkey.symm.trans hk)
      exact ‹g.byKey.lookup key = none›

lemma InMemIntentStore.putAll_view : View.PutAll g.view is (g.putAll is).view := by
  induction is generalizing g with
  | nil => exact .nil
  | cons i is ih => exact .cons put_view ih

lemma InMemIntentStore.mem_pending
    (h : ∀ seq j, g.view.intentAt seq = some j → j.perspectiveSeq = seq) :
    i ∈ g.pending ↔ g.view.intentAt i.perspectiveSeq = some i := by
  rw [pending, mem_map]
  constructor
  · rintro ⟨⟨seq, j⟩, hentry, rfl⟩
    have hj := mem_toList_iff_getElem?_eq_some.1 hentry
    obtain rfl := h seq j hj
    exact hj
  · intro hi
    exact ⟨(_, i), mem_toList_iff_getElem?_eq_some.2 hi, rfl⟩

lemma StoreCore.mem_pending (h : core.pendingIndex.view.Backed known) :
    i ∈ core.pending ↔ core.pendingIndex.view.intentAt i.perspectiveSeq = some i := by
  rw [pending, mem_map]
  constructor
  · rintro ⟨⟨seq, j, no⟩, hentry, rfl⟩
    have hj : core.pendingIndex.view.intentAt seq = some j := by
      simp only [view, mem_toList_iff_getElem?_eq_some.1 hentry, Option.map_some]
    obtain ⟨rfl, _⟩ := h.entry seq j hj
    exact hj
  · intro hi
    obtain ⟨⟨j, no⟩, hentry, rfl⟩ := Option.map_eq_some_iff.1 hi
    exact ⟨(_, j, no), mem_toList_iff_getElem?_eq_some.2 hentry, rfl⟩

lemma maybeRotateEpoch_pendingIndex (idx : PendingIndex) :
    Triple (fun _ v => v.pendingIndex = idx) maybeRotateEpoch (fun _ _ v => v.pendingIndex = idx)
      fun _ => True := by
  apply bind_mem
  intro core
  apply Triple.ite
  · intro _
    apply bind (Q := fun _ _ v => v.pendingIndex = idx)
    · exact commit fun d v h => ⟨h.1, trivial⟩
    · intro _
      exact modify fun d v h => h
  · intro _
    exact ret fun d v h => h.1

lemma put_pendingIndex : let toRecord := (core.pendingIndex.classifyOne {} r).2.toRecord
    Triple (fun _ v => v = core) (put r)
      (fun _ _ v => v.pendingIndex =
        toRecord.foldl (insertRecord core.epochs.activeNo) core.pendingIndex)
      fun _ => True := by
  intro toRecord
  change Triple _ (commitGroupsLocked [[r]]) _ _
  apply commitGroupsLocked_rule (R := fun _ _ v => v.pendingIndex =
    toRecord.foldl (insertRecord core.epochs.activeNo) core.pendingIndex)
  · rintro d _ rfl hnone
    rw [show toRecord = [] from hnone]
    rfl
  · rintro d _ r rs rfl hsome low
    rw [show toRecord = r :: rs from hsome]
    exact ⟨rfl, trivial⟩
  · intro _
    exact maybeRotateEpoch_pendingIndex _

lemma put_view : core.pendingIndex.view.Put r (put r d core).mem.pendingIndex.view := by
  rw [(put_pendingIndex d core rfl).2]
  have hone : Classified _ {} r _ := classified core.pendingIndex
  revert hone
  generalize core.pendingIndex.classifyOne {} r = res
  intro hone
  cases hone with
  | pending hseq =>
    obtain ⟨⟨i, no⟩, hentry⟩ := mem_iff.1 hseq
    apply View.Put.pending (i := i)
    simp only [view, hentry, Option.map_some]
  | duplicate hkey hfound =>
    rw [Finmap.lookup_empty, Option.or_none] at hfound
    exact .duplicate hkey hfound
  | fresh hseq hfree hclaimed =>
    change View.Put _ _ (core.pendingIndex.insertRecord _ r).view
    rw [core.pendingIndex.view_insertRecord core.epochs.activeNo r]
    exact .recorded fun key hkey => (hfree key hkey).1

lemma restoreLoop_spec (existing : List PerspectiveSeq) (n : Nat) (d : Disk) (core : StoreCore) :
    (∃ m, (restoreLoop existing is n d core).value = .ok m) ∧
      View.PutAll core.pendingIndex.view is
        (restoreLoop existing is n d core).mem.pendingIndex.view := by
  induction is generalizing n d core with
  | nil => exact ⟨⟨n, rfl⟩, .nil⟩
  | cons i is ih =>
    obtain ⟨hvalue, hputs⟩ := ih (if i.perspectiveSeq ∈ existing then n else n + 1)
      (put i d core).disk (put i d core).mem
    exact ⟨hvalue, .cons put_view hputs⟩

lemma getElem?_unionBySeq :
    (unionBySeq is)[seq]? = is.find? fun i => decide (i.perspectiveSeq = seq) := by
  have hfold : ∀ m : SeqMap WriteIntent,
      (is.foldl (fun m i => m.insertIfNew i.perspectiveSeq i) m)[seq]? =
        m[seq]?.or (is.find? fun i => decide (i.perspectiveSeq = seq)) := by
    induction is with
    | nil => exact fun m => (Option.or_none).symm
    | cons i is ih =>
      intro m
      rw [foldl_cons, ih, getElem?_insertIfNew, find?_cons]
      simp only [Std.LawfulEqCmp.compare_eq_iff_eq]
      by_cases h : i.perspectiveSeq = seq
      · subst h
        by_cases hm : i.perspectiveSeq ∈ m
        · obtain ⟨j, hj⟩ := mem_iff.1 hm
          rw [if_neg fun hn => hn.2 hm, hj, Option.some_or, Option.some_or]
        · rw [if_pos ⟨rfl, hm⟩, getElem?_eq_none hm]
          simp only [decide_true, Option.some_or, Option.none_or]
      · rw [if_neg fun hn => h hn.1]
        simp only [h, decide_false]
  rw [unionBySeq, hfold, getElem?_empty, Option.none_or]

lemma mem_unionBySeq (hu : UniqueSeqs is) : i ∈ (unionBySeq is).toList.map Prod.snd ↔ i ∈ is := by
  rw [mem_map]
  constructor
  · rintro ⟨⟨seq, j⟩, hentry, rfl⟩
    rw [mem_toList_iff_getElem?_eq_some, getElem?_unionBySeq] at hentry
    exact mem_of_find?_eq_some hentry
  · intro hi
    refine ⟨(i.perspectiveSeq, i), ?_, rfl⟩
    rw [mem_toList_iff_getElem?_eq_some, getElem?_unionBySeq]
    obtain ⟨j, hj⟩ : ∃ j, is.find? (fun j => decide (j.perspectiveSeq = i.perspectiveSeq)) =
      some j :=
      Option.isSome_iff_exists.1 (find?_isSome.2 ⟨i, hi, decide_eq_true rfl⟩)
    have hseq : j.perspectiveSeq = i.perspectiveSeq := by simpa using find?_some hj
    rw [hj, hu j (mem_of_find?_eq_some hj) i hi hseq]

lemma lookup_collapseByNode (nodes : List NodeId) (f : NodeId → List WriteIntent) (n : NodeId) :
    (collapseByNode (nodes.map fun n => (n, f n))).lookup n =
      if n ∈ nodes then some (f n) else none := by
  have hfold : ∀ m : Finmap fun _ : NodeId => List WriteIntent,
      ((nodes.map fun n => (n, f n)).foldl (fun m peer => m.insert peer.1 peer.2) m).lookup n =
        if n ∈ nodes then some (f n) else m.lookup n := by
    induction nodes with
    | nil => exact fun m => (if_neg not_mem_nil).symm
    | cons n' nodes ih =>
      intro m
      rw [map_cons, foldl_cons, ih]
      rw [Maps.lookup_insert]
      by_cases heq : n = n'
      · rw [heq, if_pos rfl, if_pos mem_cons_self, ite_self]
      · simp only [if_neg heq, mem_cons, or_iff_right heq]
  rw [collapseByNode, hfold, Finmap.lookup_empty]

end

/-- A new leader: its log, its store and the peers that answered. -/
structure Election where
  voters : Finset NodeId
  leader : NodeId
  minAcks : Nat
  shardId : ShardId
  tenantId : OrgId
  windowEntries : Nat
  windowMs : Nat
  inlineStore : Option InlineMap
  log : List Applied
  disk : Disk
  core : StoreCore
  ghost : Ghost
  stores : NodeId → List WriteIntent
  gathered : List NodeId
  order : List NodeId
  leader_mem : leader ∈ voters
  minAcks_pos : 1 ≤ minAcks
  minAcks_le : minAcks ≤ voters.card
  increasing : Increasing log
  reachable : Relation.ReflTransGen Step {} ⟨disk, some core, ghost⟩
  peer : ∀ n ∈ gathered, n ∈ voters ∧ n ≠ leader
  enough : voters.card - minAcks + 1 ≤ gathered.toFinset.card + 1
  order_perm : order.Perm gathered.dedup
  unique : UniqueSeqs (ghost.recorded ++ gathered.flatMap stores)

namespace Election
variable {e : Election} {i : WriteIntent}

def fresh (e : Election) : ShardSmInner :=
  .new e.shardId e.tenantId e.windowEntries e.windowMs e.inlineStore

def shard (e : Election) : ShardSmInner := e.fresh.run e.log

def incorporated (e : Election) : List PerspectiveSeq :=
  contributions (itemSteps e.log e.fresh [])

def pendingOn (e : Election) (n : NodeId) : List WriteIntent :=
  if n = e.leader then e.core.pending else e.stores n

def Acked (e : Election) (i : WriteIntent) : Prop :=
  e.minAcks ≤ (e.voters.filter fun n => i ∈ e.pendingOn n).card

instance (e : Election) (i : WriteIntent) : Decidable (e.Acked i) :=
  inferInstanceAs (Decidable (_ ≤ _))

def recovered (e : Election) : Outcome Disk StoreCore (Except IntentError Nat) :=
  electionRecovery ⟨e.voters.card, e.minAcks⟩ e.shard e.order
    (e.gathered.map fun n => (n, e.stores n)) e.disk e.core

def ancient (e : Election) (i : WriteIntent) : Bool :=
  dropsAncient e.shard.recentIncorporatedSeqs e.shard.ancientCutoffLogIndex i.perspectiveSeq

def keptOf (e : Election) (n : NodeId) : List WriteIntent :=
  (e.stores n).filter (keepsGathered e.shard.recentIncorporatedSeqs e.shard.ancientCutoffLogIndex)

def available (e : Election) : List WriteIntent :=
  e.core.pending ++ e.gathered.flatMap e.keptOf

def known (e : Election) : List WriteIntent := e.ghost.recorded ++ e.gathered.flatMap e.stores

lemma backed (e : Election) : e.core.pendingIndex.view.Backed e.known := by
  have hok : e.core.Ok e.disk e.ghost := ok_of_reachable e.reachable
  have hgrow : ∀ i ∈ e.ghost.recorded, i ∈ e.known := fun i hi => mem_append_left _ hi
  exact (hok.backed (e.unique.mono hgrow)).mono hgrow

lemma mem_known_of_keptOf (hn : n ∈ e.gathered) (hi : i ∈ e.keptOf n) : i ∈ e.known :=
  mem_append_right _ (mem_flatMap.2 ⟨n, hn, (mem_filter.1 hi).1⟩)

lemma Acked.mem (h : e.Acked i) : i ∈ e.core.pending ∨ ∃ n ∈ e.gathered, i ∈ e.stores n := by
  have hleader : e.leader ∉ e.gathered.toFinset :=
    fun hm => (e.peer _ (mem_toFinset.1 hm)).2 rfl
  have hviews : insert e.leader e.gathered.toFinset ⊆ e.voters := by
    apply Finset.insert_subset e.leader_mem
    exact fun n hn => (e.peer n (mem_toFinset.1 hn)).1
  obtain ⟨n, hn⟩ := Finset.inter_nonempty_of_card_lt_card_add_card
    (Finset.filter_subset (fun n => i ∈ e.pendingOn n) e.voters) hviews (by
      have hminAcks := e.minAcks_le
      have henough := e.enough
      have hacked : e.minAcks ≤ (e.voters.filter fun n => i ∈ e.pendingOn n).card := h
      rw [Finset.card_insert_of_notMem hleader]
      omega)
  obtain ⟨hhas, hview⟩ := Finset.mem_inter.1 hn
  have hhas := (Finset.mem_filter.1 hhas).2
  rw [pendingOn] at hhas
  split at hhas
  · exact .inl hhas
  · rcases Finset.mem_insert.1 hview with heq | hn
    · exact absurd heq ‹_›
    · exact .inr ⟨n, mem_toFinset.1 hn, hhas⟩

def views (e : Election) : List (List WriteIntent) :=
  e.core.pending :: e.order.map fun n => (({} : InMemIntentStore).putAll (e.keptOf n)).pending

lemma mem_order : n ∈ e.order ↔ n ∈ e.gathered := by
  rw [e.order_perm.mem_iff, mem_dedup]

lemma recovered_eq :
    e.recovered = restoreUnion (recoverPending e.views e.voters.card e.minAcks) e.disk e.core := by
  have hsets : e.order.filterMap (collapseByNode (e.gathered.map fun n => (n, e.keptOf n))).lookup =
      e.order.map e.keptOf := by
    have hlookup : ∀ n ∈ e.order, (collapseByNode (e.gathered.map fun n =>
        (n, e.keptOf n))).lookup n = (some ∘ e.keptOf) n := by
      intro n hn
      rw [lookup_collapseByNode, if_pos (mem_order.1 hn)]
      rfl
    rw [filterMap_congr hlookup, filterMap_eq_map]
  have hfilter : (e.gathered.map fun n => (n, e.stores n)).map (fun peer => (peer.1,
      peer.2.filter (keepsGathered e.shard.recentIncorporatedSeqs
        e.shard.ancientCutoffLogIndex))) = e.gathered.map fun n => (n, e.keptOf n) := by
    rw [List.map_map]
    rfl
  simp only [recovered, electionRecovery, hfilter, ShardCommitter.recover, hsets, List.map_map]
  rfl

lemma threshold_le (e : Election) : gatherThreshold e.voters.card e.minAcks ≤ e.views.length := by
  have hlen : e.views.length = e.gathered.toFinset.card + 1 := by
    rw [views, length_cons, length_map, e.order_perm.length_eq, card_toFinset]
  have hpos := e.minAcks_pos
  have hle := e.minAcks_le
  have henough := e.enough
  rw [hlen, gatherThreshold]
  omega

lemma peer_spec (hn : n ∈ e.gathered) :
    let v := (({} : InMemIntentStore).putAll (e.keptOf n)).view
    v.Backed e.known ∧ (∀ seq i, v.intentAt seq = some i → i ∈ e.keptOf n) ∧
      ∀ i ∈ e.keptOf n, v.Covers i := by
  have hputs : View.PutAll View.empty (e.keptOf n)
      (({} : InMemIntentStore).putAll (e.keptOf n)).view := by
    have hempty : ({} : InMemIntentStore).view = View.empty := by
      apply View.ext
      · funext seq
        exact getElem?_empty
      · funext key
        simp only [InMemIntentStore.view, View.empty, Finmap.lookup_empty]
    rw [← hempty]
    exact InMemIntentStore.putAll_view
  have hknown : ∀ i ∈ e.keptOf n, i ∈ e.known := fun i => mem_known_of_keptOf hn
  refine ⟨hputs.backed View.backed_empty e.unique hknown, ?_,
    hputs.covers View.backed_empty e.unique hknown⟩
  intro seq i hi
  rcases hputs.source hi with hi | hi
  · cases hi
  · exact hi

lemma mem_views (e : Election) : i ∈ e.views.flatten ↔ i ∈ e.core.pending ∨
    ∃ n ∈ e.gathered,
      (({} : InMemIntentStore).putAll (e.keptOf n)).view.intentAt i.perspectiveSeq = some i := by
  rw [views, flatten_cons, mem_append, mem_flatten]
  apply or_congr_right
  simp only [mem_map, exists_exists_and_eq_and, mem_order]
  apply exists_congr
  intro n
  apply and_congr_right
  intro hn
  exact InMemIntentStore.mem_pending fun seq j hj => ((peer_spec hn).1.entry seq j hj).1

lemma views_known (h : i ∈ e.views.flatten) : i ∈ e.available ∧ i ∈ e.known := by
  rcases e.mem_views.1 h with hi | ⟨n, hn, hi⟩
  · have hentry := (mem_pending e.backed).1 hi
    exact ⟨mem_append_left _ hi, (e.backed.entry _ _ hentry).2⟩
  · have hkept := (peer_spec hn).2.1 _ _ hi
    exact ⟨mem_append_right _ (mem_flatMap.2 ⟨n, hn, hkept⟩), mem_known_of_keptOf hn hkept⟩

lemma recovered_spec (e : Election) :
    (∃ n, e.recovered.value = .ok n) ∧ ∃ union, (∀ i, i ∈ union ↔ i ∈ e.views.flatten) ∧
      View.PutAll e.core.pendingIndex.view union e.recovered.mem.pendingIndex.view := by
  let union := (unionBySeq e.views.flatten).toList.map Prod.snd
  have hunion : recoverPending e.views e.voters.card e.minAcks = .ok union := by
    rw [recoverPending, if_neg (Nat.not_lt.2 e.threshold_le)]
  rw [recovered_eq, hunion]
  obtain ⟨hvalue, hputs⟩ := restoreLoop_spec (e.core.pending.map WriteIntent.perspectiveSeq)
    0 e.disk e.core
  refine ⟨hvalue, union, fun i => mem_unionBySeq ?_, hputs⟩
  exact e.unique.mono fun i hi => (views_known hi).2

lemma recovered_covers (e : Election) :
    e.recovered.mem.pendingIndex.view.Backed e.known ∧
      (∀ i ∈ e.recovered.mem.pending, i ∈ e.available) ∧
      ∀ i ∈ e.available, e.recovered.mem.pendingIndex.view.Covers i := by
  obtain ⟨_, union, hunion, hputs⟩ := e.recovered_spec
  have hknown : ∀ i ∈ union, i ∈ e.known := fun i hi => (views_known ((hunion i).1 hi)).2
  have hb := hputs.backed e.backed e.unique hknown
  have hcovers := hputs.covers e.backed e.unique hknown
  refine ⟨hb, ?_, ?_⟩
  · intro i hi
    rcases hputs.source ((mem_pending hb).1 hi) with hi | hi
    · exact mem_append_left _ ((mem_pending e.backed).2 hi)
    · exact (views_known ((hunion i).1 hi)).1
  · intro i hi
    rcases mem_append.1 hi with hi | hi
    · exact hcovers i ((hunion i).2 (e.mem_views.2 (.inl hi)))
    · obtain ⟨n, hn, hi⟩ := mem_flatMap.1 hi
      rcases (peer_spec hn).2.2 i hi with hi | ⟨j, hj, hshare⟩
      · exact hcovers i ((hunion i).2 (e.mem_views.2 (.inr ⟨n, hn, hi⟩)))
      · have hj := hcovers j ((hunion j).2 (e.mem_views.2 (.inr ⟨n, hn, hj⟩)))
        exact hj.of_sharesKey hshare

lemma mem_available (hacked : e.Acked i) (hnew : i.perspectiveSeq ∉ e.incorporated)
    (h : e.ancient i = false) : i ∈ e.available := by
  rcases hacked.mem with hi | ⟨n, hn, hi⟩
  · exact mem_append_left _ hi
  · refine mem_append_right _ (mem_flatMap.2 ⟨n, hn, mem_filter.2 ⟨hi, ?_⟩⟩)
    have hrecent : i.perspectiveSeq ∉ e.shard.recentIncorporatedSeqs :=
      fun hm => hnew (ShardSmInner.mem_contributions e.increasing hm)
    have hancient : dropsAncient e.shard.recentIncorporatedSeqs e.shard.ancientCutoffLogIndex
      i.perspectiveSeq = false := h
    simp only [keepsGathered, hrecent, hancient, decide_false, Bool.not_false, Bool.and_self]

lemma ancient_of_mem_available (h : i ∈ e.available) :
    i ∈ e.core.pending ∨ e.ancient i = false := by
  refine (mem_append.1 h).imp_right fun hi => ?_
  obtain ⟨n, _, hi⟩ := mem_flatMap.1 hi
  have hkeeps := (Bool.and_eq_true_iff.1 (mem_filter.1 hi).2).2
  exact (Bool.not_eq_true' _).mp hkeeps

/-- Acked intents stay pending exactly if held or not taken for ancient. -/
theorem recovery_keeps_acked_iff (e : Election) :
    ((∃ n, e.recovered.value = .ok n) ∧
        ∀ i, e.Acked i → i.perspectiveSeq ∉ e.incorporated → i ∈ e.recovered.mem.pending ∨
          ∃ j ∈ e.recovered.mem.pending, j.SharesKey i) ↔
      ∀ i, e.Acked i → i.perspectiveSeq ∉ e.incorporated → i ∈ e.core.pending ∨
        e.ancient i = false ∨ ∃ j ∈ e.available, j.SharesKey i := by
  obtain ⟨hb, hsource, hcovers⟩ := e.recovered_covers
  constructor
  · rintro ⟨_, hkept⟩ i hacked hnew
    rcases hkept i hacked hnew with hi | ⟨j, hj, hshare⟩
    · rw [← or_assoc]
      exact .inl (ancient_of_mem_available (hsource i hi))
    · exact .inr (.inr ⟨j, hsource j hj, hshare⟩)
  · intro hwhen
    refine ⟨e.recovered_spec.1, fun i hacked hnew => ?_⟩
    have hcover : e.recovered.mem.pendingIndex.view.Covers i := by
      rcases hwhen i hacked hnew with hi | hi | ⟨j, hj, hshare⟩
      · exact hcovers i (mem_append_left _ hi)
      · exact hcovers i (mem_available hacked hnew hi)
      · exact (hcovers j hj).of_sharesKey hshare
    rcases hcover with hi | ⟨j, hj, hshare⟩
    · exact .inl ((mem_pending hb).2 hi)
    · exact .inr ⟨j, (mem_pending hb).2 hj, hshare⟩

/-- The leader has an empty store; the others hold an earlier intent. -/
def early : Election where
  voters := {1, 2, 3}
  leader := 1
  minAcks := 2
  shardId := ⟨.replicate 16 0⟩
  tenantId := ⟨.replicate 16 0⟩
  windowEntries := 1
  windowMs := defaultDedupWindowMs
  inlineStore := none
  log := [incorporateAt 1000 1 0, incorporateAt 1001 2 0]
  disk := (openWithRotate 1 {} {}).disk
  core := (openWithRotate 1 {} {}).mem
  ghost := {}
  stores := fun _ => [plainIntent 5]
  gathered := [2]
  order := [2]
  leader_mem := by decide
  minAcks_pos := by decide
  minAcks_le := by decide
  increasing := by decide
  reachable := .single (.reopen 1 rfl)
  peer := by
    intro n hn
    rw [List.mem_singleton.1 hn]
    exact ⟨by decide, by decide⟩
  enough := by decide
  order_perm := by decide
  unique := by
    intro i hi j hj _
    rw [List.mem_singleton.1 hi, List.mem_singleton.1 hj]

theorem acked_early_intent_dropped :
    early.Acked (plainIntent 5) ∧ (plainIntent 5).perspectiveSeq ∉ early.incorporated ∧
      early.recovered.value = .ok 0 ∧ early.recovered.mem.pending = [] :=
  ⟨by decide, by decide, rfl, by decide⟩

end Election

end Kiseki.Intent
