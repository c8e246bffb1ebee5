import Kiseki.Intent.Store

namespace Kiseki.Intent

open List Nat

inductive LogError where
  | unavailable
  | quorumLost (shardId : ShardId)
deriving DecidableEq, Repr

/-- Refused, lost on the way, or applied with the reply in time or not. -/
inductive Delivery where
  | refused
  | lost
  | applied (inTime : Bool)
deriving DecidableEq, Repr

def Delivery.durable : Delivery → Bool
  | .applied _ => true
  | _ => false

/-- One `true` for each intent that the peer's store recorded. -/
def Delivery.reply (batch : List WriteIntent) : Delivery → Option (List Bool)
  | .applied true => some (batch.map fun _ => true)
  | _ => none

def fanOneBatch (batch : List WriteIntent) (d : Delivery) : Bool :=
  match d.reply batch with
  | some acks => !acks.isEmpty && acks.all id
  | none => false

/-- What becomes of everything one flush tries; the first send is the probe. -/
structure Fan where
  shardId : ShardId
  localNode : NodeId
  minAcks : Nat
  peers : List NodeId
  leaderId : Option NodeId
  encodes : Bool
  localPut : Bool
  probe : NodeId → Delivery
  rescue : NodeId → Delivery
  completion : List NodeId → List NodeId
  completion_perm : ∀ pool, (completion pool).Perm pool
  peers_nodup : peers.Nodup
  local_not_peer : localNode ∉ peers

structure Flush where
  peerAcks : Nat := 0
  rescuePool : List NodeId := []
  durable : Finset NodeId

def localAcks : Nat := 1

def Flush.quorum (st : Flush) (minAcks : Nat) : Bool :=
  decide (localAcks + st.peerAcks ≥ minAcks)

structure Flushed where
  acks : List (Except LogError Unit)
  durable : Finset NodeId
  topupSeq : UInt64

namespace Fan

def probeOne (f : Fan) (batch : List WriteIntent) (st : Flush) (n : NodeId) : Flush :=
  let st := { st with
    durable := if (f.probe n).durable then insert n st.durable else st.durable }
  if fanOneBatch batch (f.probe n) then { st with peerAcks := st.peerAcks + 1 }
  else { st with rescuePool := st.rescuePool ++ [n] }

/-- One peer at a time until the acks suffice. -/
def walk (f : Fan) (batch : List WriteIntent) : List NodeId → Flush → Bool × Flush
  | [], st => (false, st)
  | n :: rest, st =>
    let st := f.probeOne batch st n
    if fanOneBatch batch (f.probe n) && st.quorum f.minAcks then (true, st)
    else f.walk batch rest st

def leaderIsLocal (f : Fan) : Bool := decide (f.leaderId = some f.localNode)

def leaderFirst (f : Fan) : List NodeId :=
  if f.leaderIsLocal then []
  else
    match f.leaderId with
    | none => []
    | some lid => (f.peers.find? fun n => decide (n = lid)).toList

def candidates (f : Fan) : List NodeId :=
  f.peers.filter fun n => f.leaderIsLocal || decide (f.leaderId ≠ some n)

def rescueFanUntil (acked : NodeId → Bool) (needed : Nat) : List NodeId → Nat → Nat
  | [], acks => acks
  | n :: rest, acks =>
    if acked n then
      if acks + 1 ≥ needed then acks + 1 else rescueFanUntil acked needed rest (acks + 1)
    else rescueFanUntil acked needed rest acks

def rescueStage (f : Fan) (batch : List WriteIntent) (st : Flush) : Bool × Flush :=
  if localAcks + st.peerAcks < f.minAcks ∧ st.rescuePool ≠ [] then
    let needed := f.minAcks - (localAcks + st.peerAcks)
    let acks := rescueFanUntil (fun n => fanOneBatch batch (f.rescue n)) needed
      (f.completion st.rescuePool) 0
    let st := { st with
      peerAcks := st.peerAcks + acks
      durable := st.durable ∪ (st.rescuePool.filter fun n => (f.rescue n).durable).toFinset }
    (st.quorum f.minAcks, st)
  else (false, st)

def fanOut (f : Fan) (topupSeq : UInt64) (batch : List WriteIntent) : Bool × Flush × UInt64 :=
  let (done, st) := f.walk batch f.leaderFirst { durable := {f.localNode} }
  if done then (true, st, topupSeq)
  else
    let start := topupSeq.toNat % f.candidates.length
    let topupSeq := if f.candidates = [] then topupSeq else topupSeq + 1
    let (done, st) := f.walk batch (f.candidates.rotate start) st
    if done then (true, st, topupSeq)
    else
      let (done, st) := f.rescueStage batch st
      (done, st, topupSeq)

def flushBatch (f : Fan) (topupSeq : UInt64) (batch : List WriteIntent) : Flushed :=
  if f.minAcks > 1 ∧ f.encodes = false then
    ⟨batch.map fun _ => .error .unavailable, ∅, topupSeq⟩
  else if f.localPut = false then ⟨batch.map fun _ => .error .unavailable, ∅, topupSeq⟩
  else if localAcks ≥ f.minAcks then ⟨batch.map fun _ => .ok (), {f.localNode}, topupSeq⟩
  else
    let (done, st, topupSeq) := f.fanOut topupSeq batch
    let result := if done then .ok () else .error (.quorumLost f.shardId)
    ⟨batch.map fun _ => result, st.durable, topupSeq⟩

end Fan

lemma durable_of_fanOneBatch (h : fanOneBatch batch d = true) : d.durable = true := by
  cases d with
  | applied inTime => rfl
  | _ => cases h

namespace Fan
variable {f : Fan} {batch : List WriteIntent} {st : Flush} {sent cs : List NodeId} {n l : NodeId}

def acked (f : Fan) (batch : List WriteIntent) (ns : List NodeId) : List NodeId :=
  ns.filter fun n => fanOneBatch batch (f.probe n)

structure Probed (f : Fan) (batch : List WriteIntent) (sent : List NodeId) (st : Flush) : Prop where
  acks : st.peerAcks = (f.acked batch sent).length
  pool : st.rescuePool = sent.filter fun n => !fanOneBatch batch (f.probe n)
  durable : st.durable = insert f.localNode (sent.filter fun n => (f.probe n).durable).toFinset

lemma probed_nil (f : Fan) (batch : List WriteIntent) :
    f.Probed batch [] { durable := {f.localNode} } where
  acks := rfl
  pool := rfl
  durable := rfl

lemma Probed.probeOne (h : f.Probed batch sent st) (n : NodeId) :
    f.Probed batch (sent ++ [n]) (f.probeOne batch st n) := by
  have hdurable : (if (f.probe n).durable then insert n st.durable else st.durable) =
      insert f.localNode ((sent ++ [n]).filter fun n => (f.probe n).durable).toFinset := by
    rw [h.durable, filter_append, toFinset_append, filter_cons, filter_nil]
    split
    · rw [Finset.insert_comm, toFinset_cons, toFinset_nil, Finset.union_comm]
      rfl
    · rw [toFinset_nil, Finset.union_empty]
  rw [Fan.probeOne]
  by_cases hack : fanOneBatch batch (f.probe n) = true
  · rw [if_pos hack]
    refine ⟨?_, ?_, hdurable⟩
    · rw [acked, filter_append, filter_cons, if_pos hack, length_append, h.acks]
      rfl
    · have hnot : ¬(!fanOneBatch batch (f.probe n)) = true := by rw [hack]; nofun
      rw [filter_append, filter_cons, if_neg hnot, h.pool]
      exact (append_nil _).symm
  · rw [if_neg hack]
    refine ⟨?_, ?_, hdurable⟩
    · rw [acked, filter_append, filter_cons, if_neg hack, h.acks]
      exact congrArg length (append_nil _).symm
    · have hnot : (!fanOneBatch batch (f.probe n)) = true := by rw [Bool.eq_false_iff.2 hack]; rfl
      rw [filter_append, filter_cons, if_pos hnot, h.pool]
      rfl

lemma walk_spec (h : f.Probed batch sent st) (hlt : localAcks + st.peerAcks < f.minAcks) :
    ∃ more, cs.take 1 <+: more ∧ more <+: cs ∧
      f.Probed batch (sent ++ more) (f.walk batch cs st).2 ∧
      ((f.walk batch cs st).1 = true →
        f.minAcks ≤ localAcks + (f.walk batch cs st).2.peerAcks) ∧
      ((f.walk batch cs st).1 = false →
        more = cs ∧ localAcks + (f.walk batch cs st).2.peerAcks < f.minAcks) := by
  induction cs generalizing sent st with
  | nil =>
    refine ⟨[], nil_prefix, nil_prefix, ?_, nofun, fun _ => ⟨rfl, hlt⟩⟩
    rw [append_nil]
    exact h
  | cons n cs ih =>
    have hone := h.probeOne n
    rw [walk]
    by_cases hstop : (fanOneBatch batch (f.probe n) &&
        (f.probeOne batch st n).quorum f.minAcks) = true
    · rw [if_pos hstop]
      refine ⟨[n], prefix_rfl, prefix_append [n] cs, hone, fun _ => ?_, nofun⟩
      exact of_decide_eq_true (Bool.and_eq_true_iff.1 hstop).2
    · rw [if_neg hstop]
      have hlt' : localAcks + (f.probeOne batch st n).peerAcks < f.minAcks := by
        rw [Fan.probeOne]
        split
        · have hquorum : ¬(f.probeOne batch st n).quorum f.minAcks = true := by
            intro hq
            exact hstop (Bool.and_eq_true_iff.2 ⟨‹_›, hq⟩)
          rw [Fan.probeOne, if_pos ‹_›, Flush.quorum, decide_eq_true_iff] at hquorum
          exact Nat.lt_of_not_le hquorum
        · exact hlt
      obtain ⟨more, _, hsub, hp, hdone, hnot⟩ := ih hone hlt'
      refine ⟨n :: more, prefix_append [n] more, cons_prefix_cons.2 ⟨rfl, hsub⟩, ?_, hdone, ?_⟩
      · rwa [append_assoc, singleton_append] at hp
      · intro hfalse
        obtain ⟨heq, hless⟩ := hnot hfalse
        exact ⟨by rw [heq], hless⟩

lemma rescueFanUntil_le (acked : NodeId → Bool) (needed : Nat) (ns : List NodeId) (acks : Nat) :
    rescueFanUntil acked needed ns acks ≤ acks + (ns.filter acked).length := by
  induction ns generalizing acks with
  | nil => exact le_refl _
  | cons n ns ih =>
    rw [rescueFanUntil, filter_cons]
    split
    · rw [length_cons]
      split
      · omega
      · have hrest := ih (acks + 1)
        omega
    · exact ih acks

def route (f : Fan) (topupSeq : UInt64) : List NodeId :=
  f.leaderFirst ++ f.candidates.rotate (topupSeq.toNat % f.candidates.length)

lemma leaderFirst_take : f.leaderFirst.take 1 = f.leaderFirst := by
  rw [leaderFirst]
  split
  · rfl
  · split
    · rfl
    · cases f.peers.find? _ <;> rfl

lemma fanOut_spec (f : Fan) (topupSeq : UInt64) (batch : List WriteIntent)
    (hmin : localAcks < f.minAcks) :
    let r := f.fanOut topupSeq batch
    ∃ sent st, f.leaderFirst <+: sent ∧ sent <+: f.route topupSeq ∧ f.Probed batch sent st ∧
      ((r.1 = true ∧ r.2.1 = st ∧ f.minAcks ≤ localAcks + st.peerAcks) ∨
        (sent = f.route topupSeq ∧ localAcks + st.peerAcks < f.minAcks ∧
          r.1 = (f.rescueStage batch st).1 ∧ r.2.1 = (f.rescueStage batch st).2)) := by
  obtain ⟨first, hhead, hfirst, hp, hdone, hnot⟩ := walk_spec (f.probed_nil batch) hmin
  rw [leaderFirst_take] at hhead
  rw [nil_append] at hp
  simp only [fanOut]
  generalize f.walk batch f.leaderFirst { durable := {f.localNode} } = w at hp hdone hnot ⊢
  obtain ⟨done, st⟩ := w
  cases done with
  | true =>
    exact ⟨first, st, hhead, hfirst.trans (prefix_append _ _), hp, .inl ⟨rfl, rfl, hdone rfl⟩⟩
  | false =>
    obtain ⟨rfl, hlt⟩ := hnot rfl
    obtain ⟨more, _, hmore, hp', hdone', hnot'⟩ :=
      walk_spec hp hlt
    have hroute : f.leaderFirst ++ more <+: f.route topupSeq :=
      (prefix_append_right_inj f.leaderFirst).2 hmore
    simp only [Bool.false_eq_true, if_false]
    generalize f.walk batch (f.candidates.rotate (topupSeq.toNat % f.candidates.length)) st = w
      at hp' hdone' hnot' ⊢
    obtain ⟨done, st'⟩ := w
    cases done with
    | true =>
      exact ⟨_, st', prefix_append _ _, hroute, hp', .inl ⟨rfl, rfl, hdone' rfl⟩⟩
    | false =>
      obtain ⟨rfl, hlt'⟩ := hnot' rfl
      exact ⟨_, st', prefix_append _ _, hroute, hp', .inr ⟨rfl, hlt', rfl, rfl⟩⟩

lemma mem_leaderFirst (hleader : f.leaderId = some l) :
    n ∈ f.leaderFirst ↔ n = l ∧ l ∈ f.peers ∧ l ≠ f.localNode := by
  simp only [leaderFirst, leaderIsLocal, hleader, Option.some.injEq, decide_eq_true_eq]
  by_cases hlocal : l = f.localNode
  · rw [if_pos hlocal]
    exact iff_of_false not_mem_nil fun h => h.2.2 hlocal
  · rw [if_neg hlocal, Option.mem_toList]
    constructor
    · intro hfind
      have heq : n = l := by simpa using find?_some hfind
      exact ⟨heq, heq ▸ mem_of_find?_eq_some hfind, hlocal⟩
    · rintro ⟨rfl, hmem, _⟩
      obtain ⟨m, hm⟩ := Option.isSome_iff_exists.1
        (find?_isSome (p := fun m => decide (m = n)) |>.2 ⟨n, hmem, decide_eq_true rfl⟩)
      have heq : m = n := by simpa using find?_some hm
      rw [hm, heq]

lemma mem_candidates (hleader : f.leaderId = some l) (hlocal : l ≠ f.localNode) :
    f.candidates = f.peers.filter fun n => decide (n ≠ l) := by
  apply filter_congr
  intro n _
  simp only [leaderIsLocal, hleader, Option.some.injEq, hlocal, decide_false, Bool.false_or,
    ne_eq, eq_comm]

lemma route_nodup (f : Fan) (topupSeq : UInt64) : (f.route topupSeq).Nodup := by
  have hsub : f.leaderFirst.Nodup := by
    rw [leaderFirst]
    split
    · exact nodup_nil
    · split
      · exact nodup_nil
      · cases f.peers.find? _ with
        | none => exact nodup_nil
        | some n => exact nodup_singleton n
  refine hsub.append (nodup_rotate.2 (f.peers_nodup.filter _)) ?_
  intro n hn hm
  rw [mem_rotate] at hm
  cases hleader : f.leaderId with
  | none =>
    simp only [leaderFirst, hleader, ite_self, not_mem_nil] at hn
  | some l =>
    obtain ⟨rfl, _, hlocal⟩ := (mem_leaderFirst hleader).1 hn
    rw [mem_candidates hleader hlocal] at hm
    exact of_decide_eq_true (mem_filter.1 hm).2 rfl

lemma mem_peers_of_route (h : n ∈ f.route topupSeq) : n ∈ f.peers := by
  rcases mem_append.1 h with h | h
  · cases hleader : f.leaderId with
    | none => simp only [leaderFirst, hleader, ite_self, not_mem_nil] at h
    | some l =>
      obtain ⟨rfl, hmem, _⟩ := (mem_leaderFirst hleader).1 h
      exact hmem
  · exact (mem_filter.1 (mem_rotate.1 h)).1

lemma length_le_card {s : Finset NodeId} {ns : List NodeId} (hn : ns.Nodup)
    (hsub : ∀ n ∈ ns, n ∈ s) : ns.length ≤ s.card := by
  rw [← toFinset_card_of_nodup hn]
  exact Finset.card_le_card fun n hm => hsub n (mem_toFinset.1 hm)

section
variable (h : f.Probed batch sent st)

include h

lemma Probed.mem_durable :
    n ∈ st.durable ↔ n = f.localNode ∨ n ∈ sent ∧ (f.probe n).durable = true := by
  rw [h.durable, Finset.mem_insert, mem_toFinset, mem_filter]

lemma Probed.nodup (hn : sent.Nodup) (hpeers : ∀ n ∈ sent, n ∈ f.peers) (again : NodeId → Bool) :
    (f.localNode :: (f.acked batch sent ++ st.rescuePool.filter again)).Nodup := by
  have hpool : st.rescuePool.Nodup := by
    rw [h.pool]
    exact hn.filter _
  have hlocal : f.localNode ∉ f.acked batch sent ++ st.rescuePool.filter again := by
    intro hm
    apply f.local_not_peer
    rcases mem_append.1 hm with hm | hm
    · exact hpeers _ (mem_filter.1 hm).1
    · have hpool := (mem_filter.1 hm).1
      rw [h.pool] at hpool
      exact hpeers _ (mem_filter.1 hpool).1
  refine nodup_cons.2 ⟨hlocal, (hn.filter _).append (hpool.filter _) ?_⟩
  intro n hack hm
  have hpool := (mem_filter.1 hm).1
  rw [h.pool] at hpool
  have hnot := (mem_filter.1 hpool).2
  rw [(mem_filter.1 hack).2] at hnot
  cases hnot

lemma Probed.card_durable (hn : sent.Nodup)
    (hpeers : ∀ n ∈ sent, n ∈ f.peers) : localAcks + st.peerAcks ≤ st.durable.card := by
  have hle := length_le_card (s := st.durable) (h.nodup hn hpeers fun _ => false) (by
    intro n hm
    rw [h.mem_durable]
    rcases mem_cons.1 hm with rfl | hm
    · exact .inl rfl
    · rcases mem_append.1 hm with hm | hm
      · obtain ⟨hsent, hack⟩ := mem_filter.1 hm
        exact .inr ⟨hsent, durable_of_fanOneBatch hack⟩
      · exact absurd (mem_filter.1 hm).2 Bool.false_ne_true)
  rw [length_cons, length_append, ← h.acks] at hle
  have hone : localAcks = 1 := rfl
  omega

lemma Probed.card_rescue (hn : sent.Nodup)
    (hpeers : ∀ n ∈ sent, n ∈ f.peers) (hdone : (f.rescueStage batch st).1 = true) :
    f.minAcks ≤ (f.rescueStage batch st).2.durable.card := by
  rw [rescueStage] at hdone ⊢
  split at hdone
  · rw [if_pos ‹_›]
    have hquorum := of_decide_eq_true hdone
    have hacks := rescueFanUntil_le (fun n => fanOneBatch batch (f.rescue n))
      (f.minAcks - (localAcks + st.peerAcks)) (f.completion st.rescuePool) 0
    rw [((f.completion_perm st.rescuePool).filter _).length_eq, zero_add] at hacks
    have hle := length_le_card
      (s := st.durable ∪ (st.rescuePool.filter fun n => (f.rescue n).durable).toFinset)
      (h.nodup hn hpeers fun n => fanOneBatch batch (f.rescue n)) (by
        intro n hm
        rw [Finset.mem_union, h.mem_durable, mem_toFinset, mem_filter]
        rcases mem_cons.1 hm with rfl | hm
        · exact .inl (.inl rfl)
        · rcases mem_append.1 hm with hm | hm
          · obtain ⟨hsent, hack⟩ := mem_filter.1 hm
            exact .inl (.inr ⟨hsent, durable_of_fanOneBatch hack⟩)
          · obtain ⟨hpool, hack⟩ := mem_filter.1 hm
            exact .inr ⟨hpool, durable_of_fanOneBatch hack⟩)
    rw [length_cons, length_append, ← h.acks] at hle
    have hone : localAcks = 1 := rfl
    simp only at hquorum ⊢
    omega
  · cases hdone

lemma Probed.mem_rescue (hlt : localAcks + st.peerAcks < f.minAcks) :
    n ∈ (f.rescueStage batch st).2.durable ↔ n ∈ st.durable ∨
      n ∈ sent ∧ fanOneBatch batch (f.probe n) = false ∧ (f.rescue n).durable = true := by
  have hpool : n ∈ st.rescuePool ↔ n ∈ sent ∧ fanOneBatch batch (f.probe n) = false := by
    rw [h.pool, mem_filter, Bool.not_eq_true']
  rw [rescueStage]
  split
  · rw [Finset.mem_union, mem_toFinset, mem_filter, hpool, and_assoc]
  · have hempty : st.rescuePool = [] := by
      by_contra hne
      have hnot : ¬(localAcks + st.peerAcks < f.minAcks ∧ st.rescuePool ≠ []) := ‹_›
      exact hnot ⟨hlt, hne⟩
    rw [hempty] at hpool
    refine (or_iff_left ?_).symm
    rintro ⟨hsent, hack, _⟩
    exact not_mem_nil (hpool.2 ⟨hsent, hack⟩)

end

def otherAcks (f : Fan) (batch : List WriteIntent) (l : NodeId) : Nat :=
  (f.acked batch (f.peers.filter fun n => decide (n ≠ l))).length

lemma length_acked_route (hleader : f.leaderId = some l) (hlocal : l ≠ f.localNode)
    (hack : fanOneBatch batch (f.probe l) = false) :
    (f.acked batch (f.route topupSeq)).length = f.otherAcks batch l := by
  have hfirst : f.acked batch f.leaderFirst = [] := by
    apply filter_eq_nil_iff.2
    intro n hn
    rw [((mem_leaderFirst hleader).1 hn).1, hack]
    exact Bool.false_ne_true
  rw [route, acked, filter_append, length_append, otherAcks, mem_candidates hleader hlocal]
  have hrotate := (rotate_perm (f.peers.filter fun n => decide (n ≠ l)) (topupSeq.toNat %
    (f.peers.filter fun n => decide (n ≠ l)).length)).filter
      fun n => fanOneBatch batch (f.probe n)
  rw [hrotate.length_eq]
  change (f.acked batch f.leaderFirst).length + _ = _
  rw [hfirst]
  exact zero_add _

lemma mem_fanOut (hmin : localAcks < f.minAcks) (hleader : f.leaderId = some l)
    (hlocal : l ≠ f.localNode) :
    l ∈ (f.fanOut topupSeq batch).2.1.durable ↔ l ∈ f.peers ∧ ((f.probe l).durable = true ∨
      (localAcks + f.otherAcks batch l < f.minAcks ∧ (f.rescue l).durable = true)) := by
  obtain ⟨sent, st, hfirst, hroute, hp, hcase⟩ := f.fanOut_spec topupSeq batch hmin
  have hsent : l ∈ sent ↔ l ∈ f.peers := by
    constructor
    · exact fun hm => mem_peers_of_route (hroute.subset hm)
    · exact fun hm => hfirst.subset ((mem_leaderFirst hleader).2 ⟨rfl, hm, hlocal⟩)
  have hle : (f.acked batch sent).length ≤ (f.acked batch (f.route topupSeq)).length :=
    (hroute.sublist.filter _).length_le
  have hmem : l ∈ st.durable ↔ l ∈ f.peers ∧ (f.probe l).durable = true := by
    rw [hp.mem_durable, hsent]
    exact or_iff_right hlocal
  rcases hcase with ⟨_, hst, hquorum⟩ | ⟨rfl, hlt, _, hst⟩
  · rw [hst, hmem]
    apply and_congr_right
    intro _
    refine (or_iff_left_of_imp ?_).symm
    rintro ⟨hless, _⟩
    by_contra hnot
    have hack : fanOneBatch batch (f.probe l) = false :=
      Bool.eq_false_iff.2 fun hack => hnot (durable_of_fanOneBatch hack)
    rw [length_acked_route hleader hlocal hack] at hle
    rw [hp.acks] at hquorum
    omega
  · rw [hst, hp.mem_rescue hlt, hmem, hsent, ← and_or_left]
    apply and_congr_right
    intro _
    by_cases hdurable : (f.probe l).durable = true
    · exact iff_of_true (.inl hdurable) (.inl hdurable)
    · have hack : fanOneBatch batch (f.probe l) = false :=
        Bool.eq_false_iff.2 fun hack => hdurable (durable_of_fanOneBatch hack)
      rw [hp.acks, length_acked_route hleader hlocal hack] at hlt
      rw [or_iff_right hdurable, or_iff_right hdurable]
      exact ⟨fun h => ⟨hlt, h.2⟩, fun h => ⟨hack, h.2⟩⟩

lemma card_fanOut (hmin : localAcks < f.minAcks) (hdone : (f.fanOut topupSeq batch).1 = true) :
    f.minAcks ≤ (f.fanOut topupSeq batch).2.1.durable.card := by
  obtain ⟨sent, st, _, hroute, hp, hcase⟩ := f.fanOut_spec topupSeq batch hmin
  have hn : sent.Nodup := (f.route_nodup topupSeq).sublist hroute.sublist
  have hpeers : ∀ n ∈ sent, n ∈ f.peers := fun n hm => mem_peers_of_route (hroute.subset hm)
  rcases hcase with ⟨_, hst, hquorum⟩ | ⟨_, _, hfst, hst⟩
  · rw [hst]
    exact hquorum.trans (hp.card_durable hn hpeers)
  · rw [hst]
    exact hp.card_rescue hn hpeers (hfst ▸ hdone)

lemma local_mem_fanOut (hmin : localAcks < f.minAcks) :
    f.localNode ∈ (f.fanOut topupSeq batch).2.1.durable := by
  obtain ⟨sent, st, _, _, hp, hcase⟩ := f.fanOut_spec topupSeq batch hmin
  have hmem := hp.mem_durable.2 (.inl rfl)
  rcases hcase with ⟨_, hst, _⟩ | ⟨_, hlt, _, hst⟩
  · rwa [hst]
  · rw [hst, hp.mem_rescue hlt]
    exact .inl hmem

lemma ok_cases (hok : .ok () ∈ (f.flushBatch topupSeq batch).acks) :
    (f.minAcks ≤ localAcks ∧ (f.flushBatch topupSeq batch).durable = {f.localNode}) ∨
      (localAcks < f.minAcks ∧ (f.fanOut topupSeq batch).1 = true ∧
        (f.flushBatch topupSeq batch).durable = (f.fanOut topupSeq batch).2.1.durable) := by
  rw [flushBatch] at hok ⊢
  split at hok
  · obtain ⟨_, _, h⟩ := mem_map.1 hok
    cases h
  · rw [if_neg ‹_›]
    split at hok
    · obtain ⟨_, _, h⟩ := mem_map.1 hok
      cases h
    · rw [if_neg ‹_›]
      split at hok
      · rw [if_pos ‹_›]
        exact .inl ⟨‹_›, rfl⟩
      · rw [if_neg ‹_›]
        obtain ⟨_, _, h⟩ := mem_map.1 hok
        refine .inr ⟨Nat.lt_of_not_le ‹_›, ?_, rfl⟩
        by_contra hnot
        rw [if_neg hnot] at h
        cases h

/-- An acked batch reaches the leader exactly if it is local, probed or rescued. -/
theorem acked_fan_on_leader_iff (f : Fan) (topupSeq : UInt64) (batch : List WriteIntent)
    (l : NodeId) (hok : .ok () ∈ (f.flushBatch topupSeq batch).acks)
    (hleader : f.leaderId = some l) :
    (l ∈ (f.flushBatch topupSeq batch).durable ∧
        f.minAcks ≤ (f.flushBatch topupSeq batch).durable.card) ↔
      l = f.localNode ∨ (localAcks < f.minAcks ∧ l ∈ f.peers ∧ ((f.probe l).durable = true ∨
        (localAcks + f.otherAcks batch l < f.minAcks ∧ (f.rescue l).durable = true))) := by
  rcases ok_cases hok with ⟨hmin, hdurable⟩ | ⟨hmin, hdone, hdurable⟩
  · have hcard : f.minAcks ≤ ({f.localNode} : Finset NodeId).card := hmin
    rw [hdurable, Finset.mem_singleton, and_iff_left hcard]
    exact (or_iff_left fun h => absurd h.1 (not_lt.2 hmin)).symm
  · rw [hdurable, and_iff_left (card_fanOut hmin hdone)]
    by_cases hlocal : l = f.localNode
    · rw [hlocal]
      exact iff_of_true (local_mem_fanOut hmin) (.inl rfl)
    · rw [mem_fanOut hmin hleader hlocal, or_iff_right hlocal, and_iff_right hmin]

def threeVoters (probe : NodeId → Delivery) : Fan where
  shardId := ⟨.replicate 16 0⟩
  localNode := 1
  minAcks := 2
  peers := [2, 3]
  leaderId := some 2
  encodes := true
  localPut := true
  probe := probe
  rescue := fun _ => .refused
  completion := id
  completion_perm := fun _ => .refl _
  peers_nodup := by decide
  local_not_peer := by decide

theorem acked_fan_on_leader_iff_late_reply : let f := threeVoters fun n => .applied (decide (n = 3))
    (2 : NodeId) ∈ (f.flushBatch 0 [plainIntent 5]).durable ∧
      f.minAcks ≤ (f.flushBatch 0 [plainIntent 5]).durable.card :=
  (acked_fan_on_leader_iff _ _ _ _ (.head _) rfl).2 (.inr ⟨by decide, by decide, .inl rfl⟩)

/-- The leader refuses, the top-up acks, and so does the batch. -/
theorem batch_acked_without_leader :
    let f := threeVoters fun n => if n = 2 then .refused else .applied true
    f.leaderId = some 2 ∧ (f.flushBatch 0 [plainIntent 5]).acks = [.ok ()] ∧
      (2 : NodeId) ∉ (f.flushBatch 0 [plainIntent 5]).durable :=
  ⟨rfl, rfl, by decide⟩

end Fan

end Kiseki.Intent
