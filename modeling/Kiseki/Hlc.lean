import Kiseki.Common
import Kiseki.Lib.Causality

namespace Kiseki
open Causality Function Relation

structure HlcExhausted where
deriving DecidableEq, Repr

namespace HybridLogicalClock
variable {h remote c : HybridLogicalClock} {p now : UInt64} {l : UInt32} {n : NodeId}

def zero (nodeId : NodeId) : HybridLogicalClock := ⟨0, 0, nodeId⟩

def checkedSucc32 (x : UInt32) : Option UInt32 :=
  if x.toNat + 1 < 2 ^ 32 then some (x + 1) else none

def checkedSucc64 (x : UInt64) : Option UInt64 :=
  if x.toNat + 1 < 2 ^ 64 then some (x + 1) else none

/-- The logical part counts up, the physical one on its overflow. -/
def countUp (physicalMs : UInt64) (logical : UInt32) (nodeId : NodeId) :
    Except HlcExhausted HybridLogicalClock :=
  match checkedSucc32 logical with
  | some next => .ok ⟨physicalMs, next, nodeId⟩
  | none =>
    match checkedSucc64 physicalMs with
    | some nextPhys => .ok ⟨nextPhys, 0, nodeId⟩
    | none => .error {}

def tick (self : HybridLogicalClock) (nowPhysicalMs : UInt64) :
    Except HlcExhausted HybridLogicalClock :=
  if nowPhysicalMs > self.physicalMs then
    .ok { self with physicalMs := nowPhysicalMs, logical := 0 }
  else
    countUp self.physicalMs self.logical self.nodeId

def merge (self remote : HybridLogicalClock) (nowPhysicalMs : UInt64) :
    Except HlcExhausted HybridLogicalClock :=
  let physPrime := max (max self.physicalMs remote.physicalMs) nowPhysicalMs
  if physPrime = self.physicalMs ∧ physPrime = remote.physicalMs then
    countUp physPrime (max self.logical remote.logical) self.nodeId
  else if physPrime = self.physicalMs then
    countUp physPrime self.logical self.nodeId
  else if physPrime = remote.physicalMs then
    countUp physPrime remote.logical self.nodeId
  else
    .ok ⟨physPrime, 0, self.nodeId⟩

def time (h : HybridLogicalClock) : ℕ ×ₗ ℕ :=
  toLex (h.physicalMs.toNat, h.logical.toNat)

def Saturated (h : HybridLogicalClock) : Prop :=
  h.physicalMs.toNat = 2 ^ 64 - 1 ∧ h.logical.toNat = 2 ^ 32 - 1

lemma time_lt_iff : h.time < c.time ↔ h.physicalMs.toNat < c.physicalMs.toNat ∨
    h.physicalMs.toNat = c.physicalMs.toNat ∧ h.logical.toNat < c.logical.toNat :=
  Prod.Lex.toLex_lt_toLex

lemma lt_of_time_lt (hlt : h.time < c.time) : h < c := by
  apply Prod.Lex.toLex_lt_toLex.2
  rcases time_lt_iff.1 hlt with hphys | ⟨hphys, hlogical⟩
  · exact .inl hphys
  · exact .inr ⟨hphys, Prod.Lex.toLex_lt_toLex.2 (.inl hlogical)⟩

lemma checkedSucc32_eq_some {x y : UInt32} (h : checkedSucc32 x = some y) :
    y.toNat = x.toNat + 1 := by
  rw [checkedSucc32] at h
  split at h
  · obtain rfl := Option.some.inj h
    rw [UInt32.toNat_add, UInt32.toNat_one, Nat.mod_eq_of_lt ‹_›]
  · cases h

lemma checkedSucc64_eq_some {x y : UInt64} (h : checkedSucc64 x = some y) :
    y.toNat = x.toNat + 1 := by
  rw [checkedSucc64] at h
  split at h
  · obtain rfl := Option.some.inj h
    rw [UInt64.toNat_add, UInt64.toNat_one, Nat.mod_eq_of_lt ‹_›]
  · cases h

lemma countUp_ok (h : countUp p l n = .ok c) : time ⟨p, l, n⟩ < c.time ∧ c.nodeId = n := by
  rw [countUp] at h
  split at h
  · rename_i next hnext
    cases h
    have := checkedSucc32_eq_some hnext
    exact ⟨time_lt_iff.2 (.inr ⟨rfl, by dsimp only; omega⟩), rfl⟩
  · split at h
    · rename_i next hnext
      cases h
      have := checkedSucc64_eq_some hnext
      exact ⟨time_lt_iff.2 (.inl (by dsimp only; omega)), rfl⟩
    · cases h

lemma countUp_error {e : HlcExhausted} :
    countUp p l n = .error e ↔ p.toNat = 2 ^ 64 - 1 ∧ l.toNat = 2 ^ 32 - 1 := by
  have hp := p.toNat_lt
  have hl := l.toNat_lt
  rw [countUp, checkedSucc32, checkedSucc64]
  by_cases hlogical : l.toNat + 1 < 2 ^ 32
  · rw [if_pos hlogical]
    apply iff_of_false
    · intro h
      cases h
    · omega
  · rw [if_neg hlogical]
    by_cases hphys : p.toNat + 1 < 2 ^ 64
    · rw [if_pos hphys]
      apply iff_of_false
      · intro h
        cases h
      · omega
    · rw [if_neg hphys]
      apply iff_of_true rfl
      omega

lemma tick_ok (hok : h.tick now = .ok c) : h.time < c.time ∧ c.nodeId = h.nodeId := by
  rw [tick] at hok
  split at hok
  · cases hok
    exact ⟨time_lt_iff.2 (.inl (UInt64.lt_iff_toNat_lt.1 ‹_›)), rfl⟩
  · exact countUp_ok hok

lemma tick_error {e : HlcExhausted} : h.tick now = .error e ↔ h.Saturated := by
  have hnow := now.toNat_lt
  rw [tick, Saturated]
  split
  · rename_i hgt
    have := UInt64.lt_iff_toNat_lt.1 hgt
    apply iff_of_false
    · intro h
      cases h
    · omega
  · exact countUp_error

lemma merge_eq (h remote : HybridLogicalClock) (now : UInt64) :
    (∃ p l, h.time ≤ toLex (p.toNat, l.toNat) ∧ remote.time ≤ toLex (p.toNat, l.toNat) ∧
      (h.time = toLex (p.toNat, l.toNat) ∨ remote.time = toLex (p.toNat, l.toNat)) ∧
      h.merge remote now = countUp p l h.nodeId) ∨
    ∃ p, h.physicalMs.toNat < p.toNat ∧ remote.physicalMs.toNat < p.toNat ∧
      h.merge remote now = .ok ⟨p, 0, h.nodeId⟩ := by
  have hp : (max (max h.physicalMs remote.physicalMs) now).toNat =
      max (max h.physicalMs.toNat remote.physicalMs.toNat) now.toNat := by
    rw [UInt64.toNat_max, UInt64.toNat_max]
  have hl : (max h.logical remote.logical).toNat = max h.logical.toNat remote.logical.toNat :=
    UInt32.toNat_max _ _
  simp only [merge, time, Prod.Lex.toLex_le_toLex, toLex_inj, Prod.mk.injEq, ← UInt64.toNat_inj]
  generalize max (max h.physicalMs remote.physicalMs) now = p at hp ⊢
  generalize max h.logical remote.logical = l at hl ⊢
  split
  · exact .inl ⟨p, l, by omega, by omega, by omega, rfl⟩
  · split
    · exact .inl ⟨p, h.logical, by omega, by omega, by omega, rfl⟩
    · split
      · exact .inl ⟨p, remote.logical, by omega, by omega, by omega, rfl⟩
      · exact .inr ⟨p, by omega, by omega, rfl⟩

lemma merge_ok (hok : h.merge remote now = .ok c) :
    h.time < c.time ∧ remote.time < c.time ∧ c.nodeId = h.nodeId := by
  rcases h.merge_eq remote now with ⟨p, l, hself, hremote, _, heq⟩ | ⟨p, hself, hremote, heq⟩
  · obtain ⟨hcount, hnode⟩ := countUp_ok (heq.symm.trans hok)
    exact ⟨hself.trans_lt hcount, hremote.trans_lt hcount, hnode⟩
  · cases heq.symm.trans hok
    exact ⟨time_lt_iff.2 (.inl hself), time_lt_iff.2 (.inl hremote), rfl⟩

lemma merge_error {e : HlcExhausted} :
    h.merge remote now = .error e ↔ h.Saturated ∨ remote.Saturated := by
  rcases h.merge_eq remote now with ⟨p, l, hle, hle', hor, heq⟩ | ⟨p, hlt, hlt', heq⟩
  · have hp := p.toNat_lt
    have hl := l.toNat_lt
    have hself := h.physicalMs.toNat_lt
    have hremote := remote.physicalMs.toNat_lt
    have hself' := h.logical.toNat_lt
    have hremote' := remote.logical.toNat_lt
    rw [heq, countUp_error, Saturated, Saturated]
    simp only [time, Prod.Lex.toLex_le_toLex, toLex_inj, Prod.mk.injEq] at hle hle' hor
    omega
  · have hp := p.toNat_lt
    rw [heq, Saturated, Saturated]
    apply iff_of_false
    · intro herror
      cases herror
    · omega

end HybridLogicalClock

structure Cluster (N : Type) where
  start : N → HybridLogicalClock
  distinct : Injective fun n => (start n).nodeId

namespace Cluster
variable {N : Type}

structure State (N : Type) where
  clock : N → HybridLogicalClock
  events : List (Event N HybridLogicalClock)

def init (cluster : Cluster N) : State N := ⟨cluster.start, []⟩

variable [DecidableEq N]

def State.issue (s : State N) (node : N) (stamp : HybridLogicalClock) (received : Option Nat) :
    State N where
  clock := update s.clock node stamp
  events := s.events ++ [⟨node, stamp, received⟩]

/-- A send ticks, a receipt merges; the clock readings are arbitrary. -/
inductive Step : State N → State N → Prop
  | tick (node : N) (now : UInt64) (hok : (s.clock node).tick now = .ok stamp) :
    Step s (s.issue node stamp none)
  | receive (node : N) (now : UInt64) (i : Nat) (hsent : s.events[i]? = some sent)
    (hok : (s.clock node).merge sent.stamp now = .ok stamp) :
    Step s (s.issue node stamp (some i))

/-- Stamps rise, carry their node, and are not ahead of its clock. -/
structure State.Causal (s : State N) (cluster : Cluster N) : Prop where
  rising : Rising s.events
  stamped : ∀ a ∈ s.events, a.stamp.nodeId = (cluster.start a.node).nodeId ∧
    a.stamp ≤ s.clock a.node
  clock : ∀ n, (s.clock n).nodeId = (cluster.start n).nodeId

omit [DecidableEq N] in
lemma causal_init (cluster : Cluster N) : cluster.init.Causal cluster where
  rising := .nil
  stamped := by
    intro a ha
    exact absurd ha List.not_mem_nil
  clock := fun _ => rfl

variable {cluster : Cluster N} {s s' : State N}

lemma State.Causal.issue {node : N} {stamp : HybridLogicalClock} {received : Option Nat}
    (h : s.Causal cluster) (hlt : s.clock node < stamp)
    (hnode : stamp.nodeId = (s.clock node).nodeId)
    (hreceived : ∀ i, received = some i → ∃ a, s.events[i]? = some a ∧ a.stamp < stamp) :
    (s.issue node stamp received).Causal cluster := by
  constructor
  · apply Rising.snoc h.rising
    constructor
    · intro a ha hsame
      obtain rfl : a.node = node := hsame
      exact (h.stamped a ha).2.trans_lt hlt
    · exact hreceived
  · intro a ha
    simp only [State.issue, update_apply]
    rcases List.mem_append.1 ha with ha | ha
    · obtain ⟨hid, hle⟩ := h.stamped a ha
      apply And.intro hid
      split
      · rename_i hsame
        rw [hsame] at hle
        exact hle.trans hlt.le
      · exact hle
    · obtain rfl := List.mem_singleton.1 ha
      rw [if_pos rfl]
      exact ⟨hnode.trans (h.clock node), le_rfl⟩
  · intro n
    simp only [State.issue, update_apply]
    split
    · rename_i hsame
      rw [hsame]
      exact hnode.trans (h.clock node)
    · exact h.clock n

lemma State.Causal.step (h : s.Causal cluster) (hstep : Step s s') : s'.Causal cluster := by
  cases hstep with
  | tick node now hok =>
    obtain ⟨hlt, hnode⟩ := HybridLogicalClock.tick_ok hok
    apply h.issue (HybridLogicalClock.lt_of_time_lt hlt) hnode
    intro i hi
    cases hi
  | receive node now i hsent hok =>
    obtain ⟨hself, hremote, hnode⟩ := HybridLogicalClock.merge_ok hok
    apply h.issue (HybridLogicalClock.lt_of_time_lt hself) hnode
    intro j hj
    obtain rfl := Option.some.inj hj
    exact ⟨_, hsent, HybridLogicalClock.lt_of_time_lt hremote⟩

lemma State.Causal.run (h : s.Causal cluster) (hrun : ReflTransGen Step s s') :
    s'.Causal cluster := by
  induction hrun with
  | refl => exact h
  | tail _ hstep ih => exact ih.step hstep

/-- Stamps rise along happened-before, and none is given twice. -/
theorem hlc_causality (hrun : ReflTransGen Step cluster.init s) :
    (∀ (i j : Nat) (a b : Event N HybridLogicalClock),
        s.events[i]? = some a → s.events[j]? = some b →
          (i < j → a.node = b.node → a.stamp < b.stamp) ∧
            (HappenedBefore s.events i j → a.stamp < b.stamp) ∧ (i ≠ j → a.stamp ≠ b.stamp)) ∧
      (∀ (self remote : HybridLogicalClock) (now : UInt64) (c : HybridLogicalClock),
        self.merge remote now = .ok c → self.time < c.time ∧ remote.time < c.time) ∧
      (∀ (self : HybridLogicalClock) (now : UInt64),
        self.tick now = .error {} ↔ self.Saturated) ∧
      ∀ (self remote : HybridLogicalClock) (now : UInt64),
        self.merge remote now = .error {} ↔ self.Saturated ∨ remote.Saturated := by
  have h := (causal_init cluster).run hrun
  constructor
  · intro i j a b hi hj
    apply And.intro fun hlt hnode => h.rising.own hlt hi hj hnode
    apply And.intro fun hbefore => h.rising.happenedBefore hbefore hi hj
    intro hne
    apply h.rising.stamp_ne _ hne hi hj
    intro a ha b hb hstamp
    apply cluster.distinct
    dsimp only
    rw [← (h.stamped a ha).1, ← (h.stamped b hb).1, hstamp]
  · apply And.intro
    · intro self remote now c hok
      obtain ⟨hself, hremote, _⟩ := HybridLogicalClock.merge_ok hok
      exact ⟨hself, hremote⟩
    · exact ⟨fun self now => HybridLogicalClock.tick_error,
        fun self remote now => HybridLogicalClock.merge_error⟩

def pair : Cluster Bool where
  start := fun n => .zero (if n then 1 else 0)
  distinct := by decide

def exchange : State Bool :=
  (pair.init.issue false ⟨7, 0, 0⟩ none).issue true ⟨7, 1, 1⟩ (some 0)

theorem hlc_causality_exchange :
    exchange.events[0]? = some ⟨false, ⟨7, 0, 0⟩, none⟩ ∧
      exchange.events[1]? = some ⟨true, ⟨7, 1, 1⟩, some 0⟩ ∧
      (⟨7, 0, 0⟩ : HybridLogicalClock) < ⟨7, 1, 1⟩ := by
  have hrun : ReflTransGen Step pair.init exchange :=
    .tail (.single (.tick false 7 rfl)) (.receive true 3 0 rfl rfl)
  have hbefore : HappenedBefore exchange.events 0 1 :=
    .single ⟨Nat.zero_lt_one, _, _, rfl, rfl, .inr rfl⟩
  exact ⟨rfl, rfl, (((hlc_causality hrun).1 0 1 _ _ rfl rfl).2.1 hbefore)⟩

end Cluster

end Kiseki
