import Kiseki.Raft.NoHoles
import Kiseki.Lib.Journal

namespace Kiseki.Raft

open Function List

/-- How a store that is not in the eventual mode makes its commits durable. -/
inductive Durability where
  | syncAll
  | coalescing (maxBatch : Nat)
deriving DecidableEq, Repr

structure Pool where
  waiters : List Nat := []
  drainScheduled : Bool := false
deriving DecidableEq, Repr

/-- No waiters to drain inline, or all of them. -/
structure Joined where
  pool : Pool
  trigger : List Nat
  spawned : Bool
deriving DecidableEq, Repr

def Pool.flush (maxBatch : Nat) (pool : Pool) (tx : Nat) : Joined :=
  if max maxBatch 1 ≤ (pool.waiters ++ [tx]).length then ⟨⟨[], false⟩, pool.waiters ++ [tx], false⟩
  else ⟨⟨pool.waiters ++ [tx], true⟩, [], !pool.drainScheduled⟩

def Pool.timerDrain (pool : Pool) : Pool × List Nat := (⟨[], false⟩, pool.waiters)

structure Drain where
  waiters : List Nat
  mark : Option Nat
deriving DecidableEq, Repr

inductive Stage where
  | committed
  | waiting
  | notified
deriving DecidableEq, Repr

/-- Its position is the length of the journal after its batch. -/
inductive CallState (E : Type) where
  | fresh
  | active (stage : Stage) (batch : Batch E) (pos : Nat)
  | done

structure Promise (E : Type) where
  batch : Batch E
  later : List (Batch E)

structure Node (E : Type) where
  journal : Journal (Batch E) := {}
  pool : Pool := {}
  timers : Nat := 0
  drains : Nat → Option Drain := fun _ => none
  calls : Nat → CallState E := fun _ => .fresh
  promises : List (Promise E) := []

def Batch.isEmpty : Batch E → Bool
  | .insert entries => entries.isEmpty
  | .remove keys => keys.isEmpty
  | _ => false

def Batch.isAppend : Batch E → Bool
  | .insert _ => true
  | _ => false

def Batch.WellFormed [RaftEntry E] : Batch E → Prop
  | .insert entries => ∃ n, Consecutive n entries
  | _ => True

def CallState.isFresh : CallState E → Bool
  | .fresh => true
  | _ => false

def commitTo (j : Journal (Batch E)) (b : Batch E) : Journal (Batch E) :=
  if b.isEmpty then j else j.write b

def Promise.after (b : Batch E) (p : Promise E) : Promise E := { p with later := p.later ++ [b] }

def Node.commit (s : Node E) (c : Nat) (b : Batch E) : Node E :=
  { s with
    journal := commitTo s.journal b
    calls := update s.calls c
      (.active .committed b (commitTo s.journal b).batches.length)
    promises := s.promises.map (Promise.after b) }

def Node.stop (s : Node E) (c : Nat) : Node E :=
  { s with calls := update s.calls c .done }

def Node.finish (s : Node E) (c : Nat) (b : Batch E) (pos : Nat) : Node E :=
  { s.stop c with promises := ⟨b, s.journal.batches.drop pos⟩ :: s.promises }

def startDrain (drains : Nat → Option Drain) (i : Nat) (ws : List Nat) : Nat → Option Drain :=
  if ws = [] then drains else update drains i (some ⟨ws, none⟩)

def CallState.notify (persisted : Bool) : CallState E → CallState E
  | .active .waiting b pos => if persisted then .active .notified b pos else .done
  | st => st

def notifyAll (calls : Nat → CallState E) (ws : List Nat) (persisted : Bool) : Nat → CallState E :=
  fun c => if c ∈ ws then (calls c).notify persisted else calls c

/-- What happens on a store, with a condition on commits. -/
inductive NodeStep [RaftEntry E] (mode : Durability) (ok : Node E → Batch E → Prop) :
    Node E → Node E → Prop
  | commit (c : Nat) (b : Batch E) (h : s.calls c = .fresh) (hwf : b.WellFormed) (hok : ok s b) :
      NodeStep mode ok s (s.commit c b)
  | sync (hmode : mode = .syncAll) (h : s.calls c = .active .committed b pos) :
      NodeStep mode ok s (Node.finish { s with journal := s.journal.syncAll } c b pos)
  | syncFailed (hmode : mode = .syncAll) (h : s.calls c = .active .committed b pos) :
      NodeStep mode ok s (s.stop c)
  | ret (hmode : mode = .coalescing maxBatch) (h : s.calls c = .active .committed b pos)
      (hb : b.isAppend = false) :
      NodeStep mode ok s (s.finish c b pos)
  | flush (i : Nat) (hmode : mode = .coalescing maxBatch)
      (h : s.calls c = .active .committed b pos) (hb : b.isAppend = true)
      (hi : s.drains i = none) :
      NodeStep mode ok s { s with
        pool := (s.pool.flush maxBatch c).pool
        timers := s.timers + (s.pool.flush maxBatch c).spawned.toNat
        drains := startDrain s.drains i (s.pool.flush maxBatch c).trigger
        calls := update s.calls c (.active .waiting b pos) }
  | timer (i : Nat) (ht : s.timers = t + 1) (hi : s.drains i = none) :
      NodeStep mode ok s { s with
        pool := s.pool.timerDrain.1
        timers := t
        drains := startDrain s.drains i s.pool.timerDrain.2 }
  | persistStart (h : s.drains i = some ⟨ws, none⟩) :
      NodeStep mode ok s { s with
        drains := update s.drains i (some ⟨ws, some s.journal.batches.length⟩) }
  | persistOk (h : s.drains i = some ⟨ws, some mark⟩) :
      NodeStep mode ok s { s with
        journal := s.journal.persist mark
        drains := update s.drains i none
        calls := notifyAll s.calls ws true }
  | persistErr (h : s.drains i = some ⟨ws, some mark⟩) :
      NodeStep mode ok s { s with
        drains := update s.drains i none
        calls := notifyAll s.calls ws false }
  | signal (h : s.calls c = .active .notified b pos) : NodeStep mode ok s (s.finish c b pos)
  | cancel (h : s.calls c = .active .waiting b pos) : NodeStep mode ok s (s.stop c)
  | crash (n : Nat) (hn : s.journal.Survives n) :
      NodeStep mode ok s
        { journal := s.journal.cut n
          calls := fun c => if (s.calls c).isFresh then .fresh else .done
          promises := s.promises }

def Draining (drains : Nat → Option Drain) (c : Nat) : Prop :=
  ∃ i drain, drains i = some drain ∧ c ∈ drain.waiters

structure Served (pool : Pool) (timers : Nat) (drains : Nat → Option Drain)
    (calls : Nat → CallState E) : Prop where
  scheduled : pool.waiters ≠ [] → pool.drainScheduled = true
  timer : pool.drainScheduled = true → 0 < timers
  waiting : ∀ c b pos, calls c = .active .waiting b pos → c ∈ pool.waiters ∨ Draining drains c

section
variable {pool : Pool} {timers : Nat} {drains : Nat → Option Drain} {calls : Nat → CallState E}
  {c i : Nat} {ws : List Nat}

lemma Pool.mem_flush {maxBatch tx : Nat} (h : c ∈ pool.waiters ++ [tx]) :
    c ∈ (pool.flush maxBatch tx).pool.waiters ∨ c ∈ (pool.flush maxBatch tx).trigger := by
  rw [flush]
  split
  · exact .inr h
  · exact .inl h

lemma Pool.mem_of_flush {maxBatch tx : Nat}
    (h : c ∈ (pool.flush maxBatch tx).pool.waiters ∨ c ∈ (pool.flush maxBatch tx).trigger) :
    c ∈ pool.waiters ++ [tx] := by
  rw [flush] at h
  split at h
  · exact h.resolve_left not_mem_nil
  · exact h.resolve_right not_mem_nil

lemma Draining.startDrain (h : Draining drains c) (hi : drains i = none) :
    Draining (startDrain drains i ws) c := by
  obtain ⟨k, drain, hk, hc⟩ := h
  rw [Raft.startDrain]
  split
  · exact ⟨k, drain, hk, hc⟩
  · have hne : k ≠ i := by
      intro heq
      rw [heq, hi] at hk
      cases hk
    exact ⟨k, drain, (update_of_ne hne _ _).trans hk, hc⟩

lemma draining_of_mem (h : c ∈ ws) : Draining (startDrain drains i ws) c := by
  rw [startDrain, if_neg (ne_nil_of_mem h)]
  exact ⟨i, _, update_self i _ _, h⟩

lemma startDrain_eq {k : Nat} {drain : Drain} (h : startDrain drains i ws k = some drain) :
    drains k = some drain ∨ drain = ⟨ws, none⟩ := by
  rw [startDrain] at h
  split at h
  · exact .inl h
  · by_cases hk : k = i
    · rw [hk, update_self] at h
      exact .inr (Option.some.inj h).symm
    · rw [update_of_ne hk] at h
      exact .inl h

section
variable (h : Served pool timers drains calls)

include h

lemma Served.setCall {st : CallState E} (hst : ∀ b pos, st ≠ .active .waiting b pos) :
    Served pool timers drains (update calls c st) := by
  refine ⟨h.scheduled, h.timer, ?_⟩
  exact (forall_update_iff calls fun c' st => ∀ b pos, st = .active .waiting b pos →
    c' ∈ pool.waiters ∨ Draining drains c').2
    ⟨fun b pos heq => absurd heq (hst b pos), fun c' _ => h.waiting c'⟩

lemma Served.flush (maxBatch c : Nat) (b : Batch E) (pos : Nat) (hi : drains i = none) :
    Served (pool.flush maxBatch c).pool (timers + (pool.flush maxBatch c).spawned.toNat)
      (startDrain drains i (pool.flush maxBatch c).trigger)
      (update calls c (.active .waiting b pos)) := by
  refine ⟨?_, ?_, ?_⟩
  · intro hne
    rw [Pool.flush] at hne ⊢
    split
    · rw [if_pos ‹_›] at hne
      exact absurd rfl hne
    · rfl
  · intro hsched
    rw [Pool.flush] at hsched ⊢
    split
    · rw [if_pos ‹_›] at hsched
      cases hsched
    · cases hold : pool.drainScheduled with
      | false => exact Nat.succ_pos timers
      | true => exact Nat.lt_of_lt_of_le (h.timer hold) (Nat.le_add_right _ _)
  · intro c' b' pos' hc'
    have hplace : c' ∈ pool.waiters ++ [c] ∨ Draining drains c' := by
      by_cases heq : c' = c
      · exact .inl (heq ▸ mem_append_right _ mem_cons_self)
      · rw [update_of_ne heq] at hc'
        exact (h.waiting c' b' pos' hc').imp_left fun hmem => mem_append_left _ hmem
    rcases hplace with hmem | hdrain
    · exact (Pool.mem_flush hmem).imp_right draining_of_mem
    · exact .inr (hdrain.startDrain hi)

lemma Served.timerDrain (t : Nat) (hi : drains i = none) :
    Served pool.timerDrain.1 t (startDrain drains i pool.timerDrain.2) calls := by
  refine ⟨fun hne => absurd rfl hne, fun hsched => Bool.noConfusion hsched, ?_⟩
  intro c b pos hc
  rcases h.waiting c b pos hc with hmem | hdrain
  · exact .inr (draining_of_mem hmem)
  · exact .inr (hdrain.startDrain hi)

lemma Served.persistStart (hi : drains i = some ⟨ws, none⟩)
    (mark : Nat) : Served pool timers (update drains i (some ⟨ws, some mark⟩)) calls := by
  refine ⟨h.scheduled, h.timer, ?_⟩
  intro c b pos hc
  refine (h.waiting c b pos hc).imp_right fun hdrain => ?_
  obtain ⟨k, drain, hk, hmem⟩ := hdrain
  by_cases heq : k = i
  · rw [heq, hi] at hk
    cases hk
    exact ⟨i, _, update_self i _ _, hmem⟩
  · exact ⟨k, drain, (update_of_ne heq _ _).trans hk, hmem⟩

end

lemma CallState.notify_ne_waiting (st : CallState E) (persisted : Bool) (b : Batch E)
    (pos : Nat) : st.notify persisted ≠ .active .waiting b pos := by
  cases st with
  | fresh => exact nofun
  | done => exact nofun
  | active stage b' pos' => cases stage <;> cases persisted <;> exact nofun

lemma Served.notifyAll {mark : Option Nat} (h : Served pool timers drains calls)
    (hi : drains i = some ⟨ws, mark⟩) (persisted : Bool) :
    Served pool timers (update drains i none) (notifyAll calls ws persisted) := by
  refine ⟨h.scheduled, h.timer, ?_⟩
  intro c b pos hc
  rw [Raft.notifyAll] at hc
  split at hc
  · exact absurd hc (CallState.notify_ne_waiting _ _ _ _)
  · rename_i hnot
    refine (h.waiting c b pos hc).imp_right fun hdrain => ?_
    obtain ⟨k, drain, hk, hmem⟩ := hdrain
    have hne : k ≠ i := by
      intro heq
      rw [heq, hi] at hk
      cases hk
      exact hnot hmem
    exact ⟨k, drain, (update_of_ne hne _ _).trans hk, hmem⟩

def Node.Served (s : Node E) : Prop := Raft.Served s.pool s.timers s.drains s.calls

variable [RaftEntry E] {mode : Durability} {ok : Node E → Batch E → Prop} {s s' : Node E}

lemma NodeStep.served (hstep : NodeStep mode ok s s') (h : s.Served) : s'.Served := by
  cases hstep with
  | commit => exact Raft.Served.setCall h nofun
  | sync => exact Raft.Served.setCall h nofun
  | syncFailed => exact Raft.Served.setCall h nofun
  | ret => exact Raft.Served.setCall h nofun
  | flush i hmode hc hb hi => exact Raft.Served.flush h _ _ _ _ hi
  | timer i ht hi => exact Raft.Served.timerDrain h _ hi
  | persistStart hi => exact Raft.Served.persistStart h hi _
  | persistOk hi => exact Raft.Served.notifyAll h hi true
  | persistErr hi => exact Raft.Served.notifyAll h hi false
  | signal => exact Raft.Served.setCall h nofun
  | cancel => exact Raft.Served.setCall h nofun
  | crash n hn =>
    refine ⟨fun hne => absurd rfl hne, fun hsched => Bool.noConfusion hsched, ?_⟩
    intro c b pos hc
    dsimp only at hc
    split at hc <;> cases hc

end

end Kiseki.Raft
