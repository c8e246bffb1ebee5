import Kiseki.Raft.Reads

namespace Kiseki.Raft

open Std.ExtTreeMap List Nat

instance : RaftEntry (Entry Cmd) := ⟨Entry.logId⟩

def isCommand (e : Entry Cmd) : Bool :=
  match e.payload with
  | .normal _ => true
  | _ => false

/-- What the consensus library sees; entries are applied at clock readings. -/
structure Machine (Cmd S Image : Type) where
  Fresh : S → Prop
  applyEntry : S → Entry Cmd → Nat → S
  getCurrentSnapshot : S → Option (Snapshot Image)
  installSnapshot : S → Snapshot Image → S

/-- Log store, machine, next and snapshot index, and all committed entries. -/
structure Runtime (Cmd S : Type) where
  disk : LogDisk (Entry Cmd) := {}
  sm : S
  next : Nat := 0
  covered : Nat := 0
  committed : List (Entry Cmd) := []
  base : S
  trace : List (Entry Cmd × Nat) := []

def LogDisk.retained (d : LogDisk E) (first next : Nat) : List E :=
  (d.log.toList.filter fun row => decide (first ≤ row.1 ∧ row.1 < next)).map Prod.snd

section
variable {Cmd S Image : Type}

def Machine.run (m : Machine Cmd S Image) (s : S) (trace : List (Entry Cmd × Nat)) : S :=
  trace.foldl (fun s p => m.applyEntry s p.1 p.2) s

def Machine.resume (m : Machine Cmd S Image) (fresh : S) : S × Nat :=
  match m.getCurrentSnapshot fresh with
  | none => (fresh, 0)
  | some snapshot => (m.installSnapshot fresh snapshot, nextIndex snapshot.lastLogId)

def Machine.restart (m : Machine Cmd S Image) (s : Runtime Cmd S) (fresh : S) (clock : Nat → Nat) :
    Runtime Cmd S :=
  let base := m.resume fresh
  let trace := (s.disk.retained base.2 s.next).map fun e => (e, clock (indexOf e))
  { s with sm := m.run base.1 trace, covered := 0, base := base.1, trace := trace }

inductive Machine.Step (m : Machine Cmd S Image) (ok : Runtime Cmd S → Prop) :
    Runtime Cmd S → Runtime Cmd S → Prop
  | append (entries : List (Entry Cmd)) (h : Consecutive s.committed.length entries) :
      Step m ok s { s with
        disk := (Batch.insert entries).apply s.disk
        committed := s.committed ++ entries }
  | apply (nowMs : Nat) (h : s.disk.log[s.next]? = some e) :
      Step m ok s { s with
        sm := m.applyEntry s.sm e nowMs
        next := s.next + 1
        trace := s.trace ++ [(e, nowMs)] }
  | buildSnapshot : Step m ok s { s with covered := s.next }
  | purge (logId : LogId) (h : logId.index + 1 ≤ s.covered)
      (hforward : nextIndex s.disk.lastPurged ≤ logId.index + 1) :
      Step m ok s { s with
        disk := (Batch.setLastPurged logId).apply
          ((Batch.remove (s.disk.keysBefore (logId.index + 1))).apply s.disk) }
  | restart (fresh : S) (clock : Nat → Nat) (hfresh : m.Fresh fresh) (hok : ok s) :
      Step m ok s (m.restart s fresh clock)

def Machine.Reachable (m : Machine Cmd S Image) (ok : Runtime Cmd S → Prop) (s : Runtime Cmd S) :
    Prop :=
  ∃ fresh, m.Fresh fresh ∧ Relation.ReflTransGen (m.Step ok) { sm := fresh, base := fresh } s

def NoCommandPurged (s : Runtime Cmd S) : Prop :=
  ∀ e ∈ s.committed.take (nextIndex s.disk.lastPurged), isCommand e = false

/-- What holds of every state whose restarts did not miss a command. -/
structure Machine.Ok (m : Machine Cmd S Image) (s : Runtime Cmd S) : Prop where
  fresh : m.Fresh s.base
  run : s.sm = m.run s.base s.trace
  index : Consecutive 0 s.committed
  disk : ∀ i, s.disk.log[i]? =
    if nextIndex s.disk.lastPurged ≤ i then s.committed[i]? else none
  purged : nextIndex s.disk.lastPurged ≤ s.next
  covered : s.covered ≤ s.next
  next : s.next ≤ s.committed.length
  commands : (s.trace.map Prod.fst).filter isCommand = (s.committed.take s.next).filter isCommand

variable {m : Machine Cmd S Image} {s s' : Runtime Cmd S} {log : LogMap E} {es l : List E}

lemma Stored.eq_slice {i : Nat} (h : Stored log i es)
    (hl : ∀ k < es.length, log[i + k]? = l[i + k]?) : es = (l.drop i).take es.length := by
  induction es generalizing i with
  | nil => rfl
  | cons e es ih =>
    have hhead : l[i]? = some e := (hl 0 (succ_pos _)).symm.trans h.1
    have hdrop : l.drop i = e :: l.drop (i + 1) := by
      obtain ⟨hi, he⟩ := List.getElem?_eq_some_iff.1 hhead
      rw [drop_eq_getElem_cons hi, he]
    have htail := ih h.2 fun k hk => by
      have hnext := hl (k + 1) (succ_lt_succ hk)
      rw [add_assoc, add_comm 1 k]
      exact hnext
    rw [hdrop, length_cons, take_succ_cons, ← htail]

namespace Machine

lemma Ok.retained_eq (h : m.Ok s) :
    s.disk.retained 0 s.next =
      (s.committed.drop (nextIndex s.disk.lastPurged)).take
        (s.next - nextIndex s.disk.lastPurged) := by
  have hpurged := h.purged
  have hnext := h.next
  have hkeys := LogMap.keys_filter s.disk.log (fun i => decide (0 ≤ i ∧ i < s.next))
    (nextIndex s.disk.lastPurged) (s.next - nextIndex s.disk.lastPurged) (by
      intro i
      rw [mem_iff_isSome_getElem?, h.disk, decide_eq_true_iff]
      by_cases hle : nextIndex s.disk.lastPurged ≤ i
      · rw [if_pos hle, isSome_getElem?]
        omega
      · rw [if_neg hle]
        exact iff_of_false (fun h => Bool.noConfusion h.1) fun h => hle h.1)
  have hlen := congrArg length hkeys
  rw [length_map, length_range'] at hlen
  have hstored : Stored s.disk.log (nextIndex s.disk.lastPurged) (s.disk.retained 0 s.next) := by
    apply Stored.of_rows hkeys
    intro row hrow
    exact mem_toList_iff_getElem?_eq_some.1 (mem_filter.1 hrow).1
  have hslice := hstored.eq_slice (l := s.committed) fun k _ => by
    rw [h.disk, if_pos (le_add_right _ k)]
  rw [hslice]
  congr 1
  rw [LogDisk.retained, length_map]
  exact hlen

lemma Ok.commands_retained (h : m.Ok s) (hok : NoCommandPurged s) :
    (s.disk.retained 0 s.next).filter isCommand =
      (s.committed.take s.next).filter isCommand := by
  have hsplit : s.committed.take s.next = s.committed.take (nextIndex s.disk.lastPurged) ++
      (s.committed.drop (nextIndex s.disk.lastPurged)).take
        (s.next - nextIndex s.disk.lastPurged) := by
    rw [← take_add, Nat.add_sub_cancel' h.purged]
  have hnone : (s.committed.take (nextIndex s.disk.lastPurged)).filter isCommand = [] :=
    filter_eq_nil_iff.2 fun e he => Bool.eq_false_iff.1 (hok e he)
  rw [h.retained_eq, hsplit, filter_append, hnone, nil_append]

lemma Ok.append (h : m.Ok s) {entries : List (Entry Cmd)}
    (hes : Consecutive s.committed.length entries) :
    m.Ok { s with
      disk := (Batch.insert entries).apply s.disk
      committed := s.committed ++ entries } where
  fresh := h.fresh
  run := h.run
  index := h.index.append (by rw [zero_add]; exact hes)
  disk := by
    intro i
    have hpurged := h.purged
    have hnext := h.next
    change _ = if nextIndex s.disk.lastPurged ≤ i then (s.committed ++ entries)[i]? else none
    by_cases hlt : i < s.committed.length
    · rw [getElem?_insert_untouched (hes.untouched hlt), h.disk, getElem?_append_left hlt]
    · have hle : s.committed.length ≤ i := Nat.le_of_not_lt hlt
      have habove (k : Nat) (hk : s.committed.length ≤ k) : s.disk.log[k]? = none := by
        rw [h.disk, getElem?_eq_none hk, ite_self]
      rw [hes.getElem?_insert habove hle, if_pos (by omega), getElem?_append_right hle]
  purged := h.purged
  covered := h.covered
  next := by
    rw [length_append]
    exact le_add_right_of_le h.next
  commands := by
    rw [take_append_of_le_length h.next]
    exact h.commands

lemma Ok.applyNext (h : m.Ok s) {e : Entry Cmd} (he : s.disk.log[s.next]? = some e)
    (nowMs : Nat) :
    m.Ok { s with
      sm := m.applyEntry s.sm e nowMs
      next := s.next + 1
      trace := s.trace ++ [(e, nowMs)] } := by
  have hcommitted : s.committed[s.next]? = some e := by
    have hdisk := h.disk s.next
    rw [if_pos h.purged, he] at hdisk
    exact hdisk.symm
  obtain ⟨hlt, _⟩ := List.getElem?_eq_some_iff.1 hcommitted
  refine ⟨h.fresh, ?_, h.index, h.disk, le_succ_of_le h.purged, le_succ_of_le h.covered, hlt, ?_⟩
  · change _ = m.run s.base (s.trace ++ [(e, nowMs)])
    rw [Machine.run, foldl_append, h.run]
    rfl
  · change ((s.trace ++ [(e, nowMs)]).map Prod.fst).filter isCommand = _
    rw [take_add_one, hcommitted, map_append, filter_append, filter_append, h.commands]
    rfl

lemma Ok.purge (h : m.Ok s) {logId : LogId} (hcovered : logId.index + 1 ≤ s.covered)
    (hforward : nextIndex s.disk.lastPurged ≤ logId.index + 1) :
    m.Ok { s with
      disk := (Batch.setLastPurged logId).apply
        ((Batch.remove (s.disk.keysBefore (logId.index + 1))).apply s.disk) } := by
  refine ⟨h.fresh, h.run, h.index, ?_, le_trans hcovered h.covered, h.covered, h.next, h.commands⟩
  intro i
  refine (getElem?_keysBefore s.disk (logId.index + 1) i).trans ?_
  change _ = if logId.index + 1 ≤ i then s.committed[i]? else none
  by_cases hle : logId.index + 1 ≤ i
  · rw [if_pos hle, if_pos hle, h.disk, if_pos (le_trans hforward hle)]
  · rw [if_neg hle, if_neg hle]

/-- The state machines of this repository have no snapshot when they are fresh. -/
def StartsEmpty (m : Machine Cmd S Image) : Prop :=
  ∀ fresh, m.Fresh fresh → m.getCurrentSnapshot fresh = none

lemma StartsEmpty.resume (hm : m.StartsEmpty) (hfresh : m.Fresh fresh) :
    m.resume fresh = (fresh, 0) := by
  rw [Machine.resume, hm fresh hfresh]

lemma Ok.restart (h : m.Ok s) (hm : m.StartsEmpty) {fresh : S} (clock : Nat → Nat)
    (hfresh : m.Fresh fresh) (hok : NoCommandPurged s) : m.Ok (m.restart s fresh clock) := by
  rw [Machine.restart, hm.resume hfresh]
  refine ⟨hfresh, rfl, h.index, h.disk, h.purged, zero_le _, h.next, ?_⟩
  change (((s.disk.retained 0 s.next).map _).map Prod.fst).filter isCommand = _
  rw [List.map_map]
  change ((s.disk.retained 0 s.next).map id).filter isCommand = _
  rw [List.map_id]
  exact h.commands_retained hok

lemma Step.ok (hstep : m.Step NoCommandPurged s s') (hm : m.StartsEmpty) (h : m.Ok s) :
    m.Ok s' := by
  cases hstep with
  | append entries hes => exact h.append hes
  | apply nowMs he => exact h.applyNext he nowMs
  | buildSnapshot => exact { h with covered := le_refl _ }
  | purge logId hcovered hforward => exact h.purge hcovered hforward
  | restart fresh clock hfresh hok => exact h.restart hm clock hfresh hok

lemma Reachable.ok (h : m.Reachable NoCommandPurged s) (hm : m.StartsEmpty) : m.Ok s := by
  obtain ⟨fresh, hfresh, hrun⟩ := h
  induction hrun with
  | refl =>
    refine ⟨hfresh, rfl, trivial, ?_, le_refl 0, le_refl 0, le_refl 0, rfl⟩
    intro i
    change (∅ : LogMap (Entry Cmd))[i]? = if 0 ≤ i then none else none
    rw [ite_self, getElem?_empty]
  | tail _ hstep ih => exact hstep.ok hm ih

lemma Reachable.restart_commands (h : m.Reachable NoCommandPurged s)
    (hm : m.StartsEmpty) {fresh : S} (clock : Nat → Nat) (hfresh : m.Fresh fresh)
    (hok : NoCommandPurged s) :
    ((m.restart s fresh clock).trace.map Prod.fst).filter isCommand =
      (s.trace.map Prod.fst).filter isCommand := by
  have hs := h.ok hm
  exact (hs.restart hm clock hfresh hok).commands.trans hs.commands.symm

end Machine

end

end Kiseki.Raft
