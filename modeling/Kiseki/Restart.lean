import Kiseki.Log.Snapshot
import Kiseki.KeyManager.StateMachine

namespace Kiseki
open Raft Log KeyManager ShardSmInner List

section
variable {s : Runtime LogCommand ShardSmInner} {trace trace' : List (Entry LogCommand × Nat)}
  {shardId : ShardId} {tenantId : OrgId} {windowEntries : Nat} {inline : Bool}

def commandAt (e : Entry LogCommand) : Option (LogCommand × Nat) :=
  match e.payload with
  | .normal cmd => some (cmd, e.logId.index)
  | _ => none

lemma map_appliedOf :
    (appliedOf trace).map (fun e => (e.cmd, e.logIndex)) =
      ((trace.map Prod.fst).filter isCommand).filterMap commandAt := by
  induction trace with
  | nil => rfl
  | cons p trace ih =>
    obtain ⟨⟨logId, payload⟩, nowMs⟩ := p
    cases payload with
    | blank => exact ih
    | membership voters => exact ih
    | normal cmd => exact congrArg ((cmd, logId.index) :: ·) ih

lemma sameEntry_of_commands
    (h : (trace.map Prod.fst).filter isCommand = (trace'.map Prod.fst).filter isCommand) :
    List.Forall₂ Applied.SameEntry (appliedOf trace) (appliedOf trace') := by
  have hmaps : (appliedOf trace).map (fun e => (e.cmd, e.logIndex)) =
      (appliedOf trace').map fun e => (e.cmd, e.logIndex) := by
    rw [map_appliedOf, map_appliedOf, h]
  rw [← forall₂_eq_eq_eq, forall₂_map_left_iff, forall₂_map_right_iff] at hmaps
  exact hmaps.imp fun e e' heq => Prod.mk.inj heq

lemma increasing_appliedOf (h : (shardMachine shardId tenantId windowEntries inline).Ok s) :
    Increasing (appliedOf s.trace) := by
  have hentries : ((s.committed.take s.next).filter isCommand).Pairwise
      fun e e' => e.logId.index < e'.logId.index :=
    (h.index.pairwise.sublist (take_sublist _ _)).filter _
  have hcommands : ((appliedOf s.trace).map fun e => (e.cmd, e.logIndex)).Pairwise
      fun p p' => p.2 < p'.2 := by
    rw [map_appliedOf, h.commands, pairwise_filterMap]
    refine hentries.imp fun {e e'} hlt p hp p' hp' => ?_
    obtain ⟨logId, payload⟩ := e
    obtain ⟨logId', payload'⟩ := e'
    cases payload with
    | blank => cases hp
    | membership => cases hp
    | normal cmd =>
      cases payload' with
      | blank => cases hp'
      | membership => cases hp'
      | normal cmd' =>
        cases hp
        cases hp'
        exact hlt
  rw [pairwise_map] at hcommands
  exact hcommands

lemma shardMachine_startsEmpty :
    (shardMachine shardId tenantId windowEntries inline).StartsEmpty := by
  intro fresh hfresh
  obtain ⟨windowMs, store, _, rfl⟩ := hfresh
  rfl

lemma fresh_replicated {a b : ShardSmInner}
    (ha : (shardMachine shardId tenantId windowEntries inline).Fresh a)
    (hb : (shardMachine shardId tenantId windowEntries inline).Fresh b) :
    a.replicated = b.replicated := by
  obtain ⟨_, store, hstore, rfl⟩ := ha
  obtain ⟨_, store', hstore', rfl⟩ := hb
  simp only [replicated, new, hstore, hstore']

lemma fresh_window {a : ShardSmInner}
    (ha : (shardMachine shardId tenantId windowEntries inline).Fresh a) :
    a.window.entries = windowEntries ∧ a.window.Tracks [] ∧ a.window.Below 0 := by
  obtain ⟨windowMs, store, _, rfl⟩ := ha
  exact ⟨rfl, tracks_new _ _ _ _ _, below_new _ _ _ _ _⟩

/-- The time bound alone never made a shard forget a repeated intent. -/
def KeepsRecentIn (windowEntries : Nat) (s : Runtime LogCommand ShardSmInner) : Prop :=
  KeepsRecent windowEntries (itemSteps (appliedOf s.trace) s.base [])

instance (windowEntries : Nat) (s : Runtime LogCommand ShardSmInner) :
    Decidable (KeepsRecentIn windowEntries s) :=
  inferInstanceAs (Decidable (KeepsRecent windowEntries _))

lemma shard_restart (h : (shardMachine shardId tenantId windowEntries inline).Reachable
      NoCommandPurged s) {fresh : ShardSmInner} (clock : Nat → Nat)
    (hfresh : (shardMachine shardId tenantId windowEntries inline).Fresh fresh)
    (hok : NoCommandPurged s) (hk : KeepsRecentIn windowEntries s)
    (hk' : KeepsRecentIn windowEntries
      ((shardMachine shardId tenantId windowEntries inline).restart s fresh clock)) :
    ((shardMachine shardId tenantId windowEntries inline).restart s fresh clock).sm.replicated =
      s.sm.replicated := by
  have hold := h.ok shardMachine_startsEmpty
  have hnew := hold.restart shardMachine_startsEmpty clock hfresh hok
  have hsame := sameEntry_of_commands (h.restart_commands shardMachine_startsEmpty clock hfresh hok)
  have hrun (s : Runtime LogCommand ShardSmInner)
      (hs : (shardMachine shardId tenantId windowEntries inline).Ok s) :
      s.sm.replicated = (s.base.run (appliedOf s.trace)).replicated := by
    rw [hs.run]
    exact (Same.run ⟨rfl, rfl⟩ s.trace).replicated
  rw [hrun _ hnew, hrun _ hold]
  exact (agree_run hsame (increasing_appliedOf hnew) (fresh_window hnew.fresh)
    (fresh_window hold.fresh) (fun e _ => Nat.zero_le e.logIndex) hk' hk
    (fresh_replicated hnew.fresh hold.fresh)).1

lemma key_restart {s : Runtime KeyCommand StateMachineInner}
    (h : keyMachine.Reachable NoCommandPurged s) (clock : Nat → Nat) (hok : NoCommandPurged s) :
    (keyMachine.restart s {} clock).sm.epochs = s.sm.epochs := by
  have hold := h.ok keyMachine_startsEmpty
  have hnew := hold.restart keyMachine_startsEmpty clock rfl hok
  rw [hnew.run, hold.run, hnew.fresh, hold.fresh, epochs_run _ rfl, epochs_run _ rfl,
    h.restart_commands keyMachine_startsEmpty clock rfl hok]

/-- A restart without a purge loses nothing, if the time bound never did. -/
theorem restart_keeps_state {shard : Runtime LogCommand ShardSmInner} {fresh : ShardSmInner}
    {keys : Runtime KeyCommand StateMachineInner} (clock : Nat → Nat)
    (hshard : (shardMachine shardId tenantId windowEntries inline).Reachable NoCommandPurged shard)
    (hfresh : (shardMachine shardId tenantId windowEntries inline).Fresh fresh)
    (hpurged : NoCommandPurged shard) (hrecent : KeepsRecentIn windowEntries shard)
    (hrecent' : KeepsRecentIn windowEntries
      ((shardMachine shardId tenantId windowEntries inline).restart shard fresh clock))
    (hkeys : keyMachine.Reachable NoCommandPurged keys) (hpurged' : NoCommandPurged keys) :
    ((shardMachine shardId tenantId windowEntries inline).restart shard fresh clock).sm.replicated =
        shard.sm.replicated ∧
      (keyMachine.restart keys {} clock).sm.epochs = keys.sm.epochs ∧
      ∀ keyMaterial, (∃ e ∈ keys.sm.epochs, e.key.epoch = 1) →
        ((keyMachine.restart keys {} clock).sm.bootstrap keyMaterial).keys = keys.sm.keys := by
  have hepochs := key_restart hkeys clock hpurged'
  refine ⟨shard_restart hshard clock hfresh hpurged hrecent hrecent', hepochs, ?_⟩
  intro keyMaterial hone
  rw [keys_bootstrap _ (hepochs ▸ hone), StateMachineInner.keys, hepochs]
  rfl

end

def firstEntry (cmd : Cmd) : Entry Cmd := ⟨⟨1, 1, 0⟩, .normal cmd⟩

def applied (m : Machine Cmd S Image) (fresh : S) (cmd : Cmd) : Runtime Cmd S where
  disk := (Batch.insert [firstEntry cmd]).apply {}
  sm := m.applyEntry fresh (firstEntry cmd) 0
  next := 1
  committed := [firstEntry cmd]
  base := fresh
  trace := [(firstEntry cmd, 0)]

def compacted (m : Machine Cmd S Image) (fresh : S) (cmd : Cmd) : Runtime Cmd S :=
  { applied m fresh cmd with
    covered := 1
    disk := (Batch.setLastPurged ⟨1, 1, 0⟩).apply
      ((Batch.remove ((applied m fresh cmd).disk.keysBefore 1)).apply (applied m fresh cmd).disk) }

section
variable {m : Machine Cmd S Image} {fresh : S} (ok : Runtime Cmd S → Prop)

lemma applied_reachable (hfresh : m.Fresh fresh) (cmd : Cmd) :
    m.Reachable ok (applied m fresh cmd) := by
  have happend : Relation.ReflTransGen (m.Step ok) { sm := fresh, base := fresh } _ :=
    .single (.append [firstEntry cmd] ⟨rfl, trivial⟩)
  have hread : (applied m fresh cmd).disk.log[0]? = some (firstEntry cmd) :=
    LogMap.getElem?_insert.trans (if_pos rfl)
  exact ⟨fresh, hfresh, happend.tail (.apply 0 hread)⟩

lemma compacted_reachable (hfresh : m.Fresh fresh) (cmd : Cmd) :
    m.Reachable ok (compacted m fresh cmd) := by
  obtain ⟨fresh', hfresh', hrun⟩ := applied_reachable ok hfresh cmd
  refine ⟨fresh', hfresh', (hrun.tail .buildSnapshot).tail ?_⟩
  exact .purge ⟨1, 1, 0⟩ (Nat.le_refl 1) (Nat.zero_le 1)

end

def plainMachine : Machine LogCommand ShardSmInner ShardSnapshot :=
  shardMachine ⟨.replicate 16 0⟩ ⟨.replicate 16 0⟩ defaultDedupWindowEntries false

def freshShard : ShardSmInner := plainShard defaultDedupWindowEntries defaultDedupWindowMs

lemma plainMachine_fresh : plainMachine.Fresh freshShard :=
  ⟨defaultDedupWindowMs, none, rfl, rfl⟩

def firstIntent : LogCommand := .incorporateIntent (plainItem 5)

def firstEpoch : KeyCommand := .createEpoch 1 [7]

theorem restart_keeps_state_first :
    (plainMachine.restart (applied plainMachine freshShard firstIntent) freshShard
        fun _ => 70000).sm.replicated =
          (applied plainMachine freshShard firstIntent).sm.replicated ∧
      ((keyMachine.restart (applied keyMachine {} firstEpoch) {} fun _ => 70000).sm.bootstrap
        [9]).keys = (applied keyMachine {} firstEpoch).sm.keys := by
  have hnone {Cmd S : Type} (s : Runtime Cmd S) (h : s.disk.lastPurged = none) :
      NoCommandPurged s := by
    intro e he
    rw [h] at he
    exact absurd he not_mem_nil
  obtain ⟨hshard, _, hkeys⟩ := restart_keeps_state (fun _ => 70000)
    (applied_reachable _ plainMachine_fresh firstIntent) plainMachine_fresh (hnone _ rfl)
    (by decide) (by decide) (applied_reachable _ rfl firstEpoch) (hnone _ rfl)
  exact ⟨hshard, hkeys [9] ⟨_, .head _, rfl⟩⟩

/-- After a snapshot and a purge, a restart loses the state. -/
theorem restart_loses_state :
    (plainMachine.Reachable (fun _ => True) (compacted plainMachine freshShard firstIntent) ∧
        (compacted plainMachine freshShard firstIntent).sm.tip = 1 ∧
        (plainMachine.restart (compacted plainMachine freshShard firstIntent) freshShard
          fun _ => 0).sm.tip = 0) ∧
      keyMachine.Reachable (fun _ => True) (compacted keyMachine {} firstEpoch) ∧
      (compacted keyMachine {} firstEpoch).sm.keys = [⟨copyMaterial [7], 1⟩] ∧
      ((keyMachine.restart (compacted keyMachine {} firstEpoch) {} fun _ => 0).sm.bootstrap
        [9]).keys = [⟨copyMaterial [9], 1⟩] := by
  refine ⟨⟨compacted_reachable _ plainMachine_fresh _, ?_, ?_⟩, compacted_reachable _ rfl _, ?_, ?_⟩
  · rfl
  · rfl
  · rfl
  · rfl

end Kiseki
