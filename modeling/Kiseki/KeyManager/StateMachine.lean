import Kiseki.Raft.Runtime

namespace Kiseki.KeyManager
open Raft

inductive KeyCommand where
  | createEpoch (epoch : Nat) (keyMaterial : Bytes)
  | rotateToEpoch (epoch : Nat)
  | markMigrationComplete (epoch : Nat)
deriving DecidableEq, Repr

inductive KeyResponse where
  | epoch (epoch : Nat)
  | ok
deriving DecidableEq, Repr

structure SystemMasterKey where
  material : Key32
  epoch : Nat
deriving DecidableEq, Repr

structure EpochEntry where
  key : SystemMasterKey
  isCurrent : Bool
  migrationComplete : Bool
deriving DecidableEq, Repr

structure StateMachineInner where
  epochs : List EpochEntry := []
  lastAppliedLog : Option LogId := none
  lastMembership : StoredMembership := {}
deriving DecidableEq, Repr

def copyMaterial (keyMaterial : Bytes) : Key32 :=
  Vector.ofFn fun i : Fin 32 => keyMaterial.getD i.val 0

def markComplete (epoch : Nat) : List EpochEntry → List EpochEntry
  | [] => []
  | e :: es =>
    if e.key.epoch = epoch then { e with migrationComplete := true } :: es
    else e :: markComplete epoch es

def StateMachineInner.applyCommand (s : StateMachineInner) :
    KeyCommand → StateMachineInner × KeyResponse
  | .createEpoch epoch keyMaterial =>
    if s.epochs.any fun e => decide (e.key.epoch = epoch) then (s, .epoch epoch)
    else
      let older := s.epochs.map fun e => { e with isCurrent := false }
      ({ s with epochs := older ++ [⟨⟨copyMaterial keyMaterial, epoch⟩, true, false⟩] },
        .epoch epoch)
  | .rotateToEpoch epoch =>
    ({ s with epochs := s.epochs.map fun e =>
      { e with isCurrent := decide (e.key.epoch = epoch) } },
      .epoch epoch)
  | .markMigrationComplete epoch => ({ s with epochs := markComplete epoch s.epochs }, .ok)

def StateMachineInner.applyEntry (s : StateMachineInner) (e : Entry KeyCommand) :
    StateMachineInner × KeyResponse :=
  let s := { s with lastAppliedLog := some e.logId }
  match e.payload with
  | .blank => (s, .ok)
  | .normal cmd => s.applyCommand cmd
  | .membership voters => ({ s with lastMembership := ⟨some e.logId, voters⟩ }, .ok)

structure SnapshotEpoch where
  epoch : Nat
  keyMaterial : Bytes
  isCurrent : Bool
  migrationComplete : Bool
deriving DecidableEq, Repr

structure KeySnapshot where
  epochs : List SnapshotEpoch
deriving DecidableEq, Repr

section
variable (s : StateMachineInner)

def StateMachineInner.keySnapshot : KeySnapshot where
  epochs := s.epochs.map fun e =>
    ⟨e.key.epoch, e.key.material.toList, e.isCurrent, e.migrationComplete⟩

def StateMachineInner.buildSnapshot : Snapshot KeySnapshot :=
  ⟨s.lastAppliedLog, s.lastMembership, s.keySnapshot⟩

def StateMachineInner.getCurrentSnapshot : Option (Snapshot KeySnapshot) :=
  s.lastAppliedLog.map fun last => ⟨some last, s.lastMembership, s.keySnapshot⟩

def StateMachineInner.installSnapshot (_ : StateMachineInner) (snapshot : Snapshot KeySnapshot) :
    StateMachineInner where
  epochs := snapshot.image.epochs.map fun e =>
    ⟨⟨copyMaterial e.keyMaterial, e.epoch⟩, e.isCurrent, e.migrationComplete⟩
  lastAppliedLog := snapshot.lastLogId
  lastMembership := snapshot.lastMembership

def keyMachine : Machine KeyCommand StateMachineInner KeySnapshot where
  Fresh s := s = {}
  applyEntry s e _ := (s.applyEntry e).1
  getCurrentSnapshot := StateMachineInner.getCurrentSnapshot
  installSnapshot := StateMachineInner.installSnapshot

/-- The two writes of `OpenRaftKeyStore::new`, made on every start with new random bytes. -/
def StateMachineInner.bootstrap (keyMaterial : Bytes) : StateMachineInner :=
  ((s.applyCommand (.createEpoch 1 keyMaterial)).1.applyCommand (.markMigrationComplete 1)).1

def StateMachineInner.keys : List SystemMasterKey :=
  s.epochs.map EpochEntry.key

end

section
variable {a b : StateMachineInner} {cmd : KeyCommand}

lemma epochs_applyCommand (h : a.epochs = b.epochs) (cmd : KeyCommand) :
    (a.applyCommand cmd).1.epochs = (b.applyCommand cmd).1.epochs := by
  cases cmd with
  | createEpoch epoch keyMaterial =>
    simp only [StateMachineInner.applyCommand, h]
    split
    · exact h
    · rfl
  | rotateToEpoch epoch => exact congrArg (List.map _) h
  | markMigrationComplete epoch => exact congrArg (markComplete epoch) h

lemma epochs_run (trace : List (Entry KeyCommand × Nat)) (h : a.epochs = b.epochs) :
    (keyMachine.run a trace).epochs =
      (((trace.map Prod.fst).filter isCommand).foldl (fun s e => (s.applyEntry e).1) b).epochs := by
  induction trace generalizing a b with
  | nil => exact h
  | cons p trace ih =>
    obtain ⟨⟨logId, payload⟩, nowMs⟩ := p
    cases payload with
    | blank => exact ih h
    | membership voters => exact ih h
    | normal cmd =>
      exact ih (epochs_applyCommand (a := { a with lastAppliedLog := some logId })
        (b := { b with lastAppliedLog := some logId }) h cmd)

lemma keyMachine_startsEmpty : keyMachine.StartsEmpty := by
  intro fresh hfresh
  rw [hfresh]
  rfl

lemma keys_markComplete {epoch : Nat} {es : List EpochEntry} :
    (markComplete epoch es).map EpochEntry.key = es.map EpochEntry.key := by
  induction es with
  | nil => rfl
  | cons e es ih =>
    rw [markComplete]
    split
    · rfl
    · exact congrArg (e.key :: ·) ih

lemma keys_bootstrap (s : StateMachineInner) (h : ∃ e ∈ s.epochs, e.key.epoch = 1)
    (keyMaterial : Bytes) : (s.bootstrap keyMaterial).keys = s.keys := by
  obtain ⟨e, he, hepoch⟩ := h
  have hany : (s.epochs.any fun e => decide (e.key.epoch = 1)) = true :=
    List.any_eq_true.2 ⟨e, he, decide_eq_true hepoch⟩
  rw [StateMachineInner.bootstrap, StateMachineInner.applyCommand, if_pos hany]
  exact keys_markComplete

end

end Kiseki.KeyManager
