import Kiseki.KeyManager.StateMachine

namespace Kiseki.KeyManager

open List hiding keys
open StateMachineInner

def StateMachineInner.numbers (s : StateMachineInner) : List Nat := s.keys.map fun k => k.epoch

def StateMachineInner.nextEpoch (s : StateMachineInner) : Nat := s.numbers.max?.getD 0 + 1

def StateMachineInner.OneCurrent (s : StateMachineInner) : Prop :=
  s.epochs.countP (fun e => e.isCurrent) = 1

def stateAfter (log : List KeyCommand) : StateMachineInner :=
  log.foldl (fun s cmd => (s.applyCommand cmd).1) {}

/-- At a place of the log by commands and snapshots. -/
inductive Replica (log : List KeyCommand) : Nat → StateMachineInner → Prop
  | start : Replica log 0 {}
  | apply (h : Replica log n s) (hcmd : log[n]? = some cmd) :
    Replica log (n + 1) (s.applyCommand cmd).1
  | install (h : Replica log n s) (hfrom : Replica log m t) (hle : n ≤ m) :
    Replica log m (s.installSnapshot t.buildSnapshot)

/-- A logged `rotate`: it returns `Ok` with the epoch it read. -/
structure Rotation (log : List KeyCommand) where
  node : StateMachineInner
  readAt : Nat
  appliedAt : Nat
  material : Key32
  reads : Replica log readAt node
  order : readAt ≤ appliedAt
  commits : log[appliedAt]? = some (.createEpoch node.nextEpoch material.toList)

namespace Rotation
variable {log : List KeyCommand}

def key (r : Rotation log) : SystemMasterKey := ⟨r.material, r.node.nextEpoch⟩

def Creates (r : Rotation log) : Prop :=
  (stateAfter (log.take (r.appliedAt + 1))).keys =
    (stateAfter (log.take r.appliedAt)).keys ++ [r.key]

def Undisturbed (r : Rotation log) : Prop :=
  ∀ i material, r.readAt ≤ i → i < r.appliedAt →
    log[i]? ≠ some (.createEpoch r.node.nextEpoch material)

end Rotation

lemma copyMaterial_toList (material : Key32) : copyMaterial material.toList = material := by
  apply Vector.ext
  intro i hi
  simp [copyMaterial]

variable {cmd : KeyCommand}

namespace StateMachineInner
variable (s : StateMachineInner)

lemma nextEpoch_notMem : s.nextEpoch ∉ s.numbers :=
  fun hmem => absurd (le_max?_getD_of_mem hmem) (Nat.not_succ_le_self _)

lemma keys_applyCommand :
    (s.applyCommand cmd).1.keys = match cmd with
      | .createEpoch epoch keyMaterial =>
        if epoch ∈ s.numbers then s.keys else s.keys ++ [⟨copyMaterial keyMaterial, epoch⟩]
      | _ => s.keys := by
  cases cmd with
  | createEpoch epoch keyMaterial =>
    have hany : (s.epochs.any fun e => decide (e.key.epoch = epoch)) = true ↔
        epoch ∈ s.numbers := by
      simp [numbers, keys]
    simp only [applyCommand, hany]
    split
    · rfl
    · simp [keys]
  | rotateToEpoch epoch => simp [applyCommand, keys]
  | markMigrationComplete epoch => exact keys_markComplete

lemma countP_markComplete (epoch : Nat) (es : List EpochEntry) :
    (markComplete epoch es).countP (fun e => e.isCurrent) = es.countP fun e => e.isCurrent := by
  induction es with
  | nil => rfl
  | cons e es ih =>
    rw [markComplete]
    split
    · simp only [countP_cons]
    · rw [countP_cons, countP_cons, ih]

lemma oneCurrent_applyCommand (hs : s.numbers.Nodup) (h : s.epochs ≠ [] → s.OneCurrent)
    (cmd : KeyCommand) (hne : (s.applyCommand cmd).1.epochs ≠ []) :
    (s.applyCommand cmd).1.OneCurrent ↔
      ∀ epoch, cmd = .rotateToEpoch epoch → epoch ∈ s.numbers := by
  cases cmd with
  | createEpoch epoch keyMaterial =>
    refine iff_of_true ?_ (by simp)
    simp only [applyCommand]
    split
    · next hany => exact h fun hnil => by simp [hnil] at hany
    · simp [OneCurrent, countP_eq_zero]
  | rotateToEpoch epoch =>
    have hcount : (s.applyCommand (.rotateToEpoch epoch)).1.epochs.countP (fun e => e.isCurrent) =
        s.numbers.count epoch := by
      simp only [applyCommand, numbers, keys, count, countP_map]
      rfl
    rw [OneCurrent, hcount]
    simp only [KeyCommand.rotateToEpoch.injEq, forall_eq']
    exact ⟨fun hone => count_pos_iff.1 (hone ▸ Nat.one_pos), count_eq_one_of_mem hs⟩
  | markMigrationComplete epoch =>
    refine iff_of_true ((countP_markComplete epoch s.epochs).trans (h fun hnil => hne ?_)) (by simp)
    simp [applyCommand, hnil, markComplete]

end StateMachineInner

section
variable {log : List KeyCommand}

lemma stateAfter_append : stateAfter (log ++ [cmd]) = ((stateAfter log).applyCommand cmd).1 := by
  rw [stateAfter, foldl_append]
  rfl

lemma stateAfter_take_succ (h : log[n]? = some cmd) :
    stateAfter (log.take (n + 1)) = ((stateAfter (log.take n)).applyCommand cmd).1 := by
  rw [take_add_one, h]
  exact stateAfter_append ..

lemma Replica.epochs_eq (h : Replica log n s) : s.epochs = (stateAfter (log.take n)).epochs := by
  induction h with
  | start => rfl
  | apply _ hcmd ih => exact stateAfter_take_succ hcmd ▸ epochs_applyCommand ih _
  | install _ _ _ _ ih =>
    simp [installSnapshot, buildSnapshot, keySnapshot, Function.comp_def, copyMaterial_toList, ih]

lemma numbers_stateAfter :
    (stateAfter log).numbers.Nodup ∧ ∀ epoch, epoch ∈ (stateAfter log).numbers ↔
      ∃ material, .createEpoch epoch material ∈ log := by
  induction log using reverseRecOn with
  | nil => simp [stateAfter, numbers, keys]
  | append_singleton log cmd ih =>
    rw [stateAfter_append, numbers, keys_applyCommand]
    cases cmd <;> grind [numbers]

lemma keys_prefix (hle : n ≤ m) :
    (stateAfter (log.take n)).keys <+: (stateAfter (log.take m)).keys := by
  induction m, hle using Nat.le_induction with
  | base => exact prefix_rfl
  | succ m _ ih =>
    cases hcmd : log[m]? with
    | none => rwa [take_add_one, hcmd, Option.toList_none, append_nil]
    | some cmd =>
      rw [stateAfter_take_succ hcmd, keys_applyCommand]
      refine ih.trans ?_
      split
      · split
        · exact prefix_rfl
        · exact prefix_append ..
      · exact prefix_rfl

lemma oneCurrent_iff :
    (∀ n, (stateAfter (log.take n)).epochs ≠ [] → (stateAfter (log.take n)).OneCurrent) ↔
      ∀ n epoch, log[n]? = some (.rotateToEpoch epoch) → (stateAfter (log.take n)).epochs ≠ [] →
        epoch ∈ (stateAfter (log.take n)).numbers := by
  constructor
  · intro h n epoch hcmd hne
    have hsucc := h (n + 1)
    rw [stateAfter_take_succ hcmd] at hsucc
    have hne' : ((stateAfter (log.take n)).applyCommand (.rotateToEpoch epoch)).1.epochs ≠ [] := by
      simpa [applyCommand] using hne
    exact ((oneCurrent_applyCommand _ (numbers_stateAfter).1 (h n) _ hne').1 (hsucc hne')) epoch rfl
  · intro h n
    induction n with
    | zero => exact fun hne => absurd rfl hne
    | succ n ih =>
      cases hcmd : log[n]? with
      | none => rwa [take_add_one, hcmd, Option.toList_none, append_nil]
      | some cmd =>
        rw [stateAfter_take_succ hcmd]
        intro hne
        apply (oneCurrent_applyCommand _ (numbers_stateAfter).1 ih _ hne).2
        rintro epoch rfl
        refine h n epoch hcmd fun hnil => hne ?_
        simp [applyCommand, hnil]

lemma Rotation.creates_iff_notMem (r : Rotation log) :
    r.Creates ↔ r.node.nextEpoch ∉ (stateAfter (log.take r.appliedAt)).numbers := by
  rw [Creates, stateAfter_take_succ r.commits, keys_applyCommand]
  simp only [copyMaterial_toList]
  split
  · next hmem => simp [hmem]
  · next hmem => exact iff_of_true rfl hmem

lemma Rotation.creates_iff (r : Rotation log) : r.Creates ↔ r.Undisturbed := by
  rw [r.creates_iff_notMem, (numbers_stateAfter).2]
  constructor
  · intro h i material _ hlt hi
    exact h ⟨material, mem_iff_getElem?.2 ⟨i, (getElem?_take_of_lt hlt).trans hi⟩⟩
  · rintro h ⟨material, hmem⟩
    obtain ⟨i, hi⟩ := mem_iff_getElem?.1 hmem
    rw [getElem?_take] at hi
    split at hi
    · next hlt =>
      rcases Nat.lt_or_ge i r.readAt with hread | hread
      · -- the epoch is above all that the call has read
        have hold : r.node.nextEpoch ∈ (stateAfter (log.take r.readAt)).numbers :=
          ((numbers_stateAfter).2 _).2
            ⟨material, mem_iff_getElem?.2 ⟨i, (getElem?_take_of_lt hread).trans hi⟩⟩
        apply r.node.nextEpoch_notMem
        rwa [numbers, keys, r.reads.epochs_eq]
      · exact h i material hread hlt hi
    · cases hi

/-- Replicas agree on epochs and keys; a `rotate` counts exactly if it is first. -/
theorem master_key_epochs_iff (log : List KeyCommand) :
    (∀ n s, Replica log n s → s.epochs = (stateAfter (log.take n)).epochs) ∧
    (∀ n, (stateAfter (log.take n)).numbers.Nodup) ∧
    (∀ n m, n ≤ m → (stateAfter (log.take n)).keys <+: (stateAfter (log.take m)).keys) ∧
    ((∀ n, (stateAfter (log.take n)).epochs ≠ [] → (stateAfter (log.take n)).OneCurrent) ↔
      ∀ n epoch, log[n]? = some (.rotateToEpoch epoch) → (stateAfter (log.take n)).epochs ≠ [] →
        epoch ∈ (stateAfter (log.take n)).numbers) ∧
    (∀ r : Rotation log, r.Creates ↔ r.Undisturbed) ∧
    ∀ r r' : Rotation log, r.appliedAt < r'.appliedAt → r'.Undisturbed →
      r.node.nextEpoch ≠ r'.node.nextEpoch := by
  refine ⟨fun _ _ => Replica.epochs_eq, fun _ => (numbers_stateAfter).1,
    fun _ _ => keys_prefix, oneCurrent_iff, Rotation.creates_iff, ?_⟩
  intro r r' hlt hcalm heq
  apply r'.creates_iff_notMem.1 (r'.creates_iff.2 hcalm)
  exact ((numbers_stateAfter).2 _).2 ⟨_, mem_iff_getElem?.2
    ⟨_, (getElem?_take_of_lt hlt).trans (heq ▸ r.commits)⟩⟩

/-- Two nodes get `Ok` for epoch 2, which has one of their keys. -/
theorem rotation_key_dropped : ∃ log, ∃ r r' : Rotation log, r.appliedAt ≠ r'.appliedAt ∧
    r.node.nextEpoch = r'.node.nextEpoch ∧ r'.key ∉ (stateAfter log).keys ∧
    (stateAfter log).epochs ≠ [] ∧ ¬(stateAfter log).OneCurrent := by
  let key (n : UInt8) : Key32 := .replicate 32 n
  let log : List KeyCommand := [.createEpoch 1 (key 0).toList, .createEpoch 2 (key 1).toList,
    .createEpoch 2 (key 2).toList, .rotateToEpoch 9]
  have hread : Replica log 1 _ := .apply .start rfl
  exact ⟨log, ⟨_, 1, 1, key 1, hread, le_rfl, rfl⟩, ⟨_, 1, 2, key 2, hread, by decide, rfl⟩,
    (by decide : 1 ≠ 2), rfl, (by decide +kernel : ⟨key 2, 2⟩ ∉ (stateAfter log).keys),
    by decide +kernel, (by decide +kernel : (stateAfter log).epochs.countP _ ≠ 1)⟩

end

end Kiseki.KeyManager
