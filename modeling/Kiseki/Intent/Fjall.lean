import Kiseki.Intent.Store
import Kiseki.Lib.Crash

namespace Kiseki.Intent
open Crash

inductive IntentError where
  | codec (reason : String)
  | insufficientQuorum (views need : Nat)
deriving DecidableEq, Repr

def formatVersion : Nat := 2

structure DecodedValue where
  idempotencyKey : Option IdempotencyKey
  append : AppendChunkAndDeltaRequest
deriving DecidableEq, Repr

/-- The `meta` records, one keyspace per epoch and the `idem` keyspace. -/
structure Disk where
  formatVersion : Option Nat := none
  epochs : Option (List Nat) := none
  incorporatedBelow : Option Bytes := none
  keyspaces : Finmap fun _ : Nat => SeqMap DecodedValue := ∅
  idem : Finmap fun _ : IdempotencyKey => Bytes := ∅

def Disk.keyspace (d : Disk) (no : Nat) : SeqMap DecodedValue :=
  (d.keyspaces.lookup no).getD ∅

structure EpochSet where
  activeNo : Nat := 0
  activeInserts : Nat := 0
  sealed : List Nat := []
  live : Finmap fun _ : Nat => Nat := ∅
  rotateThreshold : Nat := 0
  wm : Bytes := []

structure PendingIndex where
  bySeq : SeqMap (WriteIntent × Nat) := ∅
  byIdem : Finmap fun _ : IdempotencyKey => PerspectiveSeq := ∅

structure StoreCore where
  epochs : EpochSet := {}
  pendingIndex : PendingIndex := {}
  commits : Nat := 0

structure Claims where
  claimed : Finmap fun _ : IdempotencyKey => PerspectiveSeq := ∅
  toRecord : List WriteIntent := []

def PendingIndex.classifyOne (idx : PendingIndex) (c : Claims) (r : WriteIntent) :
    PutOutcome × Claims :=
  if r.perspectiveSeq ∈ idx.bySeq then (.recorded, c)
  else
    match r.idempotencyKey with
    | none => (.recorded, { c with toRecord := c.toRecord ++ [r] })
    | some key =>
      match (idx.byIdem.lookup key).or (c.claimed.lookup key) with
      | some existing => (.duplicate existing, c)
      | none => (.recorded, ⟨c.claimed.insert key r.perspectiveSeq, c.toRecord ++ [r]⟩)

def PendingIndex.classifyGroup (idx : PendingIndex) :
    List WriteIntent → Claims → List PutOutcome × Claims
  | [], c => ([], c)
  | r :: group, c =>
    let (outcome, c) := idx.classifyOne c r
    let (outcomes, c) := idx.classifyGroup group c
    (outcome :: outcomes, c)

def PendingIndex.classifyGroups (idx : PendingIndex) :
    List (List WriteIntent) → Claims → List (List PutOutcome) × Claims
  | [], c => ([], c)
  | group :: groups, c =>
    let (outcomes, c) := idx.classifyGroup group c
    let (perGroup, c) := idx.classifyGroups groups c
    (outcomes :: perGroup, c)

def minSeqKey (r : WriteIntent) : List WriteIntent → Bytes
  | [] => encodeSeqKey r.perspectiveSeq
  | r' :: rs =>
    let least := minSeqKey r' rs
    if least < encodeSeqKey r.perspectiveSeq then least else encodeSeqKey r.perspectiveSeq

def Disk.insertRow (no : Nat) (d : Disk) (r : WriteIntent) : Disk :=
  { d with
    keyspaces := d.keyspaces.insert no
      ((d.keyspace no).insert r.perspectiveSeq ⟨r.idempotencyKey, r.append⟩)
    idem := match r.idempotencyKey with
      | some key => d.idem.insert key (encodeSeqKey r.perspectiveSeq)
      | none => d.idem }

/-- The record batch: rows and dedup pointers, with the watermark when it is lowered. -/
def Disk.recordBatch (no : Nat) (toRecord : List WriteIntent) (wmLowered : Option Bytes)
    (d : Disk) : Disk :=
  let d := toRecord.foldl (Disk.insertRow no) d
  match wmLowered with
  | some wm => { d with incorporatedBelow := some wm }
  | none => d

def PendingIndex.insertRecord (no : Nat) (idx : PendingIndex) (r : WriteIntent) : PendingIndex where
  bySeq := idx.bySeq.insert r.perspectiveSeq (r, no)
  byIdem := match r.idempotencyKey with
    | some key => idx.byIdem.insert key r.perspectiveSeq
    | none => idx.byIdem

def StoreCore.afterRecord (toRecord : List WriteIntent) (wmLowered : Option Bytes)
    (core : StoreCore) : StoreCore :=
  let ep := core.epochs
  { epochs := { ep with
      live := ep.live.insert ep.activeNo ((ep.live.lookup ep.activeNo).getD 0 + toRecord.length)
      activeInserts := ep.activeInserts + toRecord.length
      wm := wmLowered.getD ep.wm }
    pendingIndex := toRecord.foldl (PendingIndex.insertRecord ep.activeNo) core.pendingIndex
    commits := core.commits + 1 }

/-- At the threshold; the epoch list is durable before the swap. -/
def maybeRotateEpoch : Prog Disk StoreCore Unit := do
  let core ← Prog.mem
  let ep := core.epochs
  if ep.activeInserts ≥ ep.rotateThreshold then
    Prog.commit fun d => { d with epochs := some (ep.sealed ++ [ep.activeNo, ep.activeNo + 1]) }
    Prog.modify fun core => { core with
      epochs := { core.epochs with
        sealed := ep.sealed ++ [ep.activeNo]
        activeNo := ep.activeNo + 1
        activeInserts := 0 } }
  else pure ()

/-- The new intents of all groups go to disk in one batch. -/
def commitGroupsLocked (groups : List (List WriteIntent)) :
    Prog Disk StoreCore (List (List PutOutcome)) := do
  let core ← Prog.mem
  let (perGroup, claims) := core.pendingIndex.classifyGroups groups {}
  match claims.toRecord with
  | [] => pure perGroup
  | r :: rs =>
    let wm := core.epochs.wm
    let minKey := minSeqKey r rs
    let wmLowered := if wm ≠ [] ∧ minKey < wm then some minKey else none
    Prog.commit (Disk.recordBatch core.epochs.activeNo (r :: rs) wmLowered)
    Prog.modify (StoreCore.afterRecord (r :: rs) wmLowered)
    maybeRotateEpoch
    pure perGroup

def EpochSet.isDead (ep : EpochSet) (no : Nat) : Bool :=
  decide ((ep.live.lookup no).getD 0 = 0)

def Disk.deleteKeyspace (no : Nat) (d : Disk) : Disk :=
  { d with keyspaces := d.keyspaces.erase no }

/-- Drop the sealed epochs without live intents, then persist the shrunk list. -/
def gcEpochsLocked : Prog Disk StoreCore Unit := do
  let core ← Prog.mem
  let ep := core.epochs
  let dead := ep.sealed.filter ep.isDead
  let keep := ep.sealed.filter fun no => !ep.isDead no
  Prog.modify fun core => { core with
    epochs :=
      { core.epochs with sealed := keep, live := dead.foldl (fun l no => l.erase no) ep.live } }
  if dead = [] then pure ()
  else
    Prog.commitAll (dead.map Disk.deleteKeyspace)
    Prog.commit fun d => { d with epochs := some (keep ++ [ep.activeNo]) }

abbrev RetireWork := PerspectiveSeq × Option IdempotencyKey × Nat

structure Retiring where
  index : PendingIndex
  releasedIdems : List IdempotencyKey := []
  removedEpochs : List Nat := []

def Retiring.removeOne (st : Retiring) (w : RetireWork) : Retiring :=
  match st.index.bySeq[w.1]? with
  | none => st
  | some (_, no) =>
    let st := { st with
      index := { st.index with bySeq := st.index.bySeq.erase w.1 }
      removedEpochs := st.removedEpochs ++ [no] }
    match w.2.1 with
    | none => st
    | some key =>
      if st.index.byIdem.lookup key = some w.1 then
        { st with
          index := { st.index with byIdem := st.index.byIdem.erase key }
          releasedIdems := st.releasedIdems ++ [key] }
      else st

/-- Below the lowest survivor; with none, up to the greatest retired seq. -/
def PendingIndex.incorporatedBelow (idx : PendingIndex) (first : RetireWork)
    (rest : List RetireWork) : Bytes :=
  match idx.bySeq.minKey? with
  | some lowest => encodeSeqKey lowest
  | none => encodeSeqKey (rest.foldl (fun s w => max s w.1) first.1) ++ [0]

def Disk.retireBatch (released : List IdempotencyKey) (wm : Bytes) (d : Disk) : Disk :=
  { d with
    idem := released.foldl (fun m key => m.erase key) d.idem
    incorporatedBelow := some wm }

def EpochSet.decrementLive (live : Finmap fun _ : Nat => Nat) (no : Nat) :
    Finmap fun _ : Nat => Nat :=
  match live.lookup no with
  | some c => live.insert no (c - 1)
  | none => live

/-- Mirror first, then one batch, then the counters. -/
def retireLocked (work : List RetireWork) : Prog Disk StoreCore Unit :=
  match work with
  | [] => pure ()
  | first :: rest => do
    let core ← Prog.mem
    let st := (first :: rest).foldl Retiring.removeOne ⟨core.pendingIndex, [], []⟩
    Prog.modify fun core => { core with pendingIndex := st.index }
    let wm := st.index.incorporatedBelow first rest
    let wm := if core.epochs.wm ≠ [] ∧ ¬core.epochs.wm < wm then core.epochs.wm else wm
    Prog.commit (Disk.retireBatch st.releasedIdems wm)
    Prog.modify fun core => { core with
      epochs := { core.epochs with
        live := st.removedEpochs.foldl EpochSet.decrementLive core.epochs.live
        wm := wm } }
    gcEpochsLocked

structure ScanAcc where
  index : PendingIndex
  kept : Nat := 0
  total : Nat := 0

/-- A row strictly below the watermark is incorporated and skipped. -/
def isBelow (wm : Option Bytes) (seq : PerspectiveSeq) : Bool :=
  match wm with
  | some w => decide (encodeSeqKey seq < w)
  | none => false

def scanRow (wm : Option Bytes) (no : Nat) (acc : ScanAcc) (row : PerspectiveSeq × DecodedValue) :
    ScanAcc :=
  if isBelow wm row.1 then { acc with total := acc.total + 1 }
  else
    { index := acc.index.insertRecord no ⟨row.1, row.2.idempotencyKey, row.2.append⟩
      kept := acc.kept + 1
      total := acc.total + 1 }

def Disk.scanEpoch (d : Disk) (index : PendingIndex) (no : Nat) : ScanAcc :=
  (d.keyspace no).toList.foldl (scanRow d.incorporatedBelow no) { index := index }

def Disk.scanOne (d : Disk) (core : StoreCore) (no : Nat) : StoreCore :=
  let scan := d.scanEpoch core.pendingIndex no
  let ep := core.epochs
  let ep := { ep with live := ep.live.insert no scan.kept }
  { core with
    pendingIndex := scan.index
    epochs :=
      if no = ep.activeNo then { ep with activeInserts := scan.total }
      else { ep with sealed := ep.sealed ++ [no] } }

/-- From the listed epochs, of which the greatest is active. -/
def Disk.scan (d : Disk) (rotateThreshold : Nat) (epochNos : List Nat) : StoreCore :=
  epochNos.foldl d.scanOne {
    epochs := {
      activeNo := epochNos.foldl max 0
      rotateThreshold := rotateThreshold
      wm := d.incorporatedBelow.getD [] } }

def readEpochList : Prog Disk StoreCore (List Nat) := do
  let d ← Prog.disk
  match d.epochs with
  | some nos => pure nos
  | none => do
    Prog.commit fun d => { d with epochs := some [0] }
    pure [0]

def openEpochs (rotateThreshold : Nat) : Prog Disk StoreCore (Except IntentError Unit) := do
  let epochNos ← readEpochList
  let d ← Prog.disk
  if epochNos = [] then pure (.error (.codec "no active intent epoch"))
  else do
    Prog.modify fun _ => d.scan rotateThreshold epochNos
    gcEpochsLocked
    pure (.ok ())

def openWithRotate (rotateThreshold : Nat) : Prog Disk StoreCore (Except IntentError Unit) := do
  let d ← Prog.disk
  match d.formatVersion with
  | some found =>
    if found = formatVersion then openEpochs rotateThreshold
    else pure (.error (.codec
      s!"unsupported intent format v{found} (this binary speaks v{formatVersion})"))
  | none => do
    Prog.commit fun d => { d with formatVersion := some formatVersion }
    openEpochs rotateThreshold

def putBatch (intents : List WriteIntent) : Prog Disk StoreCore (List (List PutOutcome)) :=
  match intents with
  | [] => pure [[]]
  | _ :: _ => commitGroupsLocked [intents]

def put (intent : WriteIntent) : Prog Disk StoreCore (List (List PutOutcome)) :=
  putBatch [intent]

def retireWorkOf (entry : PerspectiveSeq × WriteIntent × Nat) : RetireWork :=
  (entry.1, entry.2.1.idempotencyKey, entry.2.2)

def PendingIndex.pruneWork (idx : PendingIndex) (upTo : PerspectiveSeq) : List RetireWork :=
  (idx.bySeq.toList.filter fun entry => decide (entry.1 ≤ upTo)).map retireWorkOf

def PendingIndex.removeWork (idx : PendingIndex) (seqs : List PerspectiveSeq) : List RetireWork :=
  seqs.filterMap fun seq => idx.bySeq[seq]?.map fun entry => retireWorkOf (seq, entry)

def prune (upTo : PerspectiveSeq) : Prog Disk StoreCore Unit := do
  let core ← Prog.mem
  retireLocked (core.pendingIndex.pruneWork upTo)

def removeSeqs (seqs : List PerspectiveSeq) : Prog Disk StoreCore Unit := do
  let core ← Prog.mem
  retireLocked (core.pendingIndex.removeWork seqs)

def removeSeq (seq : PerspectiveSeq) : Prog Disk StoreCore Unit :=
  removeSeqs [seq]

def StoreCore.pending (core : StoreCore) : List WriteIntent :=
  core.pendingIndex.bySeq.toList.map fun entry => entry.2.1

section
open List BigEndian

def decodeSeqKey (bytes : Bytes) : Except IntentError PerspectiveSeq :=
  if bytes.length ≠ 20 then
    .error (.codec s!"seq-key must be 20 bytes, got {bytes.length}")
  else
    .ok {
      physicalMs := .ofNat (value (toNats (bytes.take 8)))
      logical := .ofNat (value (toNats ((bytes.drop 8).take 4)))
      nodeId := .ofNat (value (toNats ((bytes.drop 8).drop 4))) }

lemma decodeSeqKey_append {p l n : Bytes} (hp : p.length = 8) (hl : l.length = 4)
    (hn : n.length = 8) : decodeSeqKey (p ++ (l ++ n)) =
      .ok ⟨.ofNat (value (toNats p)), .ofNat (value (toNats l)), .ofNat (value (toNats n))⟩ := by
  have hlen : (p ++ (l ++ n)).length = 20 := by
    rw [length_append, length_append, hp, hl, hn]
  rw [decodeSeqKey, if_neg (not_not.2 hlen), take_left' hp, drop_left' hp, take_left' hl,
    drop_left' hl]

lemma decode_encodeSeqKey (seq : PerspectiveSeq) : decodeSeqKey (encodeSeqKey seq) = .ok seq := by
  rw [encodeSeqKey, decodeSeqKey_append (length_bytes _ _) (length_bytes _ _) (length_bytes _ _),
    value_bytes seq.physicalMs.toNat_lt, value_bytes seq.logical.toNat_lt,
    value_bytes seq.nodeId.toNat_lt, UInt64.ofNat_toNat, UInt32.ofNat_toNat, UInt64.ofNat_toNat]

lemma encode_of_decodeSeqKey (h : decodeSeqKey key = .ok seq) : encodeSeqKey seq = key := by
  by_cases hlen : key.length = 20
  · have hsplit : key = key.take 8 ++ ((key.drop 8).take 4 ++ (key.drop 8).drop 4) := by
      rw [take_append_drop, take_append_drop]
    have hp : (key.take 8).length = 8 := by rw [length_take, hlen]; rfl
    have hl : ((key.drop 8).take 4).length = 4 := by rw [length_take, length_drop, hlen]; rfl
    have hn : ((key.drop 8).drop 4).length = 8 := by rw [length_drop, length_drop, hlen]
    rw [hsplit, decodeSeqKey_append hp hl hn, Except.ok.injEq] at h
    obtain ⟨hplt, hpeq⟩ := bytes_of_value hp
    obtain ⟨hllt, hleq⟩ := bytes_of_value hl
    obtain ⟨hnlt, hneq⟩ := bytes_of_value hn
    rw [← h, encodeSeqKey, UInt64.toNat_ofNat_of_lt' hplt, UInt32.toNat_ofNat_of_lt' hllt,
      UInt64.toNat_ofNat_of_lt' hnlt, hpeq, hleq, hneq, ← hsplit]
  · rw [decodeSeqKey, if_pos hlen] at h
    cases h

lemma encodeSeqKey_inj : encodeSeqKey a = encodeSeqKey b ↔ a = b := by
  constructor
  · intro h
    have hdecode := decode_encodeSeqKey a
    rw [h, decode_encodeSeqKey, Except.ok.injEq] at hdecode
    exact hdecode.symm
  · exact congrArg encodeSeqKey

lemma length_encodeSeqKey (seq : PerspectiveSeq) : (encodeSeqKey seq).length = 20 := by
  simp only [encodeSeqKey, length_append, length_bytes]

/-- The key of a seq, or that key and one byte. -/
theorem seq_key_order_iso (a b : PerspectiveSeq) (key : Bytes) :
    (encodeSeqKey a < encodeSeqKey b ↔ a < b) ∧
      (decodeSeqKey key = .ok a ↔ encodeSeqKey a = key) ∧
      isBelow (some (encodeSeqKey b)) a = decide (a < b) ∧
      isBelow (some (encodeSeqKey b ++ [0])) a = decide (a ≤ b) := by
  refine ⟨encodeSeqKey_lt_iff, ⟨encode_of_decodeSeqKey, ?_⟩,
    decide_eq_decide.2 encodeSeqKey_lt_iff, decide_eq_decide.2 ?_⟩
  · rintro rfl
    exact decode_encodeSeqKey a
  · have hlen := (length_encodeSeqKey a).trans (length_encodeSeqKey b).symm
    rw [← append_nil (encodeSeqKey a), append_lt_append_iff hlen, encodeSeqKey_lt_iff,
      encodeSeqKey_inj, and_iff_left (nil_lt_cons 0 []), le_iff_lt_or_eq]

end

end Kiseki.Intent
