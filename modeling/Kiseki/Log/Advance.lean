import Kiseki.Log.Shape

namespace Kiseki.Log

open Function List Nat

def hydratorConsumer : String := "hydrator"

abbrev ConsumerPositions := Finmap fun _ : ShardId × String => Nat

/-- A report only moves a position forward; `SequenceNumber::BUFFERED` is ignored. -/
def recordLocalPosition (map : ConsumerPositions) (shardId : ShardId) (consumer : String)
    (position : Nat) : ConsumerPositions :=
  if position = u64Max then map
  else
    match map.lookup (shardId, consumer) with
    | some entry => if position > entry then map.insert (shardId, consumer) position else map
    | none => map.insert (shardId, consumer) position

def hydratorPosition (map : ConsumerPositions) (shardId : ShardId) : Option Nat :=
  map.lookup (shardId, hydratorConsumer)

/-- The least position, if every voter has one past the watermark. -/
def watermarkAdvanceDecision (positions : List (Option Nat)) (current : Nat) : Option Nat :=
  if positions = [] then none
  else do
    let least ← positions.foldlM (fun least p => p.map (min least)) u64Max
    if least > current then some least else none

/-- What a round proposes; a voter without an answer skips it. -/
def advanceHydratorWatermarkRound (voters : List NodeId) (gathered : NodeId → Option Nat)
    (current : Nat) : Option Nat :=
  if voters = [] then none
  else if voters.any fun v => (gathered v).isNone then none
  else watermarkAdvanceDecision (voters.map gathered) current

/-- A shard's nodes, proposals and state, and what hydrators have reached. -/
structure Consumption where
  reached : NodeId → Nat
  positions : NodeId → ConsumerPositions
  proposals : List Nat
  shard : ShardSmInner
  log : List Delta

namespace Consumption

def Heard (st : Consumption) (gathered : NodeId → Option Nat) : Prop :=
  ∀ v p, gathered v = some p →
    ∃ q, hydratorPosition (st.positions v) st.shard.shardId = some q ∧ p ≤ q

/-- Reports come in any order; proposals are applied late, repeatedly or never. -/
inductive Step (voters : List NodeId) : Consumption → Consumption → Prop
  | hydrate (v : NodeId) (n : Nat) (hle : st.reached v ≤ n) :
      Step voters st { st with reached := update st.reached v n }
  | report (v : NodeId) (shardId : ShardId) (consumer : String) (position : Nat)
      (hreached : shardId = st.shard.shardId → consumer = hydratorConsumer →
        position ≠ u64Max → position ≤ st.reached v) :
      Step voters st { st with
        positions := update st.positions v <|
          recordLocalPosition (st.positions v) shardId consumer position }
  | restart (v : NodeId) :
      Step voters st { st with positions := update st.positions v ∅ }
  | round (gathered : NodeId → Option Nat) (current : Nat) (hheard : st.Heard gathered)
      (hround : advanceHydratorWatermarkRound voters gathered current = some boundary) :
      Step voters st { st with proposals := boundary :: st.proposals }
  | advance (logIndex nowMs : Nat) (hmem : boundary ∈ st.proposals) :
      Step voters st { st with
        shard := st.shard.apply ⟨.advanceWatermark hydratorConsumer boundary, logIndex, nowMs⟩ }
  | entry (e : Applied)
      (he : ∀ consumer position, e.cmd ≠ .advanceWatermark consumer position) :
      Step voters st { st with
        shard := st.shard.apply e
        log := st.log ++ st.shard.pushed e }

def start (reached : NodeId → Nat) (shard : ShardSmInner) : Consumption where
  reached := reached
  positions := fun _ => ∅
  proposals := []
  shard := shard
  log := []

structure Inv (voters : List NodeId) (st : Consumption) : Prop where
  reported : ∀ v p, hydratorPosition (st.positions v) st.shard.shardId = some p → p ≤ st.reached v
  proposed : ∀ boundary ∈ st.proposals, ∀ v ∈ voters, boundary ≤ st.reached v
  watermarks : ∀ consumer p, st.shard.watermarks.lookup consumer = some p →
    ∀ v ∈ voters, p ≤ st.reached v
  shaped : st.shard.Shaped st.log
  pruned : ∀ d ∈ st.log, d ∉ st.shard.deltas → ∀ v ∈ voters, d.header.sequence < st.reached v

end Consumption

section
variable {voters : List NodeId} {st st' : Consumption} {gathered : NodeId → Option Nat}

lemma foldlM_min_some {positions : List (Option Nat)} {least b : Nat}
    (h : positions.foldlM (fun least p => p.map (min least)) least = some b) :
    b ≤ least ∧ ∀ o ∈ positions, ∃ p, o = some p ∧ b ≤ p := by
  induction positions generalizing least with
  | nil =>
    cases h
    exact ⟨le_refl _, fun _ ho => absurd ho not_mem_nil⟩
  | cons o positions ih =>
    cases o with
    | none => cases h
    | some p =>
      obtain ⟨hle, hrest⟩ := ih h
      refine ⟨hle.trans (min_le_left _ _), forall_mem_cons.2 ⟨?_, hrest⟩⟩
      exact ⟨p, rfl, hle.trans (min_le_right _ _)⟩

lemma watermarkAdvanceDecision_some {positions : List (Option Nat)}
    (h : watermarkAdvanceDecision positions current = some boundary) :
    ∀ o ∈ positions, ∃ p, o = some p ∧ boundary ≤ p := by
  rw [watermarkAdvanceDecision] at h
  split at h
  · cases h
  obtain ⟨least, hleast, hif⟩ := Option.bind_eq_some_iff.1 h
  split at hif
  · cases hif
    exact (foldlM_min_some hleast).2
  · cases hif

lemma advanceHydratorWatermarkRound_some
    (h : advanceHydratorWatermarkRound voters gathered current = some boundary)
    (hv : v ∈ voters) : ∃ p, gathered v = some p ∧ boundary ≤ p := by
  rw [advanceHydratorWatermarkRound] at h
  split at h
  · cases h
  split at h
  · cases h
  exact watermarkAdvanceDecision_some h _ (mem_map_of_mem hv)

lemma hydratorPosition_record {map : ConsumerPositions} {shardId shardId' : ShardId}
    {consumer : String} {position p : Nat}
    (h : hydratorPosition (recordLocalPosition map shardId' consumer position) shardId = some p) :
    hydratorPosition map shardId = some p ∨
      shardId' = shardId ∧ consumer = hydratorConsumer ∧ position ≠ u64Max ∧ p = position := by
  rw [recordLocalPosition] at h
  split at h
  · exact .inl h
  rename_i hmax
  have hinsert : hydratorPosition (map.insert (shardId', consumer) position) shardId = some p →
      hydratorPosition map shardId = some p ∨
        shardId' = shardId ∧ consumer = hydratorConsumer ∧ position ≠ u64Max ∧ p = position := by
    intro h
    obtain ⟨hkey, rfl⟩ | ⟨_, h⟩ := Maps.of_lookup_insert h
    · obtain ⟨rfl, rfl⟩ := Prod.mk.inj hkey
      exact .inr ⟨rfl, rfl, hmax, rfl⟩
    · exact .inl h
  split at h
  · split at h
    · exact hinsert h
    · exact .inl h
  · exact hinsert h

namespace Consumption

lemma Heard.blocked (h : st.Heard gathered) (hv : v ∈ voters)
    (hnone : hydratorPosition (st.positions v) st.shard.shardId = none) (current : Nat) :
    advanceHydratorWatermarkRound voters gathered current = none := by
  cases hround : advanceHydratorWatermarkRound voters gathered current with
  | none => rfl
  | some boundary =>
    obtain ⟨p, hp, _⟩ := advanceHydratorWatermarkRound_some hround hv
    obtain ⟨q, hq, _⟩ := h v p hp
    rw [hnone] at hq
    cases hq

section
variable (h : st.Inv voters)

include h

lemma Inv.round (hheard : st.Heard gathered)
    (hround : advanceHydratorWatermarkRound voters gathered current = some boundary) :
    ∀ v ∈ voters, boundary ≤ st.reached v := by
  intro v hv
  obtain ⟨p, hp, hle⟩ := advanceHydratorWatermarkRound_some hround hv
  obtain ⟨q, hq, hpq⟩ := hheard v p hp
  exact hle.trans (hpq.trans (h.reported v q hq))

lemma Inv.setPositions (v : NodeId) (map : ConsumerPositions)
    (hmap : ∀ p, hydratorPosition map st.shard.shardId = some p → p ≤ st.reached v) :
    Inv voters { st with positions := update st.positions v map } := by
  refine { h with reported := fun w p hp => ?_ }
  change hydratorPosition (update st.positions v map w) st.shard.shardId = some p at hp
  by_cases hw : w = v
  · subst hw
    rw [update_self] at hp
    exact hmap p hp
  · rw [update_of_ne hw] at hp
    exact h.reported w p hp

lemma Inv.advance (hle : ∀ v ∈ voters, boundary ≤ st.reached v) (logIndex nowMs : Nat) :
    Inv voters { st with
      shard := st.shard.apply ⟨.advanceWatermark hydratorConsumer boundary, logIndex, nowMs⟩ } := by
  let e : Applied := ⟨.advanceWatermark hydratorConsumer boundary, logIndex, nowMs⟩
  obtain ⟨least, hleast, hdeltas, hsuffix, htip, hcount, hmarks, hshard⟩ :=
    ShardSmInner.apply_advanceWatermark (e := e) h.shaped.sorted rfl
  have hwatermarks : ∀ consumer p, (st.shard.apply e).watermarks.lookup consumer = some p →
      ∀ v ∈ voters, p ≤ st.reached v := by
    intro consumer p hp v hv
    rw [hmarks] at hp
    by_cases hself : consumer = hydratorConsumer
    · rw [hself, ConsumerWatermarks.lookup_advance_self] at hp
      rw [← Option.some.inj hp]
      apply Nat.max_le.2 ⟨hle v hv, ?_⟩
      cases hold : st.shard.watermarks.lookup hydratorConsumer with
      | none => exact zero_le _
      | some q => exact h.watermarks _ q hold v hv
    · rw [ConsumerWatermarks.lookup_advance_of_ne hself] at hp
      exact h.watermarks consumer p hp v hv
  refine ⟨?_, h.proposed, hwatermarks, ?_, ?_⟩
  · rw [hshard]
    exact h.reported
  · refine ⟨?_, hsuffix.trans h.shaped.retained, hcount.trans h.shaped.counted⟩
    rw [htip]
    exact h.shaped.numbered
  · intro d hd hgone v hv
    by_cases hheld : d ∈ st.shard.deltas
    · rw [hdeltas, mem_filter, not_and, decide_eq_true_iff, not_le] at hgone
      obtain ⟨consumer, hconsumer⟩ := ConsumerWatermarks.exists_of_gcBoundary hleast
      exact (hgone hheld).trans_le (hwatermarks consumer least hconsumer v hv)
    · exact h.pruned d hd hheld v hv

lemma Inv.step (hstep : Step voters st st') : st'.Inv voters := by
  cases hstep with
  | hydrate v n hle =>
    have hmono : ∀ w, st.reached w ≤ update st.reached v n w := by
      intro w
      by_cases hw : w = v
      · subst hw
        rw [update_self]
        exact hle
      · rw [update_of_ne hw]
    exact {
      reported := fun w p hp => (h.reported w p hp).trans (hmono w)
      proposed := fun b hb w hw => (h.proposed b hb w hw).trans (hmono w)
      watermarks := fun c p hp w hw => (h.watermarks c p hp w hw).trans (hmono w)
      shaped := h.shaped
      pruned := fun d hd hgone w hw => (h.pruned d hd hgone w hw).trans_le (hmono w) }
  | report v shardId consumer position hreached =>
    refine h.setPositions v _ fun p hp => ?_
    rcases hydratorPosition_record hp with hold | ⟨hshard, hconsumer, hmax, rfl⟩
    · exact h.reported v p hold
    · exact hreached hshard hconsumer hmax
  | restart v => exact h.setPositions v ∅ fun p hp => nomatch hp
  | round gathered current hheard hround =>
    exact { h with proposed := forall_mem_cons.2 ⟨h.round hheard hround, h.proposed⟩ }
  | advance logIndex nowMs hmem => exact h.advance (h.proposed _ hmem) logIndex nowMs
  | entry e he =>
    obtain ⟨ds, hext⟩ := Extends.apply st.shard e he
    refine ⟨?_, h.proposed, ?_, h.shaped.apply e, ?_⟩
    · rw [hext.shardId]
      exact h.reported
    · rw [hext.watermarks]
      exact h.watermarks
    · intro d hd hgone
      rw [hext.deltas, mem_append, not_or] at hgone
      rw [hext.pushed, mem_append] at hd
      exact h.pruned d (hd.resolve_right hgone.2) hgone.1

lemma Inv.run (hrun : Relation.ReflTransGen (Step voters) st st') : st'.Inv voters := by
  induction hrun with
  | refl => exact h
  | tail _ hstep ih => exact ih.step hstep

end

lemma inv_start (reached : NodeId → Nat) (shardId : ShardId)
    (tenantId : OrgId) (windowEntries windowMs : Nat) (inlineStore : Option InlineMap) :
    (start reached (.new shardId tenantId windowEntries windowMs inlineStore)).Inv voters where
  reported := fun _ _ hp => nomatch hp
  proposed := fun _ hb => absurd hb not_mem_nil
  watermarks := fun _ _ hp => nomatch hp
  shaped := ShardSmInner.shaped_new shardId tenantId windowEntries windowMs inlineStore
  pruned := fun _ hd => absurd hd not_mem_nil

end Consumption

end

/-- Proposals stay below every voter, and no hydrator is pruned past. -/
theorem no_hydrator_pruned_past (voters : List NodeId) (reached : NodeId → Nat)
    (shardId : ShardId) (tenantId : OrgId) (windowEntries windowMs : Nat)
    (inlineStore : Option InlineMap) (st : Consumption)
    (hrun : Relation.ReflTransGen (Consumption.Step voters)
      (.start reached (.new shardId tenantId windowEntries windowMs inlineStore)) st) :
    (∀ boundary ∈ st.proposals, ∀ v ∈ voters, boundary ≤ st.reached v) ∧
      (∀ v ∈ voters, hydratorPosition (st.positions v) st.shard.shardId = none →
        ∀ gathered current, st.Heard gathered →
          advanceHydratorWatermarkRound voters gathered current = none) ∧
      ∀ v ∈ voters, ∀ d ∈ st.log, st.reached v ≤ d.header.sequence → d ∈ st.shard.deltas := by
  have hinv := (Consumption.inv_start reached shardId tenantId windowEntries windowMs
    inlineStore).run hrun
  refine ⟨hinv.proposed, fun v hv hnone _ current hheard => hheard.blocked hv hnone current, ?_⟩
  intro v hv d hd hle
  by_contra hgone
  exact not_lt.2 hle (hinv.pruned d hd hgone v hv)

/-- A node at position two reports it, and a round advances the watermark. -/
theorem no_hydrator_pruned_past_one_round :
    ∃ st : Consumption, st.proposals = [2] ∧ st.shard.watermarks.gcBoundary = some 2 ∧
      ∀ v ∈ [1], ∀ d ∈ st.log, st.reached v ≤ d.header.sequence → d ∈ st.shard.deltas := by
  let shard := plainShard 2 60000
  let st₁ : Consumption := { Consumption.start (fun _ => 2) shard with
    positions := update (fun _ => ∅) 1 <|
      recordLocalPosition ∅ shard.shardId hydratorConsumer 2 }
  let heard : NodeId → Option Nat := fun v => if v = 1 then some 2 else none
  have hreport : Consumption.Step [1] (.start (fun _ => 2) shard) st₁ :=
    .report 1 shard.shardId hydratorConsumer 2 fun _ _ _ => le_refl 2
  have hheard : st₁.Heard heard := by
    intro v p hp
    obtain ⟨rfl, rfl⟩ : v = 1 ∧ 2 = p := by simpa [heard] using hp
    have hmap : st₁.positions 1 = recordLocalPosition ∅ shard.shardId hydratorConsumer 2 := by
      simp only [st₁, update_self]
    refine ⟨2, ?_, le_refl 2⟩
    rw [hmap]
    exact Finmap.lookup_insert _
  have hround : Consumption.Step [1] st₁ { st₁ with proposals := [2] } := .round heard 0 hheard rfl
  have hadvance : Consumption.Step [1] { st₁ with proposals := [2] } { st₁ with
      proposals := [2]
      shard := shard.apply ⟨.advanceWatermark hydratorConsumer 2, 1, 0⟩ } :=
    .advance 1 0 mem_cons_self
  refine ⟨_, rfl, ?_, (no_hydrator_pruned_past [1] (fun _ => 2) _ _ 2 60000 none _
    (.tail (.tail (.single hreport) hround) hadvance)).2.2⟩
  rfl

end Kiseki.Log
