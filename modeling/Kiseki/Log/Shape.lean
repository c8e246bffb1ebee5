import Kiseki.Log.Record

namespace Kiseki.Log

open List ShardSmInner

def sequences (ds : List Delta) : List Nat :=
  ds.map fun d => d.header.sequence

def ShardSmInner.pushed (s : ShardSmInner) (e : Applied) : List Delta :=
  (s.apply e).deltas.drop s.deltas.length

def everAppended : ShardSmInner → List Applied → List Delta
  | _, [] => []
  | s, e :: es => s.pushed e ++ everAppended (s.apply e) es

/-- Deltas are numbered from one to the tip; the last are retained. -/
structure ShardSmInner.Shaped (s : ShardSmInner) (log : List Delta) : Prop where
  numbered : sequences log = List.range' 1 s.tip
  retained : s.deltas <:+ log
  counted : s.deltaCount = log.length

structure Extends (s s' : ShardSmInner) (ds : List Delta) : Prop where
  deltas : s'.deltas = s.deltas ++ ds
  numbered : sequences ds = List.range' (s.tip + 1) ds.length
  tip : s'.tip = s.tip + ds.length
  counted : s'.deltaCount = s.deltaCount + ds.length
  watermarks : s'.watermarks = s.watermarks
  shardId : s'.shardId = s.shardId

section
variable {s s' s'' : ShardSmInner} {log ds ds' : List Delta} {e : Applied}

lemma Extends.refl (s : ShardSmInner) : Extends s s [] :=
  ⟨(append_nil _).symm, rfl, rfl, rfl, rfl, rfl⟩

lemma Extends.congr (h : Extends s s' ds) (hdeltas : s''.deltas = s'.deltas)
    (htip : s''.tip = s'.tip) (hcount : s''.deltaCount = s'.deltaCount)
    (hmarks : s''.watermarks = s'.watermarks) (hshard : s''.shardId = s'.shardId) :
    Extends s s'' ds :=
  ⟨hdeltas.trans h.deltas, h.numbered, htip.trans h.tip, hcount.trans h.counted,
    hmarks.trans h.watermarks, hshard.trans h.shardId⟩

lemma Extends.trans (h : Extends s s' ds) (h' : Extends s' s'' ds') :
    Extends s s'' (ds ++ ds') where
  deltas := by rw [h'.deltas, h.deltas, append_assoc]
  numbered := by
    have hnext : s.tip + 1 + ds.length = s'.tip + 1 := by
      rw [h.tip]
      omega
    rw [sequences, map_append, ← sequences, ← sequences, h.numbered, h'.numbered,
      length_append, ← range'_append_1, hnext]
  tip := by rw [h'.tip, h.tip, length_append, Nat.add_assoc]
  counted := by rw [h'.counted, h.counted, length_append, Nat.add_assoc]
  watermarks := h'.watermarks.trans h.watermarks
  shardId := h'.shardId.trans h.shardId

lemma Extends.appendDeltaInner (s : ShardSmInner) (args : DeltaArgs) (logIndex : Nat)
    (batch : InlineBatch) :
    ∃ ds, Extends s (s.appendDeltaInner args logIndex batch).1 ds :=
  ⟨_, rfl, rfl, rfl, rfl, rfl, rfl⟩

lemma Extends.ofNewChunks {tenantIdBytes : Uuid} {newChunks : List NewChunkMeta} {logIndex : Nat}
    (h : Extends (s.applyNewChunks tenantIdBytes newChunks logIndex) s' ds) : Extends s s' ds := by
  obtain ⟨_, _, heq⟩ := s.applyNewChunks_eq tenantIdBytes newChunks logIndex
  rw [heq] at h
  exact ⟨h.deltas, h.numbered, h.tip, h.counted, h.watermarks, h.shardId⟩

lemma Extends.applyOneIncorporate (s : ShardSmInner) (item : IncorporateItem)
    (logIndex nowMs : Nat) :
    ∃ ds, Extends s (s.applyOneIncorporate item logIndex nowMs []).1 ds := by
  rw [ShardSmInner.applyOneIncorporate]
  split
  · exact ⟨[], .refl s⟩
  · obtain ⟨ds, h⟩ := appendDeltaInner
      (s.applyNewChunks item.tenantIdBytes item.newChunks logIndex) item.toDeltaArgs logIndex []
    exact ⟨ds, .ofNewChunks (h.congr rfl rfl rfl rfl rfl)⟩

lemma Extends.afterItems (s : ShardSmInner) (logIndex nowMs : Nat)
    (items : List IncorporateItem) :
    ∃ ds, Extends s (ShardSmInner.afterItems logIndex nowMs items s) ds := by
  induction items generalizing s with
  | nil => exact ⟨[], .refl s⟩
  | cons item items ih =>
    obtain ⟨ds, h⟩ := applyOneIncorporate s item logIndex nowMs
    obtain ⟨ds', h'⟩ := ih (s.applyOneIncorporate item logIndex nowMs []).1
    exact ⟨ds ++ ds', h.trans h'⟩

lemma Extends.apply (s : ShardSmInner) (e : Applied)
    (hadvance : ∀ consumer position, e.cmd ≠ .advanceWatermark consumer position) :
    ∃ ds, Extends s (s.apply e) ds := by
  by_cases hc : e.cmd.isControl = true
  · obtain ⟨_, _, _, _, _, _, _, heq⟩ := s.applyCommandAt_control hc e.logIndex e.nowMs
    rw [ShardSmInner.apply, heq]
    exact ⟨[], (Extends.refl s).congr rfl rfl rfl rfl rfl⟩
  obtain ⟨cmd, logIndex, nowMs⟩ := e
  cases cmd with
  | appendDelta args =>
    obtain ⟨ds, h⟩ := appendDeltaInner s args logIndex []
    exact ⟨ds, h.congr rfl rfl rfl rfl rfl⟩
  | chunkAndDelta args newChunks inlinePayloads =>
    obtain ⟨ds, h⟩ := appendDeltaInner (s.applyNewChunks args.tenantIdBytes newChunks logIndex)
      args logIndex []
    exact ⟨ds, .ofNewChunks (h.congr rfl rfl rfl rfl rfl)⟩
  | incorporateIntent item =>
    obtain ⟨ds, h⟩ := afterItems s logIndex nowMs [item]
    exact ⟨ds, h.congr rfl rfl rfl rfl rfl⟩
  | incorporateIntents items =>
    obtain ⟨ds, h⟩ := afterItems s logIndex nowMs items
    rw [← applyItems_fst logIndex nowMs items (s, [])] at h
    exact ⟨ds, h.congr rfl rfl rfl rfl rfl⟩
  | advanceWatermark consumer position => exact absurd rfl (hadvance consumer position)
  | _ => exact absurd rfl hc

lemma Extends.pushed (h : Extends s (s.apply e) ds) : s.pushed e = ds := by
  rw [ShardSmInner.pushed, h.deltas, drop_left]

lemma drop_length_takeWhile (p : α → Bool) (l : List α) :
    l.drop (l.takeWhile p).length = l.dropWhile p := by
  calc l.drop (l.takeWhile p).length
      = (l.takeWhile p ++ l.dropWhile p).drop (l.takeWhile p).length := by
        rw [takeWhile_append_dropWhile]
    _ = l.dropWhile p := drop_left

lemma sorted_of_sequences (h : sequences log = List.range' first n) :
    log.Pairwise fun a b => a.header.sequence < b.header.sequence := by
  rw [← pairwise_map (f := fun d : Delta => d.header.sequence) (R := (· < ·))]
  change (sequences log).Pairwise _
  rw [h]
  exact pairwise_lt_range'

namespace ShardSmInner

lemma Shaped.sorted (h : s.Shaped log) :
    s.deltas.Pairwise fun a b => a.header.sequence < b.header.sequence :=
  (sorted_of_sequences h.numbered).sublist h.retained.sublist

lemma Shaped.length (h : s.Shaped log) : log.length = s.tip := by
  have hlength := congrArg List.length h.numbered
  rw [sequences, length_map, length_range'] at hlength
  exact hlength

lemma Shaped.contiguous (h : s.Shaped log) :
    s.deltas.length ≤ s.tip ∧
      sequences s.deltas = List.range' (s.tip + 1 - s.deltas.length) s.deltas.length := by
  have hle : s.deltas.length ≤ s.tip := by
    rw [← h.length]
    exact h.retained.length_le
  refine ⟨hle, ?_⟩
  have hdrop := suffix_iff_eq_drop.1 h.retained
  have hmap : sequences s.deltas = (sequences log).drop (log.length - s.deltas.length) := by
    rw [sequences, sequences, ← map_drop, ← hdrop]
  rw [hmap, h.numbered, drop_range', h.length]
  congr 1 <;> omega

lemma pruneDeltasBelowGcBoundary_eq
    (hsorted : s.deltas.Pairwise fun a b => a.header.sequence < b.header.sequence)
    (hboundary : s.watermarks.gcBoundary = some boundary) :
    s.pruneDeltasBelowGcBoundary.deltas =
        s.deltas.filter (fun d => decide (boundary ≤ d.header.sequence)) ∧
      s.pruneDeltasBelowGcBoundary.deltas <:+ s.deltas ∧
      s.pruneDeltasBelowGcBoundary.tip = s.tip ∧
      s.pruneDeltasBelowGcBoundary.deltaCount = s.deltaCount ∧
      s.pruneDeltasBelowGcBoundary.watermarks = s.watermarks ∧
      s.pruneDeltasBelowGcBoundary.shardId = s.shardId := by
  rw [pruneDeltasBelowGcBoundary, hboundary]
  refine ⟨?_, drop_suffix _ _, rfl, rfl, rfl, rfl⟩
  rw [← dropWhile_lt_of_sorted boundary hsorted]
  exact drop_length_takeWhile _ _

lemma apply_advanceWatermark
    (hsorted : s.deltas.Pairwise fun a b => a.header.sequence < b.header.sequence)
    {consumer : String} {position : Nat} (hcmd : e.cmd = .advanceWatermark consumer position) :
    ∃ boundary, (s.apply e).watermarks.gcBoundary = some boundary ∧
      (s.apply e).deltas = s.deltas.filter (fun d => decide (boundary ≤ d.header.sequence)) ∧
      (s.apply e).deltas <:+ s.deltas ∧ (s.apply e).tip = s.tip ∧
      (s.apply e).deltaCount = s.deltaCount ∧
      (s.apply e).watermarks = s.watermarks.advance consumer position ∧
      (s.apply e).shardId = s.shardId := by
  obtain ⟨cmd, logIndex, nowMs⟩ := e
  subst hcmd
  obtain ⟨boundary, hboundary⟩ := s.watermarks.gcBoundary_advance consumer position
  obtain ⟨hdeltas, hsuffix, htip, hcount, hmarks, hshard⟩ := pruneDeltasBelowGcBoundary_eq
    (s := { s with watermarks := s.watermarks.advance consumer position }) hsorted hboundary
  exact ⟨boundary, (congrArg ConsumerWatermarks.gcBoundary hmarks).trans hboundary, hdeltas,
    hsuffix, htip, hcount, hmarks, hshard⟩

/-- An entry appends its records from the tip on, or prunes. -/
structure StepShaped (s : ShardSmInner) (e : Applied) : Prop where
  appends : sequences (s.pushed e) = List.range' (s.tip + 1) (s.pushed e).length
  records : List.Forall₂ (fun d p => d.header.sequence = p.1 ∧ d.label = p.2.toDeltaLabel)
    (s.pushed e) (s.records e)
  extends_of_ne : (∀ consumer position, e.cmd ≠ .advanceWatermark consumer position) →
    (s.apply e).deltas = s.deltas ++ s.pushed e
  prunes : ∀ consumer position, e.cmd = .advanceWatermark consumer position →
    ∃ boundary, (s.apply e).watermarks.gcBoundary = some boundary ∧
      (s.apply e).deltas = s.deltas.filter fun d => decide (boundary ≤ d.header.sequence)

lemma pushed_eq_nil_of_suffix (h : (s.apply e).deltas <:+ s.deltas) : s.pushed e = [] :=
  drop_eq_nil_of_le h.length_le

lemma Shaped.sequenced (h : s.Shaped log) : s.Sequenced := by
  refine ⟨h.sorted, fun d hd => ?_⟩
  have hmem : d.header.sequence ∈ sequences log := mem_map_of_mem (h.retained.subset hd)
  rw [h.numbered, mem_range'_1] at hmem
  omega

lemma Sequenced.deltas_suffix (h : s.Sequenced) (he : e.cmd.appends ≠ true) :
    (s.apply e).deltas <:+ s.deltas := by
  by_cases hc : e.cmd.isControl = true
  · obtain ⟨_, _, _, _, _, _, _, heq⟩ := s.applyCommandAt_control hc e.logIndex e.nowMs
    rw [ShardSmInner.apply, heq]
  · cases hcmd : e.cmd with
    | advanceWatermark consumer position =>
      obtain ⟨_, _, _, hsuffix, _⟩ := apply_advanceWatermark h.sorted hcmd
      exact hsuffix
    | _ =>
      rw [hcmd] at hc he
      first | exact absurd rfl hc | exact absurd rfl he

lemma Sequenced.pushed (h : s.Sequenced) (e : Applied) :
    List.Forall₂ (fun d p => d.header.sequence = p.1 ∧ d.label = p.2.toDeltaLabel)
      (s.pushed e) (s.records e) := by
  by_cases ha : e.cmd.appends = true
  · have hheld := forall₂_drop_append _ _ _ (h.recorded.apply ha).held
    rw [readRecord, length_map] at hheld
    exact hheld
  · have hnone : s.records e = [] := by
      obtain ⟨cmd, logIndex, nowMs⟩ := e
      cases cmd <;> first | rfl | exact absurd rfl ha
    rw [pushed_eq_nil_of_suffix (h.deltas_suffix ha), hnone]
    exact .nil

lemma Shaped.step (h : s.Shaped log) (e : Applied) : s.StepShaped e := by
  have hrecords := h.sequenced.pushed e
  by_cases hadvance : ∃ consumer position, e.cmd = .advanceWatermark consumer position
  · obtain ⟨consumer, position, hcmd⟩ := hadvance
    obtain ⟨boundary, hboundary, hdeltas, hsuffix, _⟩ := apply_advanceWatermark h.sorted hcmd
    refine ⟨?_, hrecords, fun hne => absurd hcmd (hne consumer position), ?_⟩
    · rw [pushed_eq_nil_of_suffix hsuffix]
      rfl
    · exact fun _ _ _ => ⟨boundary, hboundary, hdeltas⟩
  · have hne : ∀ consumer position, e.cmd ≠ .advanceWatermark consumer position :=
      fun consumer position hcmd => hadvance ⟨consumer, position, hcmd⟩
    obtain ⟨ds, hext⟩ := Extends.apply s e hne
    refine ⟨?_, hrecords, fun _ => ?_,
      fun consumer position hcmd => absurd hcmd (hne consumer position)⟩
    · rw [hext.pushed]
      exact hext.numbered
    · rw [hext.pushed]
      exact hext.deltas

lemma Shaped.apply (h : s.Shaped log) (e : Applied) : (s.apply e).Shaped (log ++ s.pushed e) := by
  by_cases hadvance : ∃ consumer position, e.cmd = .advanceWatermark consumer position
  · obtain ⟨consumer, position, hcmd⟩ := hadvance
    obtain ⟨_, _, _, hsuffix, htip, hcount, _⟩ := apply_advanceWatermark h.sorted hcmd
    rw [pushed_eq_nil_of_suffix hsuffix, append_nil]
    refine ⟨?_, hsuffix.trans h.retained, hcount.trans h.counted⟩
    rw [htip]
    exact h.numbered
  · obtain ⟨ds, hext⟩ := Extends.apply s e
      fun consumer position hcmd => hadvance ⟨consumer, position, hcmd⟩
    rw [hext.pushed]
    refine ⟨?_, ?_, ?_⟩
    · have hnext : s.tip + 1 = 1 + s.tip := Nat.add_comm _ _
      rw [sequences, map_append, ← sequences, ← sequences, h.numbered, hext.numbered,
        hext.tip, hnext, range'_append_1]
    · rw [hext.deltas]
      obtain ⟨front, hfront⟩ := h.retained
      exact ⟨front, by rw [← hfront, append_assoc]⟩
    · rw [hext.counted, h.counted, length_append]

lemma Shaped.run (h : s.Shaped log) (es : List Applied) :
    (s.run es).Shaped (log ++ everAppended s es) := by
  induction es generalizing s log with
  | nil =>
    rw [everAppended, append_nil]
    exact h
  | cons e es ih =>
    rw [everAppended, ← append_assoc]
    exact ih (h.apply e)

lemma shaped_new (shardId : ShardId) (tenantId : OrgId) (windowEntries windowMs : Nat)
    (inlineStore : Option InlineMap) :
    (new shardId tenantId windowEntries windowMs inlineStore).Shaped [] :=
  ⟨rfl, suffix_refl [], rfl⟩

end ShardSmInner

end

/-- What is retained is the numbered end of all that was appended. -/
theorem delta_log_of_run (shardId : ShardId) (tenantId : OrgId) (windowEntries windowMs : Nat)
    (inlineStore : Option InlineMap) (es : List Applied) :
    let start := new shardId tenantId windowEntries windowMs inlineStore
    let s := start.run es
    s.Shaped (everAppended start es) ∧
      (s.deltas.length ≤ s.tip ∧
        sequences s.deltas = range' (s.tip + 1 - s.deltas.length) s.deltas.length) ∧
      ∀ e, s.StepShaped e := by
  intro start s
  have hshaped : s.Shaped (everAppended start es) :=
    (shaped_new shardId tenantId windowEntries windowMs inlineStore).run es
  exact ⟨hshaped, hshaped.contiguous, fun e => hshaped.step e⟩

end Kiseki.Log
