import Kiseki.Log.Install
import Kiseki.Log.Store

namespace Kiseki.Log

open ShardSmInner List Bool Option SerializableDelta

def ShardSmInner.inlinePayload (s : ShardSmInner) (key : Key32) : Bytes :=
  (s.inlineGet key).getD []

/-- The same log up to stamps, with a batch still to be written. -/
structure SameLog (batch : InlineBatch) (a b : ShardSmInner) : Prop where
  tip : a.tip = b.tip
  deltaCount : a.deltaCount = b.deltaCount
  watermarks : a.watermarks = b.watermarks
  shardId : a.shardId = b.shardId
  window : a.window = b.window
  inline : a.inlineStore.isSome = b.inlineStore.isSome
  deltas : a.deltas.map Delta.unstamped = b.deltas.map Delta.unstamped
  payloads : ∀ d ∈ a.deltas, d.header.hasInlineData = true →
    (a.flushInlineBatch batch).inlinePayload d.inlineKey =
      (b.flushInlineBatch batch).inlinePayload d.inlineKey

variable {s : ShardSmInner}

lemma ShardSmInner.inlineGet_flushInlineBatch (batch : InlineBatch)
    (key : Key32) : (s.flushInlineBatch batch).inlineGet key =
      if s.inlineStore.isSome then (lastPut key batch).or (s.inlineGet key) else none := by
  simp only [inlineGet, flushInlineBatch]
  cases s.inlineStore with
  | none => rfl
  | some store => exact store.lookup_putMany batch key

lemma ShardSmInner.flushInlineBatch_append (s : ShardSmInner) (batch more : InlineBatch) :
    s.flushInlineBatch (batch ++ more) = (s.flushInlineBatch batch).flushInlineBatch more := by
  simp only [flushInlineBatch, InlineMap.putMany_append]
  cases s.inlineStore <;> rfl

lemma ShardSmInner.flushInlineBatch_nil : s.flushInlineBatch [] = s := by
  have hsame : s.inlineStore.map (fun store => store.putMany []) = s.inlineStore := by
    cases s.inlineStore <;> rfl
  rw [flushInlineBatch, hsame]

section
variable {a b : ShardSmInner} {batch : InlineBatch}

lemma inlinePayload_flush (hinline : a.inlineStore.isSome = b.inlineStore.isSome)
    (h : a.inlinePayload key = b.inlinePayload key) :
    (a.flushInlineBatch batch).inlinePayload key =
      (b.flushInlineBatch batch).inlinePayload key := by
  simp only [inlinePayload, inlineGet_flushInlineBatch, hinline] at h ⊢
  split
  · cases lastPut key batch with
    | none => exact h
    | some data => rfl
  · rfl

section
variable (h : SameLog batch a b)

include h

namespace SameLog

lemma extend (more : InlineBatch) : SameLog (batch ++ more) a b := by
  refine { h with payloads := ?_ }
  intro d hd hinline
  rw [a.flushInlineBatch_append, b.flushInlineBatch_append]
  apply inlinePayload_flush
  · simp only [flushInlineBatch, isSome_map]
    exact h.inline
  · exact h.payloads d hd hinline

lemma flush : SameLog [] (a.flushInlineBatch batch) (b.flushInlineBatch batch) := by
  refine { h with inline := ?_, payloads := ?_ }
  · simp only [flushInlineBatch, isSome_map]
    exact h.inline
  · intro d hd hinline
    rw [flushInlineBatch_nil, flushInlineBatch_nil]
    exact h.payloads d hd hinline

lemma applyNewChunks (tenantIdBytes : Uuid)
    (newChunks : List NewChunkMeta) (logIndex : Nat) :
    SameLog batch (a.applyNewChunks tenantIdBytes newChunks logIndex)
      (b.applyNewChunks tenantIdBytes newChunks logIndex) := by
  obtain ⟨_, _, ha⟩ := a.applyNewChunks_eq tenantIdBytes newChunks logIndex
  obtain ⟨_, _, hb⟩ := b.applyNewChunks_eq tenantIdBytes newChunks logIndex
  rw [ha, hb]
  exact ⟨h.tip, h.deltaCount, h.watermarks, h.shardId, h.window, h.inline, h.deltas, h.payloads⟩

lemma queue_eq (payloads : List InlinePayloadEntry) :
    a.queueInlinePayloads payloads batch = b.queueInlinePayloads payloads batch := by
  rw [queueInlinePayloads, queueInlinePayloads, h.inline]

lemma queueInlinePayloads (payloads : List InlinePayloadEntry) :
    SameLog (a.queueInlinePayloads payloads batch) a b := by
  rw [ShardSmInner.queueInlinePayloads]
  split
  · exact h.extend _
  · exact h

lemma offloads_eq (args : DeltaArgs) : a.offloads args = b.offloads args :=
  congrArg (args.hasInlineData && ·) h.inline

lemma appendDeltaInner (args : DeltaArgs) (logIndex : Nat) :
    SameLog (a.appendDeltaInner args logIndex batch).2
      (a.appendDeltaInner args logIndex batch).1 (b.appendDeltaInner args logIndex batch).1 := by
  have hoff := h.offloads_eq args
  have hold : SameLog (a.appendDeltaInner args logIndex batch).2 a b := by
    simp only [ShardSmInner.appendDeltaInner]
    split
    · exact h.extend _
    · exact h
  refine { h with
    tip := congrArg (· + 1) h.tip, deltaCount := congrArg (· + 1) h.deltaCount,
    deltas := ?_, payloads := ?_ }
  · change (a.deltas ++ [_]).map _ = (b.deltas ++ [_]).map _
    rw [map_append, map_append, h.deltas, h.tip, h.shardId, hoff]
  · intro d hd hinline
    rcases mem_append.1 hd with hd | hd
    · exact hold.payloads d hd hinline
    · obtain rfl := mem_singleton.1 hd
      cases hsome : a.inlineStore with
      | none =>
        have hnone : b.inlineStore = none := by
          rw [← not_isSome_iff_eq_none, ← h.inline, hsome]
          exact false_ne_true
        simp only [inlinePayload, inlineGet,
          flushInlineBatch, ShardSmInner.appendDeltaInner, hsome, hnone]
      | some store =>
        have hyes : a.offloads args = true :=
          and_eq_true_iff.2 ⟨hinline, by rw [hsome]; rfl⟩
        have hlast : lastPut (deriveInlineKey args.hashedKey (a.tip + 1))
            (a.appendDeltaInner args logIndex batch).2 = some args.payload := by
          simp only [ShardSmInner.appendDeltaInner, hyes, if_true]
          rw [lastPut, foldl_append, foldl_cons, foldl_nil, if_pos rfl]
        have hkey : (mkDelta a.shardId (a.tip + 1) args (a.offloads args) logIndex).inlineKey =
            deriveInlineKey args.hashedKey (a.tip + 1) := rfl
        rw [hkey]
        simp only [inlinePayload, inlineGet_flushInlineBatch, hlast]
        change (if a.inlineStore.isSome = true then _ else _ : Option Bytes).getD [] =
          (if b.inlineStore.isSome = true then _ else _ : Option Bytes).getD []
        rw [← h.inline, hsome]
        rfl

lemma pushRecentAndEvict (logIndex : Nat) (seq : HybridLogicalClock) (nowMs : Nat) :
    SameLog batch (a.pushRecentAndEvict logIndex seq nowMs)
      (b.pushRecentAndEvict logIndex seq nowMs) := by
  refine { h with window := ?_ }
  rw [window_pushRecentAndEvict, window_pushRecentAndEvict, h.window]

lemma applyOneIncorporate (item : IncorporateItem) (logIndex nowMs : Nat) :
    (a.applyOneIncorporate item logIndex nowMs batch).2 =
        (b.applyOneIncorporate item logIndex nowMs batch).2 ∧
      SameLog (a.applyOneIncorporate item logIndex nowMs batch).2
        (a.applyOneIncorporate item logIndex nowMs batch).1
        (b.applyOneIncorporate item logIndex nowMs batch).1 := by
  have hgate : a.refuses item.perspectiveSeq logIndex = b.refuses item.perspectiveSeq logIndex := by
    rw [refuses_window, refuses_window, h.window]
  rw [ShardSmInner.applyOneIncorporate, ShardSmInner.applyOneIncorporate, hgate]
  split
  · exact ⟨rfl, h⟩
  · have hchunks := h.applyNewChunks item.tenantIdBytes item.newChunks logIndex
    have hqueued := hchunks.queueInlinePayloads item.inlinePayloads
    have hpushed := (hqueued.appendDeltaInner item.toDeltaArgs logIndex).pushRecentAndEvict
      logIndex item.perspectiveSeq nowMs
    simp only [incorporate]
    rw [← hchunks.queue_eq]
    exact ⟨append_batch_eq hqueued.tip hqueued.inline _ _ _, hpushed⟩

lemma applyItems (logIndex nowMs : Nat) (items : List IncorporateItem) :
    (applyItems logIndex nowMs items (a, batch)).2 =
        (applyItems logIndex nowMs items (b, batch)).2 ∧
      SameLog (applyItems logIndex nowMs items (a, batch)).2
        (applyItems logIndex nowMs items (a, batch)).1
        (applyItems logIndex nowMs items (b, batch)).1 := by
  induction items generalizing a b batch with
  | nil => exact ⟨rfl, h⟩
  | cons item items ih =>
    obtain ⟨hbatch, hnext⟩ := h.applyOneIncorporate item logIndex nowMs
    have hrest := ih hnext
    simp only [applyItems]
    rw [show b.applyOneIncorporate item logIndex nowMs batch =
      ((b.applyOneIncorporate item logIndex nowMs batch).1,
        (a.applyOneIncorporate item logIndex nowMs batch).2) from Prod.ext rfl hbatch.symm]
    exact hrest

end SameLog

end

lemma takeWhile_unstamped (l : List Delta) (p : Nat → Bool) :
    (l.takeWhile fun d => p d.header.sequence).map Delta.unstamped =
      (l.map Delta.unstamped).takeWhile fun d => p d.header.sequence := by
  rw [takeWhile_map]
  rfl

lemma dropWhile_unstamped (l : List Delta) (p : Nat → Bool) :
    (l.dropWhile fun d => p d.header.sequence).map Delta.unstamped =
      (l.map Delta.unstamped).dropWhile fun d => p d.header.sequence := by
  rw [dropWhile_map]
  rfl

lemma inlineKeys_unstamped (l : List Delta) :
    (l.filter fun d => d.header.hasInlineData).map Delta.inlineKey =
      ((l.map Delta.unstamped).filter fun d => d.header.hasInlineData).map Delta.inlineKey := by
  rw [List.filter_map, List.map_map]
  rfl

lemma SameLog.pruneDeltasBelowGcBoundary (h : SameLog [] a b) :
    SameLog [] a.pruneDeltasBelowGcBoundary b.pruneDeltasBelowGcBoundary := by
  simp only [ShardSmInner.pruneDeltasBelowGcBoundary, h.watermarks]
  split
  · exact h
  · rename_i boundary _
    let below (s : ShardSmInner) := s.deltas.takeWhile fun d =>
      decide (d.header.sequence < boundary)
    have hbelow : (below a).map Delta.unstamped = (below b).map Delta.unstamped := by
      rw [takeWhile_unstamped _ (fun n => decide (n < boundary)),
        takeWhile_unstamped _ (fun n => decide (n < boundary)), h.deltas]
    have hkeys : ((below a).filter fun d => d.header.hasInlineData).map Delta.inlineKey =
        ((below b).filter fun d => d.header.hasInlineData).map Delta.inlineKey := by
      rw [inlineKeys_unstamped (below a), inlineKeys_unstamped (below b), hbelow]
    have hlength : (below a).length = (below b).length := by
      simpa only [length_map] using congrArg length hbelow
    refine { h with watermarks := rfl, inline := ?_, deltas := ?_, payloads := ?_ }
    · rw [isSome_map, isSome_map]
      exact h.inline
    · change (a.deltas.drop (below a).length).map _ = (b.deltas.drop (below b).length).map _
      rw [map_drop, map_drop, h.deltas, hlength]
    · intro d hd hinline
      have hpayload := h.payloads d (mem_of_mem_drop hd) hinline
      simp only [flushInlineBatch_nil] at hpayload ⊢
      simp only [inlinePayload, inlineGet] at hpayload ⊢
      change ((a.inlineStore.map fun store => store.deleteMany
          (((below a).filter fun d => d.header.hasInlineData).map Delta.inlineKey)).bind _).getD
            [] =
        ((b.inlineStore.map fun store => store.deleteMany
          (((below b).filter fun d => d.header.hasInlineData).map Delta.inlineKey)).bind _).getD []
      rw [hkeys]
      have hsome := h.inline
      cases ha : a.inlineStore with
      | none =>
        rw [ha] at hsome
        rw [isSome_eq_false_iff.1 hsome.symm |> isNone_iff_eq_none.1]
      | some storeA =>
        rw [ha] at hsome hpayload
        obtain ⟨storeB, hb⟩ := isSome_iff_exists.1 hsome.symm
        rw [hb] at hpayload ⊢
        simp only [map_some, bind_some, InlineMap.lookup_deleteMany] at hpayload ⊢
        split
        · rfl
        · exact hpayload

lemma SameLog.apply (h : SameLog [] a b) (e : Applied) : SameLog [] (a.apply e) (b.apply e) := by
  obtain ⟨cmd, logIndex, nowMs⟩ := e
  by_cases hc : cmd.isControl = true
  · obtain ⟨_, _, _, _, _, _, _, ha⟩ := a.applyCommandAt_control hc logIndex nowMs
    obtain ⟨_, _, _, _, _, _, _, hb⟩ := b.applyCommandAt_control hc logIndex nowMs
    simp only [ShardSmInner.apply]
    rw [ha, hb]
    exact ⟨h.tip, h.deltaCount, h.watermarks, h.shardId, h.window, h.inline, h.deltas, h.payloads⟩
  cases cmd with
  | appendDelta args =>
    have hstep := (h.appendDeltaInner args logIndex).flush
    have hbatch := append_batch_eq h.tip h.inline args logIndex []
    simp only [ShardSmInner.apply, applyCommandAt]
    rw [← hbatch]
    exact hstep
  | chunkAndDelta args newChunks inlinePayloads =>
    have hchunks := h.applyNewChunks args.tenantIdBytes newChunks logIndex
    have hqueued := hchunks.queueInlinePayloads inlinePayloads
    simp only [ShardSmInner.apply, applyCommandAt]
    rw [← hchunks.queue_eq, ← append_batch_eq hqueued.tip hqueued.inline]
    exact (hqueued.appendDeltaInner args logIndex).flush
  | incorporateIntent item =>
    obtain ⟨hbatch, hnext⟩ := h.applyOneIncorporate item logIndex nowMs
    simp only [ShardSmInner.apply, applyCommandAt]
    rw [← hbatch]
    exact hnext.flush
  | incorporateIntents items =>
    obtain ⟨hbatch, hnext⟩ := h.applyItems logIndex nowMs items
    simp only [ShardSmInner.apply, applyCommandAt]
    rw [← hbatch]
    exact hnext.flush
  | advanceWatermark consumer position =>
    apply SameLog.pruneDeltasBelowGcBoundary
    exact { h with watermarks := congrArg (·.advance consumer position) h.watermarks }
  | _ => exact absurd rfl hc

lemma SameLog.run (h : SameLog [] a b) (es : List Applied) : SameLog [] (a.run es) (b.run es) := by
  induction es generalizing a b with
  | nil => exact h
  | cons e es ih => exact ih (h.apply e)

lemma Delta.Plain.restore (hd : d ∈ a.deltas) (h : a.Plain) :
    (restoreDelta a.inlineStore.isSome (a.readBack d)).unstamped = d.unstamped := by
  obtain ⟨henv, hoff⟩ := h d hd
  obtain ⟨header, payload⟩ := d
  have hrefs : header.chunkRefs.map (ChunkId.mk ∘ ChunkId.bytes) = header.chunkRefs :=
    map_id _
  have hplain : (fromDelta ⟨header, payload⟩).toDelta.unstamped =
      Delta.unstamped ⟨header, payload⟩ := by
    simp only [toDelta, fromDelta, Delta.unstamped,
      u8ToOp_opToU8, List.map_map, hrefs]
    exact congrArg (Delta.mk _) henv.symm
  cases hsome : a.inlineStore with
  | none =>
    have hback : a.readBack ⟨header, payload⟩ = fromDelta ⟨header, payload⟩ := by
      simp only [readBack, hsome]
      split <;> rfl
    rw [hback, restoreDelta, isSome_none, Bool.and_false]
    exact hplain
  | some store =>
    cases hinline : header.hasInlineData with
    | false =>
      have hback : a.readBack ⟨header, payload⟩ =
          fromDelta ⟨header, payload⟩ := by
        simp only [readBack, hinline]
        exact if_neg fun h => Bool.false_ne_true h.1
      have hkeep : (fromDelta ⟨header, payload⟩).hasInlineData = false := hinline
      rw [hback, restoreDelta, hkeep]
      exact hplain
    | true =>
      have hempty : payload.ciphertext = [] := hoff (by rw [hsome]; rfl) hinline
      have hback : ∃ data, a.readBack ⟨header, payload⟩ =
          { fromDelta ⟨header, payload⟩ with ciphertext := data } := by
        simp only [readBack]
        split
        · split <;> exact ⟨_, rfl⟩
        · exact ⟨_, rfl⟩
      obtain ⟨data, hback⟩ := hback
      have hclear := hinline
      have hcleared : restoreDelta true
          { fromDelta ⟨header, payload⟩ with ciphertext := data } =
          (fromDelta ⟨header, { payload with ciphertext := [] }⟩).toDelta :=
        if_pos (and_eq_true_iff.2 ⟨hclear, rfl⟩)
      have hsame : { payload with ciphertext := [] } = payload := by rw [← hempty]
      rw [hback, isSome_some, hcleared, hsame]
      exact hplain

lemma sameLog_install (hplain : a.Plain)
    (hmirror : a.window.seqs = (seqsOf a.window.recent).toFinset)
    (hr : b.inlineStore = a.inlineStore.map fun _ => ∅) :
    SameLog [] a (b.installSnapshot a.buildSnapshot a.dedupWindowEntries a.dedupWindowMs) where
  tip := rfl
  deltaCount := rfl
  watermarks := rfl
  shardId := rfl
  window := by
    change a.window = { a.window with seqs := (seqsOf a.window.recent).toFinset }
    rw [← hmirror]
  inline := by rw [installSnapshot, isSome_map, hr, isSome_map]
  deltas := by
    change _ = ((a.deltas.map a.readBack).map (restoreDelta b.inlineStore.isSome)).map _
    rw [hr, isSome_map, List.map_map, List.map_map]
    exact map_congr_left fun d hd => (Delta.Plain.restore hd hplain).symm
  payloads := by
    intro d hd hinline
    rw [flushInlineBatch_nil, flushInlineBatch_nil, inlinePayload, inlinePayload,
      inlineGet_installSnapshot, inlineGet, hr]
    cases hsome : a.inlineStore with
    | none => rfl
    | some store =>
      have hputs : ∀ found, (d.inlineKey, found) ∈ a.shardSnapshot.puts ↔ _ :=
        fun found => hplain.mem_puts (by rw [hsome]; rfl)
      rw [inlineGet, hr, hsome]
      simp only [map_some, isSome_some, if_true, bind_some,
        Finmap.lookup_empty, or_none]
      change (store.lookup d.inlineKey).getD [] = (lastPut d.inlineKey a.shardSnapshot.puts).getD []
      have hget : a.inlineGet d.inlineKey = store.lookup d.inlineKey := by
        rw [inlineGet, hsome]
        rfl
      rw [← hget]
      cases hlast : lastPut d.inlineKey a.shardSnapshot.puts with
      | some data => rw [((hputs data).1 (lastPut_mem hlast)).2.1]
      | none =>
        cases hfound : a.inlineGet d.inlineKey with
        | none => rfl
        | some data =>
          by_contra hne
          exact lastPut_eq_none.1 hlast _ ((hputs data).2 ⟨⟨d, hd, hinline, rfl⟩, hfound, hne⟩) rfl

lemma ShardSmInner.reconstruct_eq (s : ShardSmInner) (d : Delta) :
    s.reconstruct d =
      if d.header.hasInlineData ∧ d.payload.ciphertext = [] then
        { d with payload := { d.payload with ciphertext := s.inlinePayload d.inlineKey } }
      else d := by
  rw [reconstruct]
  by_cases h : d.header.hasInlineData ∧ d.payload.ciphertext = []
  · rw [if_pos h, if_pos h]
    have hget : (s.inlineStore.bind fun store =>
        store.lookup (deriveInlineKey d.header.hashedKey d.header.sequence)) =
          s.inlineGet d.inlineKey := rfl
    rw [hget, inlinePayload]
    cases s.inlineGet d.inlineKey with
    | none =>
      obtain ⟨header, ⟨ciphertext, _, _, _, _, _⟩⟩ := d
      obtain ⟨_, rfl⟩ := h
      rfl
    | some data => rfl
  · rw [if_neg h, if_neg h]

lemma SameLog.readDeltas (h : SameLog [] a b) (first last : Nat) :
    (a.readDeltas first last).map (·.map Delta.unstamped) =
      (b.readDeltas first last).map (·.map Delta.unstamped) := by
  have hcommute : ∀ (s : ShardSmInner) (d : Delta),
      (s.reconstruct d).unstamped = s.reconstruct d.unstamped := by
    intro s d
    rw [s.reconstruct_eq, s.reconstruct_eq]
    exact apply_ite Delta.unstamped _ _ _
  have hread : ∀ d ∈ a.deltas.map Delta.unstamped, a.reconstruct d = b.reconstruct d := by
    intro d hd
    obtain ⟨d₀, hd₀, rfl⟩ := mem_map.1 hd
    rw [a.reconstruct_eq, b.reconstruct_eq]
    by_cases hinline : d₀.unstamped.header.hasInlineData ∧ d₀.unstamped.payload.ciphertext = []
    · have hpayload := h.payloads d₀ hd₀ hinline.1
      rw [flushInlineBatch_nil, flushInlineBatch_nil] at hpayload
      rw [if_pos hinline, if_pos hinline]
      exact congrArg (fun data => { d₀.unstamped with
        payload := { d₀.unstamped.payload with ciphertext := data } }) hpayload
    · rw [if_neg hinline, if_neg hinline]
  simp only [ShardSmInner.readDeltas, h.shardId]
  split
  · rfl
  · have hfound := fun s : ShardSmInner => takeWhile_unstamped
      (s.deltas.dropWhile fun d => decide (d.header.sequence < first)) fun n => decide (n ≤ last)
    have hdrop := fun s : ShardSmInner =>
      dropWhile_unstamped s.deltas fun n => decide (n < first)
    have hmap := fun (s : ShardSmInner) (l : List Delta) =>
      show (l.map s.reconstruct).map Delta.unstamped =
          (l.map Delta.unstamped).map s.reconstruct by
        rw [List.map_map, List.map_map]
        exact map_congr_left fun d _ => hcommute s d
    simp only [Except.map, hmap, hfound, hdrop, h.deltas]
    refine congrArg Except.ok (map_congr_left fun d hd => hread d ?_)
    rw [h.deltas]
    exact dropWhile_subset _ (takeWhile_subset _ hd)

end

section
variable {s : ShardSmInner}

lemma ShardSmInner.isSome_inlineStore_apply (e : Applied) :
    (s.apply e).inlineStore.isSome = s.inlineStore.isSome := by
  obtain ⟨cmd, logIndex, nowMs⟩ := e
  by_cases hc : cmd.isControl = true
  · obtain ⟨_, _, _, _, _, _, _, h⟩ := s.applyCommandAt_control hc logIndex nowMs
    rw [apply, h]
  cases cmd with
  | appendDelta args => exact isSome_map
  | chunkAndDelta args newChunks inlinePayloads =>
    apply isSome_map.trans
    exact congrArg isSome (s.tip_applyNewChunks args.tenantIdBytes newChunks logIndex).2.2
  | incorporateIntent item =>
    apply isSome_map.trans
    exact congrArg isSome (inlineStore_applyItems logIndex nowMs [item] [])
  | incorporateIntents items =>
    apply isSome_map.trans
    exact congrArg isSome (inlineStore_applyItems logIndex nowMs items [])
  | advanceWatermark consumer position =>
    simp only [apply, applyCommandAt, pruneDeltasBelowGcBoundary]
    split
    · rfl
    · exact isSome_map
  | _ => exact absurd rfl hc

lemma ShardSmInner.Plain.run (h : s.Plain) (es : List Applied) : (s.run es).Plain := by
  induction es generalizing s with
  | nil => exact h
  | cons e es ih => exact ih (h.applyCommandAt e.cmd e.logIndex e.nowMs)

lemma ShardSmInner.isSome_inlineStore_run (es : List Applied) :
    (s.run es).inlineStore.isSome = s.inlineStore.isSome := by
  induction es generalizing s with
  | nil => rfl
  | cons e es ih => exact ih.trans (isSome_inlineStore_apply e)

end

lemma windowInvariant_bounds (entries ms : Nat) : WindowInvariant (fun _ => True)
    (fun w _ _ => w.entries = entries ∧ w.ms = ms)
    (fun w _ _ _ _ => w.entries = entries ∧ w.ms = ms) where
  enter := fun h _ _ => h
  push := fun h _ => h
  leave := fun h => h

/-- Snapshot and suffix give the log, window and reads of a full replay. -/
theorem snapshot_then_suffix_eq_replay {p q : List Applied} (hpq : Increasing (p ++ q))
    (shardId : ShardId) (tenantId : OrgId) (windowEntries windowMs : Nat)
    (store : Option InlineMap) {r : ShardSmInner} (hr : r.inlineStore = store.map fun _ => ∅) :
    let s := (new shardId tenantId windowEntries windowMs store).run p
    let a := s.run q
    let b := (r.installSnapshot s.buildSnapshot windowEntries windowMs).run q
    a.tip = b.tip ∧ a.deltaCount = b.deltaCount ∧ a.watermarks = b.watermarks ∧
      a.window = b.window ∧ a.deltas.map Delta.unstamped = b.deltas.map Delta.unstamped ∧
      ∀ first last, (a.readDeltas first last).map (·.map Delta.unstamped) =
        (b.readDeltas first last).map (·.map Delta.unstamped) := by
  intro s a b
  have hp : Increasing p := (pairwise_append.1 hpq).1
  obtain ⟨later, hlater⟩ := exists_later p
  obtain ⟨_, _, _, htracks, _⟩ := (windowInvariant_tracks windowEntries).run hp
    (fun _ _ => trivial) ⟨rfl, tracks_new shardId tenantId windowEntries windowMs store,
      below_new ..⟩ (fun _ _ => Nat.zero_le _) (Nat.zero_le later) hlater
  obtain ⟨_, _, hentries, hms⟩ := @WindowInvariant.run _ _ _
    (.new shardId tenantId windowEntries windowMs store) p
    (windowInvariant_bounds windowEntries windowMs) [] 0 later hp (fun _ _ => trivial) ⟨rfl, rfl⟩
    (fun _ _ => Nat.zero_le _) (Nat.zero_le later) hlater
  have hplain : s.Plain :=
    Plain.run (s := .new shardId tenantId windowEntries windowMs store)
      (fun _ hd => absurd hd not_mem_nil) p
  have hempty : r.inlineStore = s.inlineStore.map fun _ => ∅ := by
    have hsome := isSome_inlineStore_run
      (s := .new shardId tenantId windowEntries windowMs store) p
    rw [hr]
    change s.inlineStore.isSome = store.isSome at hsome
    cases hs : s.inlineStore <;> cases store <;> rw [hs] at hsome <;> first | rfl | cases hsome
  have hstart := sameLog_install hplain htracks.mirror hempty
  rw [show s.dedupWindowEntries = windowEntries from hentries,
    show s.dedupWindowMs = windowMs from hms] at hstart
  have hend : SameLog [] a b := hstart.run q
  exact ⟨hend.tip, hend.deltaCount, hend.watermarks, hend.window, hend.deltas, hend.readDeltas⟩

/-- Inline deltas before and after the snapshot. -/
theorem snapshot_then_suffix_eq_replay_inline :
    let s := inlineShard.run [⟨.appendDelta inlineArgs, 1, 0⟩]
    Increasing ([⟨.appendDelta inlineArgs, 1, 0⟩] ++ [⟨.appendDelta inlineArgs, 2, 0⟩]) ∧
      ∀ first last,
        ((s.run [⟨.appendDelta inlineArgs, 2, 0⟩]).readDeltas first last).map
            (·.map Delta.unstamped) =
          (((inlineShard.installSnapshot s.buildSnapshot 2 60000).run
            [⟨.appendDelta inlineArgs, 2, 0⟩]).readDeltas first last).map (·.map Delta.unstamped) :=
  have hpq : Increasing
      ([⟨.appendDelta inlineArgs, 1, 0⟩] ++ [⟨.appendDelta inlineArgs, 2, 0⟩]) := by decide
  ⟨hpq, (snapshot_then_suffix_eq_replay hpq _ _ 2 60000 (some ∅) rfl).2.2.2.2.2⟩

end Kiseki.Log
