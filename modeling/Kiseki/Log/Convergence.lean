import Kiseki.Log.Agreement
import Kiseki.Log.AtMostOnce
import Kiseki.Log.Store

namespace Kiseki.Log

open ShardSmInner List

def Applied.SameEntry (e e' : Applied) : Prop :=
  e.cmd = e'.cmd ∧ e.logIndex = e'.logIndex

/-- No intent among the last ones was evicted by the time bound. -/
def KeepsRecent (windowEntries : Nat) (ts : List ItemStep) : Prop :=
  ∀ t ∈ ts, t.item.perspectiveSeq ∈ Fifo.lastN windowEntries t.history →
    t.item.perspectiveSeq ∈ t.before.recentIncorporatedSeqs

instance (windowEntries : Nat) (ts : List ItemStep) : Decidable (KeepsRecent windowEntries ts) :=
  inferInstanceAs (Decidable (∀ t ∈ ts, _ → _))

lemma DedupWindow.refuses_iff_lastN {w : DedupWindow} (ht : w.Tracks history)
    (ha : w.AtIndex logIndex nowMs pushes)
    (hk : seq ∈ Fifo.lastN w.entries history → seq ∈ w.seqs) :
    w.refuses seq logIndex = true ↔ seq ∈ Fifo.lastN w.entries history ∨ w.entries < pushes :=
  (ha.refuses_iff seq).trans (or_congr_left ⟨ht.mem_lastN, hk⟩)

section
variable {a b : ShardSmInner} {items : List IncorporateItem} {es es' : List Applied}

def TracksAt (windowEntries : Nat) (s : ShardSmInner) (history : List HybridLogicalClock)
    (logIndex nowMs pushes : Nat) : Prop :=
  s.window.entries = windowEntries ∧ s.window.Tracks history ∧
    s.window.AtIndex logIndex nowMs pushes

lemma TracksAt.refuses_eq (ha : TracksAt windowEntries a history logIndex nowMs pushes)
    (hb : TracksAt windowEntries b history logIndex nowMs' pushes)
    (hka : seq ∈ Fifo.lastN windowEntries history → seq ∈ a.recentIncorporatedSeqs)
    (hkb : seq ∈ Fifo.lastN windowEntries history → seq ∈ b.recentIncorporatedSeqs) :
    a.window.refuses seq logIndex = b.window.refuses seq logIndex := by
  rw [Bool.eq_iff_iff]
  obtain ⟨rfl, hta, hia⟩ := ha
  obtain ⟨hentries, htb, hib⟩ := hb
  rw [DedupWindow.refuses_iff_lastN hta hia hka,
    DedupWindow.refuses_iff_lastN htb hib (hentries ▸ hkb), hentries]

lemma agree_applyOneIncorporate (item : IncorporateItem)
    (hgate : a.window.refuses item.perspectiveSeq logIndex =
      b.window.refuses item.perspectiveSeq logIndex) (h : a.replicated = b.replicated) :
    (a.applyOneIncorporate item logIndex nowMs []).1.replicated =
      (b.applyOneIncorporate item logIndex nowMs' []).1.replicated := by
  rw [← refuses_window, ← refuses_window] at hgate
  simp only [applyOneIncorporate, hgate]
  split
  · exact h
  · exact agree_id_iff.1 ((agree_id_iff.2 h).incorporate (stampBlind_self _ _ _) item _ _ _ _)

lemma agree_applyOneIncorporate_batch (item : IncorporateItem)
    (hgate : a.window.refuses item.perspectiveSeq logIndex =
      b.window.refuses item.perspectiveSeq logIndex) (h : a.replicated = b.replicated)
    (batch : InlineBatch) :
    (a.applyOneIncorporate item logIndex nowMs batch).2 =
      (b.applyOneIncorporate item logIndex nowMs' batch).2 := by
  rw [← refuses_window, ← refuses_window] at hgate
  simp only [applyOneIncorporate, hgate]
  split
  · rfl
  · exact chunkAndDelta_batch_eq h item.toDeltaArgs item.newChunks item.inlinePayloads logIndex
      batch

lemma agree_afterItems (ha : TracksAt windowEntries a history logIndex nowMs pushes)
    (hb : TracksAt windowEntries b history logIndex nowMs' pushes)
    (hka : KeepsRecent windowEntries (itemStepsOf logIndex nowMs items a history pushes))
    (hkb : KeepsRecent windowEntries (itemStepsOf logIndex nowMs' items b history pushes))
    (h : a.replicated = b.replicated) (batch : InlineBatch) :
    (afterItems logIndex nowMs items a).replicated =
        (afterItems logIndex nowMs' items b).replicated ∧
      contributions (itemStepsOf logIndex nowMs items a history pushes) =
        contributions (itemStepsOf logIndex nowMs' items b history pushes) ∧
      (applyItems logIndex nowMs items (a, batch)).2 =
        (applyItems logIndex nowMs' items (b, batch)).2 := by
  induction items generalizing a b history pushes batch with
  | nil => exact ⟨h, rfl, rfl⟩
  | cons item items ih =>
    let ta : ItemStep := ⟨a, history, pushes, item, logIndex, nowMs⟩
    let tb : ItemStep := ⟨b, history, pushes, item, logIndex, nowMs'⟩
    obtain ⟨hka₁, hka⟩ := forall_mem_cons.1 hka
    obtain ⟨hkb₁, hkb⟩ := forall_mem_cons.1 hkb
    have hgate := ha.refuses_eq hb hka₁ hkb₁
    have hcontribution : ta.contribution = tb.contribution := by
      rw [ta.contribution_eq, tb.contribution_eq]
      exact congrArg (fun r => if r = true then _ else _) hgate
    have hafter : ta.after.replicated = tb.after.replicated :=
      agree_applyOneIncorporate item hgate h
    have hinv := windowInvariant_tracks windowEntries
    have ha' := hinv.after (t := ta) ha
    have hb' := hinv.after (t := tb) hb
    rw [← hcontribution] at hb'
    have hkb' : KeepsRecent windowEntries (itemStepsOf logIndex nowMs' items tb.after
        (history ++ ta.contribution) (pushes + ta.contribution.length)) := by
      rw [hcontribution]
      exact hkb
    obtain ⟨hstate, hrest, hwrites⟩ := ih ha' hb' hka hkb' hafter
      (a.applyOneIncorporate item logIndex nowMs batch).2
    refine ⟨hstate, ?_, ?_⟩
    · simp only [itemStepsOf, contributions, flatMap_cons]
      change ta.contribution ++ _ = tb.contribution ++ _
      rw [← hcontribution]
      exact congrArg (ta.contribution ++ ·) hrest
    · -- the state after an item does not depend on what is still to be written
      have hpair : ∀ (s : ShardSmInner) (nowMs : Nat),
          s.applyOneIncorporate item logIndex nowMs batch =
            ((s.applyOneIncorporate item logIndex nowMs []).1,
              (s.applyOneIncorporate item logIndex nowMs batch).2) :=
        fun s nowMs => Prod.ext (s.applyOneIncorporate_fst batch []) rfl
      rw [applyItems, applyItems, hpair a, hpair b,
        ← agree_applyOneIncorporate_batch item hgate h batch]
      exact hwrites

lemma agree_apply {e e' : Applied} (hsame : e.SameEntry e')
    (ha : TracksAt windowEntries a history e.logIndex e.nowMs 0)
    (hb : TracksAt windowEntries b history e'.logIndex e'.nowMs 0)
    (hka : KeepsRecent windowEntries
      (itemStepsOf e.logIndex e.nowMs e.cmd.items a history 0))
    (hkb : KeepsRecent windowEntries
      (itemStepsOf e'.logIndex e'.nowMs e'.cmd.items b history 0))
    (h : a.replicated = b.replicated) :
    ((a.apply e).replicated = (b.apply e').replicated ∧
        (a.inlineStore = b.inlineStore → (a.apply e).inlineStore = (b.apply e').inlineStore)) ∧
      contributions (itemStepsOf e.logIndex e.nowMs e.cmd.items a history 0) =
        contributions (itemStepsOf e'.logIndex e'.nowMs e'.cmd.items b history 0) := by
  obtain ⟨cmd, logIndex, nowMs⟩ := e
  obtain ⟨cmd', logIndex', nowMs'⟩ := e'
  obtain ⟨rfl, rfl⟩ : cmd = cmd' ∧ logIndex = logIndex' := hsame
  obtain ⟨hitems, hcontributions, hbatch⟩ := agree_afterItems ha hb hka hkb h []
  exact ⟨⟨replicated_apply h hitems, fun hstore => inlineStore_apply h hstore hbatch⟩,
    hcontributions⟩

lemma agree_run (hsame : List.Forall₂ Applied.SameEntry es es') (hes : Increasing es)
    (ha : a.window.entries = windowEntries ∧ a.window.Tracks history ∧ a.window.Below bound)
    (hb : b.window.entries = windowEntries ∧ b.window.Tracks history ∧ b.window.Below bound)
    (hle : ∀ e ∈ es, bound ≤ e.logIndex) (hka : KeepsRecent windowEntries (itemSteps es a history))
    (hkb : KeepsRecent windowEntries (itemSteps es' b history))
    (h : a.replicated = b.replicated) :
    (a.run es).replicated = (b.run es').replicated ∧
      (a.inlineStore = b.inlineStore → (a.run es).inlineStore = (b.run es').inlineStore) := by
  induction hsame generalizing a b history bound with
  | nil => exact ⟨h, id⟩
  | @cons e e' es es' he _ ih =>
    obtain ⟨hlt, hes⟩ := pairwise_cons.1 hes
    obtain ⟨hlee, _⟩ := forall_mem_cons.1 hle
    obtain ⟨hka₁, hka⟩ := forall_mem_append.1 hka
    obtain ⟨hkb₁, hkb⟩ := forall_mem_append.1 hkb
    have hinv := windowInvariant_tracks windowEntries
    have hlee' : bound ≤ e'.logIndex := he.2 ▸ hlee
    obtain ⟨⟨hstate, hstore⟩, hcon⟩ := agree_apply he (hinv.enter ha hlee trivial)
      (hinv.enter hb hlee' trivial) hka₁ hkb₁ h
    have ha' := hinv.apply ha hlee (e := e) trivial
    have hb' := hinv.apply hb hlee' (e := e') trivial
    rw [← hcon, ← he.2] at hb'
    rw [← hcon] at hkb
    obtain ⟨hend, hends⟩ := ih hes ha' hb' hlt hka hkb hstate
    exact ⟨hend, fun heq => hends (hstore heq)⟩

lemma readDeltas_congr (h : a.replicated = b.replicated) (hstore : a.inlineStore = b.inlineStore)
    (first last : Nat) : a.readDeltas first last = b.readDeltas first last := by
  have hdeltas : a.deltas = b.deltas := congrArg Replicated.deltas h
  have hshard : a.shardId = b.shardId := congrArg Replicated.shardId h
  have hread : a.reconstruct = b.reconstruct := by
    funext d
    rw [reconstruct, reconstruct, hstore]
  rw [ShardSmInner.readDeltas, ShardSmInner.readDeltas, hdeltas, hshard, hread]

end

/-- Replicas agree in state and reads if the time bound evicts no repeated intent. -/
theorem replicas_converge {es es' : List Applied} (shardId : ShardId) (tenantId : OrgId)
    (windowEntries windowMs windowMs' : Nat) (inlineStore : Option InlineMap)
    (hes : Increasing es) (hsame : List.Forall₂ Applied.SameEntry es es')
    (hk : KeepsRecent windowEntries
      (itemSteps es (.new shardId tenantId windowEntries windowMs inlineStore) []))
    (hk' : KeepsRecent windowEntries
      (itemSteps es' (.new shardId tenantId windowEntries windowMs' inlineStore) [])) :
    let a := run (.new shardId tenantId windowEntries windowMs inlineStore) es
    let b := run (.new shardId tenantId windowEntries windowMs' inlineStore) es'
    a.replicated = b.replicated ∧
      ∀ first last, a.readDeltas first last = b.readDeltas first last := by
  intro a b
  obtain ⟨hstate, hstore⟩ : a.replicated = b.replicated ∧ (_ → a.inlineStore = b.inlineStore) :=
    agree_run hsame hes
      ⟨rfl, tracks_new _ _ _ _ _, below_new _ _ _ _ _⟩
      ⟨rfl, tracks_new _ _ _ _ _, below_new _ _ _ _ _⟩
      (fun e _ => Nat.zero_le e.logIndex) hk hk' rfl
  exact ⟨hstate, readDeltas_congr hstate (hstore rfl)⟩

def inlineRetry (clock clock' : Nat) : List Applied :=
  [⟨.incorporateIntent { plainItem 5 with payload := [1, 2], hasInlineData := true }, 1, clock⟩,
    incorporateAt 5 2 clock', incorporateAt 6 3 clock']

/-- An inline intent, its retry and another, under a clock jump. -/
theorem replicas_converge_inlineRetry :
    let start := new ⟨.replicate 16 0⟩ ⟨.replicate 16 0⟩ defaultDedupWindowEntries
      defaultDedupWindowMs (some ∅)
    let a := start.run (inlineRetry 0 100)
    let b := start.run (inlineRetry 70000 3)
    a.replicated = b.replicated ∧ a.readDeltas 1 2 = b.readDeltas 1 2 ∧
      (a.readDeltas 1 2).map (fun ds => ds.map fun d => d.payload.ciphertext) =
        .ok [[1, 2], []] := by
  intro start a b
  obtain ⟨hstate, hread⟩ := @replicas_converge (inlineRetry 0 100) (inlineRetry 70000 3)
    ⟨.replicate 16 0⟩ ⟨.replicate 16 0⟩ defaultDedupWindowEntries defaultDedupWindowMs
    defaultDedupWindowMs (some ∅) (by decide)
    (.cons ⟨rfl, rfl⟩ (.cons ⟨rfl, rfl⟩ (.cons ⟨rfl, rfl⟩ .nil))) (by decide) (by decide)
  exact ⟨hstate, hread 1 2, by decide +kernel⟩

/-- A clock step makes one replica append what the other skips. -/
theorem clock_step_diverges :
    Increasing [incorporateAt 5 1 0, incorporateAt 6 2 0, incorporateAt 5 3 0] ∧
      (run (plainShard defaultDedupWindowEntries defaultDedupWindowMs)
        [incorporateAt 5 1 0, incorporateAt 6 2 0, incorporateAt 5 3 0]).tip = 2 ∧
      (run (plainShard defaultDedupWindowEntries defaultDedupWindowMs)
        [incorporateAt 5 1 0, incorporateAt 6 2 60001, incorporateAt 5 3 60001]).tip = 3 := by
  decide

end Kiseki.Log
