import Kiseki.Log.Convergence

namespace Kiseki.Log

open ShardSmInner List Nat

def Delta.unstamped (d : Delta) : Delta :=
  { d with header := { d.header with timestamp := indexTimestamp 0 } }

def ClusterChunkStateEntry.unstamped (entry : ClusterChunkStateEntry) : ClusterChunkStateEntry :=
  { entry with createdMs := 0 }

lemma stampBlind_unstamped (i j : Nat) :
    StampBlind Delta.unstamped ClusterChunkStateEntry.unstamped i j :=
  ⟨fun _ _ _ _ => rfl, fun _ => rfl⟩

def itemDeltas (shardId : ShardId) (inline : Bool) (logIndex : Nat) :
    Nat → List IncorporateItem → List Delta
  | _, [] => []
  | tip, item :: items =>
    mkDelta shardId (tip + 1) item.toDeltaArgs (item.hasInlineData && inline) logIndex ::
      itemDeltas shardId inline logIndex (tip + 1) items

lemma length_itemDeltas (shardId : ShardId) (inline : Bool) (logIndex tip : Nat)
    (items : List IncorporateItem) :
    (itemDeltas shardId inline logIndex tip items).length = items.length := by
  induction items generalizing tip with
  | nil => rfl
  | cons item items ih => rw [itemDeltas, length_cons, length_cons, ih]

def singletons (clock : Nat → Nat) : Nat → List IncorporateItem → List Applied
  | _, [] => []
  | logIndex, item :: items =>
    ⟨.incorporateIntents [item], logIndex, clock logIndex⟩ ::
      singletons clock (logIndex + 1) items

lemma ShardSmInner.incorporate_appends (s : ShardSmInner) {item : IncorporateItem}
    {logIndex nowMs : Nat} (batch : InlineBatch) :
    let s' := (s.incorporate item logIndex nowMs batch).1
    s'.deltas = s.deltas ++ [mkDelta s.shardId (s.tip + 1) item.toDeltaArgs
        (item.hasInlineData && s.inlineStore.isSome) logIndex] ∧
      s'.tip = s.tip + 1 ∧ s'.shardId = s.shardId ∧ s'.inlineStore = s.inlineStore := by
  obtain ⟨htip, hshard, hinline⟩ :=
    s.tip_applyNewChunks item.tenantIdBytes item.newChunks logIndex
  simp only [incorporate, appendDeltaInner, pushRecentAndEvict, offloads, htip, hshard, hinline,
    deltas_applyNewChunks, and_self]

section
variable {a b : ShardSmInner} {items : List IncorporateItem}

lemma length_deltas_afterItems_le (items : List IncorporateItem)
    (ha : TracksAt windowEntries a history logIndex nowMs pushes) :
    (afterItems logIndex nowMs items a).deltas.length ≤
      a.deltas.length + (windowEntries + 1 - pushes) := by
  induction items generalizing a history pushes with
  | nil => exact le_add_right _ _
  | cons item items ih =>
    let t : ItemStep := ⟨a, history, pushes, item, logIndex, nowMs⟩
    have hstep := ih ((windowInvariant_tracks windowEntries).after (t := t) ha)
    rw [t.length_deltas_after] at hstep
    apply hstep.trans
    obtain ⟨rfl, _, hat⟩ := ha
    rw [t.contribution_eq]
    by_cases hr : a.window.refuses item.perspectiveSeq logIndex
    · rw [if_pos hr]
      exact le_refl _
    · rw [if_neg hr, length_singleton]
      rw [hat.refuses_iff, not_or, not_lt] at hr
      have hroom := hr.2
      change a.deltas.length + 1 + (a.window.entries + 1 - (pushes + 1)) ≤ _
      omega

lemma TracksAt.accepts (ha : TracksAt windowEntries a history logIndex nowMs pushes)
    (hfresh : item.perspectiveSeq ∉ history) (hroom : pushes ≤ windowEntries)
    (batch : InlineBatch) :
    a.applyOneIncorporate item logIndex nowMs batch = a.incorporate item logIndex nowMs batch ∧
      TracksAt windowEntries (a.incorporate item logIndex nowMs batch).1
        (history ++ [item.perspectiveSeq]) logIndex nowMs (pushes + 1) := by
  obtain ⟨rfl, ht, hi⟩ := ha
  have hr : ¬a.window.refuses item.perspectiveSeq logIndex = true := by
    rw [hi.refuses_iff, not_or]
    exact ⟨fun hm => hfresh (ht.mem_history hm), not_lt.2 hroom⟩
  constructor
  · rw [applyOneIncorporate, refuses_window, if_neg hr]
  · rw [TracksAt, window_incorporate]
    exact (windowInvariant_tracks a.window.entries).push ⟨rfl, ht, hi⟩ (Bool.eq_false_iff.2 hr)

lemma afterItems_eq_singletons (clock : Nat → Nat)
    (ha : TracksAt windowEntries a history logIndex nowMs pushes)
    (hb : b.window.entries = windowEntries ∧ b.window.Tracks history ∧ b.window.Below index)
    (hagree : Agree Delta.unstamped ClusterChunkStateEntry.unstamped a.replicated b.replicated)
    (hdistinct : (items.map (·.perspectiveSeq)).Nodup)
    (hfresh : ∀ item ∈ items, item.perspectiveSeq ∉ history)
    (hroom : pushes + items.length ≤ windowEntries + 1) :
    (afterItems logIndex nowMs items a).deltas = a.deltas ++
        itemDeltas a.shardId a.inlineStore.isSome logIndex a.tip items ∧
      Agree Delta.unstamped ClusterChunkStateEntry.unstamped
        (afterItems logIndex nowMs items a).replicated
        (b.run (singletons clock index items)).replicated := by
  induction items generalizing a b history pushes index with
  | nil => exact ⟨(append_nil _).symm, hagree⟩
  | cons item items ih =>
    obtain ⟨hnew, hdistinct⟩ := nodup_cons.1 hdistinct
    obtain ⟨hitem, hfresh⟩ := forall_mem_cons.1 hfresh
    rw [length_cons] at hroom
    have hinv := windowInvariant_tracks windowEntries
    obtain ⟨haeq, ha'⟩ := ha.accepts hitem (by omega) []
    have hbat : TracksAt windowEntries b history index (clock index) 0 :=
      hinv.enter hb (le_refl _) trivial
    obtain ⟨hbeq, hb'⟩ := hbat.accepts hitem (zero_le _) []
    have hstep : (b.apply ⟨.incorporateIntents [item], index, clock index⟩).replicated =
        (b.incorporate item index (clock index) []).1.replicated := by
      rw [apply, replicated_incorporateIntents, afterItems, hbeq, afterItems]
    have hwindow : (b.apply ⟨.incorporateIntents [item], index, clock index⟩).window =
        (b.incorporate item index (clock index) []).1.window := by
      rw [b.window_apply]
      simp only [LogCommand.items, afterItems, hbeq]
    have hb'' := hinv.leave hb'
    rw [← hwindow] at hb''
    have hagree' := hagree.incorporate (stampBlind_unstamped logIndex index) item nowMs
      (clock index) [] []
    rw [← hstep] at hagree'
    have hfresh' : ∀ item' ∈ items, item'.perspectiveSeq ∉ history ++ [item.perspectiveSeq] := by
      intro item' hm hmem
      rcases mem_append.1 hmem with hmem | hmem
      · exact hfresh item' hm hmem
      · rw [mem_singleton] at hmem
        exact hnew (mem_map.2 ⟨item', hm, hmem⟩)
    obtain ⟨hdeltas, hrest⟩ := ih ha' hb'' hagree' hdistinct hfresh' (by omega)
    obtain ⟨happend, htip, hshard, hinline⟩ :=
      a.incorporate_appends []
    rw [afterItems, haeq]
    refine ⟨?_, hrest⟩
    rw [hdeltas, happend, htip, hshard, hinline, itemDeltas, append_assoc, singleton_append]

end

/-- One command equals single ones exactly if the window has room for its items. -/
theorem batch_eq_singletons_iff {es : List Applied} {items : List IncorporateItem}
    (shardId : ShardId) (tenantId : OrgId) (windowEntries windowMs : Nat)
    (inlineStore : Option InlineMap) (logIndex nowMs : Nat) (clock : Nat → Nat)
    (hes : Increasing es) (hlater : ∀ e ∈ es, e.logIndex < logIndex)
    (hdistinct : (items.map (·.perspectiveSeq)).Nodup)
    (hfresh : ∀ item ∈ items, item.perspectiveSeq ∉ contributions (itemSteps es
      (.new shardId tenantId windowEntries windowMs inlineStore) [])) :
    let s := run (.new shardId tenantId windowEntries windowMs inlineStore) es
    let batch := (s.applyCommandAt (.incorporateIntents items) logIndex nowMs).1
    (batch.deltas = s.deltas ++
          itemDeltas s.shardId s.inlineStore.isSome logIndex s.tip items ∧
        Agree Delta.unstamped ClusterChunkStateEntry.unstamped batch.replicated
          (s.run (singletons clock logIndex items)).replicated) ↔
      items.length ≤ windowEntries + 1 := by
  intro s batch
  have hinv := windowInvariant_tracks windowEntries
  obtain ⟨bound, hbound, hs⟩ := hinv.run
    (s := .new shardId tenantId windowEntries windowMs inlineStore) hes (fun _ _ => trivial)
    ⟨rfl, tracks_new _ _ _ _ _, below_new _ _ _ _ _⟩
    (fun e _ => zero_le e.logIndex) (zero_le logIndex) hlater
  rw [nil_append] at hs
  have hat : TracksAt windowEntries s _ logIndex nowMs 0 := hinv.enter hs hbound trivial
  have hreplicated := s.replicated_incorporateIntents items logIndex nowMs
  have hdeltas : batch.deltas = (afterItems logIndex nowMs items s).deltas :=
    congrArg (·.deltas) hreplicated
  constructor
  · rintro ⟨happend, _⟩
    have hle := length_deltas_afterItems_le items hat
    rw [← hdeltas, happend, length_append, length_itemDeltas] at hle
    exact Nat.le_of_add_le_add_left hle
  · intro hroom
    obtain ⟨happend, hagree⟩ := afterItems_eq_singletons clock hat
      ⟨hs.1, hs.2.1, hs.2.2.mono hbound⟩ (Agree.refl _ _ s.replicated) hdistinct hfresh
      ((zero_add items.length).le.trans hroom)
    rw [hdeltas, hreplicated]
    exact ⟨happend, hagree⟩

theorem batch_eq_singletons_iff_three :
    Agree Delta.unstamped ClusterChunkStateEntry.unstamped
      ((run (plainShard 2 defaultDedupWindowMs) [incorporateAt 5 1 0]).applyCommandAt
        (.incorporateIntents [plainItem 6, plainItem 7, plainItem 8]) 2 0).1.replicated
      ((run (plainShard 2 defaultDedupWindowMs) [incorporateAt 5 1 0]).run
        (singletons id 2 [plainItem 6, plainItem 7, plainItem 8])).replicated :=
  ((@batch_eq_singletons_iff [incorporateAt 5 1 0] [plainItem 6, plainItem 7, plainItem 8]
    ⟨.replicate 16 0⟩ ⟨.replicate 16 0⟩ 2 defaultDedupWindowMs none 2 0 id
    (by decide) (by decide) (by decide) (by decide)).2 (by decide)).2

/-- The third fresh item is refused in a command, and taken alone. -/
theorem third_fresh_item_refused :
    ((plainShard 1 defaultDedupWindowMs).applyCommandAt
        (.incorporateIntents [plainItem 5, plainItem 6, plainItem 7]) 1 0).1.deltas.length = 2 ∧
      ((plainShard 1 defaultDedupWindowMs).run
        (singletons (fun _ => 0) 1 [plainItem 5, plainItem 6, plainItem 7])).deltas.length = 3 := by
  decide

end Kiseki.Log
