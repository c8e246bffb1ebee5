import Kiseki.Log.Trace

namespace Kiseki.Log

open List

def Chained : List HybridLogicalClock → List ItemStep → Prop
  | _, [] => True
  | history, t :: ts => t.history = history ∧ Chained (history ++ t.contribution) ts

lemma Chained.append (h : Chained history ts)
    (h' : Chained (history ++ contributions ts) us) : Chained history (ts ++ us) := by
  induction ts generalizing history with
  | nil => simpa only [contributions, flatMap_nil, append_nil, nil_append] using h'
  | cons t ts ih =>
    rw [contributions, flatMap_cons, ← append_assoc] at h'
    exact ⟨h.1, ih h.2 h'⟩

lemma chained_itemStepsOf (logIndex nowMs : Nat) (items : List IncorporateItem)
    (s : ShardSmInner) (history : List HybridLogicalClock) (pushes : Nat) :
    Chained history (itemStepsOf logIndex nowMs items s history pushes) := by
  induction items generalizing s history pushes with
  | nil => trivial
  | cons item items ih => exact ⟨rfl, ih _ _ _⟩

lemma chained_itemSteps (es : List Applied) (s : ShardSmInner)
    (history : List HybridLogicalClock) : Chained history (itemSteps es s history) := by
  induction es generalizing s history with
  | nil => trivial
  | cons e es ih => exact (chained_itemStepsOf _ _ _ s history 0).append (ih _ _)

lemma Chained.nodup_iff (h : Chained history ts) (hn : history.Nodup) :
    (history ++ contributions ts).Nodup ↔
      ∀ t ∈ ts, t.item.perspectiveSeq ∈ t.history → t.contribution = [] := by
  induction ts generalizing history with
  | nil => simpa only [contributions, flatMap_nil, append_nil, not_mem_nil,
      false_implies, implies_true, iff_true] using hn
  | cons t ts ih =>
    obtain ⟨rfl, hts⟩ := h
    rw [contributions, flatMap_cons, ← append_assoc, forall_mem_cons]
    by_cases hfirst : t.item.perspectiveSeq ∈ t.history → t.contribution = []
    · have hn' : (t.history ++ t.contribution).Nodup := by
        rw [t.contribution_eq] at hfirst ⊢
        split at hfirst
        · rwa [if_pos ‹_›, append_nil]
        · rw [if_neg ‹_›]
          apply hn.append (nodup_singleton _)
          rw [disjoint_singleton]
          exact fun hm => cons_ne_nil _ _ (hfirst hm)
      rw [← ih hts hn']
      exact ⟨fun hnd => ⟨hfirst, hnd⟩, fun hnd => hnd.2⟩
    · refine ⟨fun hnd => absurd ?_ hfirst, fun hnd => absurd hnd.1 hfirst⟩
      intro hm
      have hdisj := (nodup_append'.1 (nodup_append'.1 hnd).1).2.2
      rw [t.contribution_eq] at hdisj ⊢
      split
      · rfl
      · rw [if_neg ‹_›] at hdisj
        exact absurd (mem_singleton.2 rfl) (hdisj hm)

/-- Each seq contributes once exactly if repeats meet the window or its overflow. -/
theorem at_most_once_iff {es : List Applied} (shardId : ShardId) (tenantId : OrgId)
    (windowEntries windowMs : Nat) (inlineStore : Option InlineMap) (hes : Increasing es) :
    (∀ seq, (contributions (itemSteps es
        (.new shardId tenantId windowEntries windowMs inlineStore) [])).count seq ≤ 1) ↔
      ∀ t ∈ itemSteps es (.new shardId tenantId windowEntries windowMs inlineStore) [],
        t.item.perspectiveSeq ∈ t.history →
          t.item.perspectiveSeq ∈ t.before.recentIncorporatedSeqs ∨ windowEntries < t.pushes := by
  rw [← nodup_iff_count_le_one]
  apply ((chained_itemSteps es _ []).nodup_iff nodup_nil).trans
  apply forall₂_congr
  intro t ht
  obtain ⟨rfl, _, hat⟩ := (windowInvariant_tracks windowEntries).itemSteps hes
    (fun _ _ => trivial)
    ⟨rfl, ShardSmInner.tracks_new shardId tenantId windowEntries windowMs inlineStore,
      ShardSmInner.below_new ..⟩ (fun e _ => Nat.zero_le e.logIndex) t ht
  apply imp_congr_right
  intro _
  rw [t.contribution_eq, ite_eq_left_iff]
  exact Iff.trans ⟨fun h => by_contra fun hr => cons_ne_nil _ _ (h hr), absurd⟩
    (hat.refuses_iff t.item.perspectiveSeq)

def plainItem (physicalMs : UInt64) : IncorporateItem where
  tenantIdBytes := .replicate 16 0
  operation := 0
  hashedKey := .replicate 32 0
  chunkRefs := []
  payload := []
  hasInlineData := false
  newChunks := []
  perspectiveSeq := ⟨physicalMs, 0, 1⟩
  inlinePayloads := []

def plainShard (windowEntries windowMs : Nat) : ShardSmInner :=
  .new ⟨.replicate 16 0⟩ ⟨.replicate 16 0⟩ windowEntries windowMs none

def incorporateAt (physicalMs : UInt64) (logIndex nowMs : Nat) : Applied :=
  ⟨.incorporateIntents [plainItem physicalMs], logIndex, nowMs⟩

theorem at_most_once_iff_retry : Increasing [incorporateAt 5 1 0, incorporateAt 5 2 9] ∧
    ∀ seq, (contributions (itemSteps [incorporateAt 5 1 0, incorporateAt 5 2 9]
      (plainShard defaultDedupWindowEntries defaultDedupWindowMs) [])).count seq ≤ 1 :=
  ⟨by decide, (at_most_once_iff _ _ _ _ _ (by decide)).2 (by decide)⟩

/-- An intent that aged out of the window is appended again. -/
theorem aged_out_intent_appended_twice :
    Increasing [incorporateAt 5 1 0, incorporateAt 6 2 60001, incorporateAt 5 3 60001] ∧
      (contributions (itemSteps
        [incorporateAt 5 1 0, incorporateAt 6 2 60001, incorporateAt 5 3 60001]
        (plainShard defaultDedupWindowEntries defaultDedupWindowMs) [])).count
          (plainItem 5).perspectiveSeq = 2 := by
  decide

end Kiseki.Log
