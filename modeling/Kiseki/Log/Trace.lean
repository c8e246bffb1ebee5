import Kiseki.Log.Window

namespace Kiseki.Log

open ShardSmInner List Nat

structure Applied where
  cmd : LogCommand
  logIndex : Nat
  nowMs : Nat

def ShardSmInner.apply (s : ShardSmInner) (e : Applied) : ShardSmInner :=
  (s.applyCommandAt e.cmd e.logIndex e.nowMs).1

def ShardSmInner.run (s : ShardSmInner) (es : List Applied) : ShardSmInner :=
  es.foldl apply s

def Increasing (es : List Applied) : Prop :=
  es.Pairwise fun a b => a.logIndex < b.logIndex

instance (es : List Applied) : Decidable (Increasing es) :=
  inferInstanceAs (Decidable (es.Pairwise fun a b => a.logIndex < b.logIndex))

def LogCommand.items : LogCommand → List IncorporateItem
  | .incorporateIntent item => [item]
  | .incorporateIntents items => items
  | _ => []

/-- One item as `apply_one_incorporate` meets it in its run. -/
structure ItemStep where
  before : ShardSmInner
  history : List HybridLogicalClock
  pushes : Nat
  item : IncorporateItem
  logIndex : Nat
  nowMs : Nat

def ItemStep.after (t : ItemStep) : ShardSmInner :=
  (t.before.applyOneIncorporate t.item t.logIndex t.nowMs []).1

/-- The seq of the item, once for each delta that it appended. -/
def ItemStep.contribution (t : ItemStep) : List HybridLogicalClock :=
  .replicate (t.after.deltas.length - t.before.deltas.length) t.item.perspectiveSeq

def contributions (ts : List ItemStep) : List HybridLogicalClock :=
  ts.flatMap ItemStep.contribution

def itemStepsOf (logIndex nowMs : Nat) :
    List IncorporateItem → ShardSmInner → List HybridLogicalClock → Nat → List ItemStep
  | [], _, _, _ => []
  | item :: items, s, history, pushes =>
    let t : ItemStep := ⟨s, history, pushes, item, logIndex, nowMs⟩
    t :: itemStepsOf logIndex nowMs items t.after (history ++ t.contribution)
      (pushes + t.contribution.length)

def itemSteps : List Applied → ShardSmInner → List HybridLogicalClock → List ItemStep
  | [], _, _ => []
  | e :: es, s, history =>
    let ts := itemStepsOf e.logIndex e.nowMs e.cmd.items s history 0
    ts ++ itemSteps es (s.apply e) (history ++ contributions ts)

variable {s : ShardSmInner}

lemma ShardSmInner.deltas_applyNewChunks (tenantIdBytes : Uuid)
    (newChunks : List NewChunkMeta) (logIndex : Nat) :
    (s.applyNewChunks tenantIdBytes newChunks logIndex).deltas = s.deltas := by
  obtain ⟨_, _, h⟩ := s.applyNewChunks_eq tenantIdBytes newChunks logIndex
  rw [h]

variable {item : IncorporateItem} {logIndex nowMs : Nat}

lemma ShardSmInner.length_deltas_incorporate (batch : InlineBatch) :
    (s.incorporate item logIndex nowMs batch).1.deltas.length = s.deltas.length + 1 := by
  simp only [incorporate, appendDeltaInner, pushRecentAndEvict]
  rw [length_append, deltas_applyNewChunks, length_singleton]

lemma ItemStep.contribution_eq (t : ItemStep) :
    t.contribution = if t.before.window.refuses t.item.perspectiveSeq t.logIndex then []
      else [t.item.perspectiveSeq] := by
  rw [contribution, after, applyOneIncorporate, refuses_window]
  by_cases h : t.before.window.refuses t.item.perspectiveSeq t.logIndex
  · rw [if_pos h, if_pos h, Nat.sub_self]
    rfl
  · rw [if_neg h, if_neg h, length_deltas_incorporate, Nat.add_sub_cancel_left]
    rfl

lemma ItemStep.length_deltas_after (t : ItemStep) :
    t.after.deltas.length = t.before.deltas.length + t.contribution.length := by
  rw [t.contribution_eq, after, applyOneIncorporate, refuses_window]
  split
  · rfl
  · exact length_deltas_incorporate _

lemma ItemStep.window_after (t : ItemStep) :
    t.after.window = if t.before.window.refuses t.item.perspectiveSeq t.logIndex
      then t.before.window
      else t.before.window.push t.logIndex t.item.perspectiveSeq t.nowMs := by
  rw [after, applyOneIncorporate, refuses_window]
  split
  · rfl
  · exact t.before.window_incorporate t.item t.logIndex t.nowMs []

lemma ShardSmInner.applyOneIncorporate_fst (s : ShardSmInner) (batch batch' : InlineBatch) :
    (s.applyOneIncorporate item logIndex nowMs batch).1 =
      (s.applyOneIncorporate item logIndex nowMs batch').1 := by
  rw [applyOneIncorporate, applyOneIncorporate]
  split <;> rfl

def ShardSmInner.afterItems (logIndex nowMs : Nat) :
    List IncorporateItem → ShardSmInner → ShardSmInner
  | [], s => s
  | item :: items, s =>
    afterItems logIndex nowMs items (s.applyOneIncorporate item logIndex nowMs []).1

lemma ShardSmInner.applyItems_fst (logIndex nowMs : Nat) (items : List IncorporateItem)
    (r : ShardSmInner × InlineBatch) :
    (applyItems logIndex nowMs items r).1 = afterItems logIndex nowMs items r.1 := by
  induction items generalizing r with
  | nil => rfl
  | cons item items ih =>
    rw [applyItems, ih, afterItems, r.1.applyOneIncorporate_fst r.2 []]

lemma ShardSmInner.window_apply (s : ShardSmInner) (e : Applied) :
    (s.apply e).window = (afterItems e.logIndex e.nowMs e.cmd.items s).window := by
  obtain ⟨cmd, logIndex, nowMs⟩ := e
  rw [apply]
  cases cmd with
  | incorporateIntent item => rfl
  | incorporateIntents items =>
    change (applyItems logIndex nowMs items (s, [])).1.window = _
    rw [applyItems_fst]
    rfl
  | _ => exact s.window_applyCommandAt _ (by intros; nofun) (by intros; nofun)

/-- `Inv` holds between commands, `At` at the items of one. -/
structure WindowInvariant (clock : Nat → Prop)
    (Inv : DedupWindow → List HybridLogicalClock → Nat → Prop)
    (At : DedupWindow → List HybridLogicalClock → Nat → Nat → Nat → Prop) : Prop where
  enter : ∀ {w history bound logIndex nowMs}, Inv w history bound → bound ≤ logIndex →
    clock nowMs → At w history logIndex nowMs 0
  push : ∀ {w history logIndex nowMs pushes seq}, At w history logIndex nowMs pushes →
    w.refuses seq logIndex = false →
    At (w.push logIndex seq nowMs) (history ++ [seq]) logIndex nowMs (pushes + 1)
  leave : ∀ {w history logIndex nowMs pushes}, At w history logIndex nowMs pushes →
    Inv w history (logIndex + 1)

namespace WindowInvariant
variable {clock : Nat → Prop} {Inv : DedupWindow → List HybridLogicalClock → Nat → Prop}
  {At : DedupWindow → List HybridLogicalClock → Nat → Nat → Nat → Prop}
  {s : ShardSmInner} {e : Applied} {es : List Applied} {items : List IncorporateItem}

section
variable (hI : WindowInvariant clock Inv At)

include hI

lemma after {t : ItemStep} (h : At t.before.window t.history t.logIndex t.nowMs t.pushes) :
    At t.after.window (t.history ++ t.contribution) t.logIndex t.nowMs
      (t.pushes + t.contribution.length) := by
  rw [t.window_after, t.contribution_eq]
  by_cases hr : t.before.window.refuses t.item.perspectiveSeq t.logIndex
  · rw [if_pos hr, if_pos hr, append_nil]
    exact h
  · rw [if_neg hr, if_neg hr]
    exact hI.push h (Bool.eq_false_iff.2 hr)

lemma itemStepsOf (h : At s.window history logIndex nowMs pushes) :
    ∀ t ∈ itemStepsOf logIndex nowMs items s history pushes,
      At t.before.window t.history t.logIndex t.nowMs t.pushes := by
  induction items generalizing s history pushes with
  | nil => exact fun t h => nomatch h
  | cons item items ih =>
    have hnext := hI.after (t := ⟨s, history, pushes, item, logIndex, nowMs⟩) h
    exact forall_mem_cons.2 ⟨h, ih hnext⟩

lemma afterItems (h : At s.window history logIndex nowMs pushes) :
    Inv (afterItems logIndex nowMs items s).window
      (history ++ contributions (Log.itemStepsOf logIndex nowMs items s history pushes))
      (logIndex + 1) := by
  induction items generalizing s history pushes with
  | nil =>
    rw [Log.itemStepsOf, contributions, flatMap_nil, append_nil]
    exact hI.leave h
  | cons item items ih =>
    rw [Log.itemStepsOf, contributions, flatMap_cons, ← append_assoc]
    exact ih (hI.after (t := ⟨s, history, pushes, item, logIndex, nowMs⟩) h)

lemma apply (h : Inv s.window history bound) (hle : bound ≤ e.logIndex) (hc : clock e.nowMs) :
    Inv (s.apply e).window (history ++
      contributions (Log.itemStepsOf e.logIndex e.nowMs e.cmd.items s history 0))
      (e.logIndex + 1) := by
  rw [s.window_apply e]
  exact hI.afterItems (hI.enter h hle hc)

lemma itemSteps (hes : Increasing es)
    (hc : ∀ e ∈ es, clock e.nowMs) (h : Inv s.window history bound)
    (hle : ∀ e ∈ es, bound ≤ e.logIndex) :
    ∀ t ∈ itemSteps es s history, At t.before.window t.history t.logIndex t.nowMs t.pushes := by
  induction es generalizing s history bound with
  | nil => exact fun t h => nomatch h
  | cons e es ih =>
    intro t ht
    obtain ⟨hlt, hes⟩ := pairwise_cons.1 hes
    obtain ⟨hce, hc⟩ := forall_mem_cons.1 hc
    obtain ⟨hlee, _⟩ := forall_mem_cons.1 hle
    rcases mem_append.1 ht with ht | ht
    · exact hI.itemStepsOf (hI.enter h hlee hce) t ht
    · exact ih hes hc (hI.apply h hlee hce) hlt t ht

lemma run (hes : Increasing es) (hc : ∀ e ∈ es, clock e.nowMs) (h : Inv s.window history bound)
    (hle : ∀ e ∈ es, bound ≤ e.logIndex) (hbl : bound ≤ later)
    (hlater : ∀ e ∈ es, e.logIndex < later) :
    ∃ bound' ≤ later,
      Inv (s.run es).window (history ++ contributions (Log.itemSteps es s history)) bound' := by
  induction es generalizing s history bound with
  | nil =>
    rw [Log.itemSteps, contributions, flatMap_nil, append_nil]
    exact ⟨bound, hbl, h⟩
  | cons e es ih =>
    obtain ⟨hlt, hes⟩ := pairwise_cons.1 hes
    obtain ⟨hce, hc⟩ := forall_mem_cons.1 hc
    obtain ⟨hlee, _⟩ := forall_mem_cons.1 hle
    obtain ⟨hlatere, hlater⟩ := forall_mem_cons.1 hlater
    rw [Log.itemSteps, contributions, flatMap_append, ← append_assoc]
    exact ih hes hc (hI.apply h hlee hce) hlt hlatere hlater

end

end WindowInvariant

lemma windowInvariant_tracks (entries : Nat) : WindowInvariant (fun _ => True)
    (fun w history bound => w.entries = entries ∧ w.Tracks history ∧ w.Below bound)
    (fun w history logIndex nowMs pushes =>
      w.entries = entries ∧ w.Tracks history ∧ w.AtIndex logIndex nowMs pushes) where
  enter := fun ⟨he, ht, hb⟩ hle _ => ⟨he, ht, (hb.mono hle).atIndex⟩
  push := by
    rintro w history logIndex nowMs pushes seq ⟨he, ht, ha⟩ hr
    have hn : ¬(seq ∈ w.seqs ∨ w.entries < pushes) := by
      rw [← ha.refuses_iff, hr]
      exact Bool.false_ne_true
    obtain ⟨hmem, hle⟩ := not_or.1 hn
    exact ⟨he, ht.push hmem _ _, ha.push (not_lt.1 hle) _⟩
  leave := fun ⟨he, ht, ha⟩ => ⟨he, ht, ha.below⟩

section
variable (shardId : ShardId) (tenantId : OrgId) (windowEntries windowMs : Nat)
    (inlineStore : Option InlineMap)

lemma ShardSmInner.tracks_new :
    (new shardId tenantId windowEntries windowMs inlineStore).window.Tracks [] where
  mirror := rfl
  nodup := nodup_nil
  suffix := suffix_refl []
  bounded := zero_le _

lemma ShardSmInner.below_new :
    (new shardId tenantId windowEntries windowMs inlineStore).window.Below 0 where
  index := fun _ he => nomatch he
  cutoff := le_refl 0

end

lemma exists_later (es : List Applied) : ∃ later, ∀ e ∈ es, e.logIndex < later := by
  obtain ⟨later, hsub⟩ := ((es.map Applied.logIndex).toFinset).exists_nat_subset_range
  refine ⟨later, fun e he => Finset.mem_range.1 (hsub ?_)⟩
  exact mem_toFinset.2 (mem_map_of_mem he)

lemma ShardSmInner.mem_contributions {shardId : ShardId} {tenantId : OrgId}
    {windowEntries windowMs : Nat} {inlineStore : Option InlineMap} (hes : Increasing es)
    (h : seq ∈ ((new shardId tenantId windowEntries windowMs inlineStore).run
      es).recentIncorporatedSeqs) :
    seq ∈ contributions (itemSteps es
      (new shardId tenantId windowEntries windowMs inlineStore) []) := by
  obtain ⟨later, hlater⟩ := exists_later es
  obtain ⟨_, _, _, htracks, _⟩ := (windowInvariant_tracks windowEntries).run hes
    (fun _ _ => trivial) ⟨rfl, tracks_new shardId tenantId windowEntries windowMs inlineStore,
      below_new shardId tenantId windowEntries windowMs inlineStore⟩
    (fun _ _ => zero_le _) (zero_le later) hlater
  exact htracks.mem_history h

end Kiseki.Log
