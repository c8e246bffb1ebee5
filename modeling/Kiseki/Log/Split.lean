import Kiseki.Log.KeyRange
import Kiseki.Log.Record

namespace Kiseki.Log
open Intent List Nat

def midpoint (rangeStart rangeEnd : Key32) : Key32 :=
  Vector.ofFn fun i : Fin 32 => rangeStart.get i / 2 + rangeEnd.get i / 2

def batchSize : Nat := 1024

/-- How far `split_shard` has come, from its first look at the source on. -/
inductive SplitPhase where
  | begun
  | marked
  | ranged
  | sized (tip : Nat)
  | replaying (tip first : Nat)
  | copying (tip next : Nat) (pending : List Delta)
  | replayed
  | shrunk
  | done
  | failed (e : LogError)

/-- A split in progress on one inline store, with records of appends. -/
structure Cutover where
  source : ShardSmInner
  target : ShardSmInner
  inline : Option InlineMap
  rangeStart : Key32
  rangeEnd : Key32
  mid : Key32
  phase : SplitPhase
  sourceLog : DeltaRecord
  targetLog : List DeltaContent

namespace Cutover

def sourceNow (c : Cutover) : ShardSmInner :=
  { c.source with inlineStore := c.inline }

def targetNow (c : Cutover) : ShardSmInner :=
  { c.target with inlineStore := c.inline }

def onSource (c : Cutover) (e : Applied) : Cutover :=
  let s := c.sourceNow.apply e
  { c with source := s, inline := s.inlineStore }

def onTarget (c : Cutover) (e : Applied) : Cutover :=
  let s := c.targetNow.apply e
  { c with target := s, inline := s.inlineStore }

def start (source target : ShardSmInner) (inline : Option InlineMap) : Cutover where
  source := source
  target := target
  inline := inline
  rangeStart := source.rangeStart
  rangeEnd := source.rangeEnd
  mid := midpoint source.rangeStart source.rangeEnd
  phase := .begun
  sourceLog := ({ source with inlineStore := inline } : ShardSmInner).readRecord
  targetLog := []

def Upper (c : Cutover) (key : Key32) : Prop :=
  InRange c.mid c.rangeEnd key

instance (c : Cutover) (key : Key32) : Decidable (c.Upper key) :=
  inferInstanceAs (Decidable (InRange _ _ _))

def copyRequest (c : Cutover) (d : Delta) : AppendDeltaRequest :=
  d.requestFor c.target.shardId

def lastOf (first tip : Nat) : Nat :=
  min (first + batchSize - 1) tip

/-- A step of the split or a client, under conditions on both. -/
inductive Step (AppendOk : Cutover → Applied → Prop) (ReadOk : Cutover → Nat → Nat → Prop) :
    Cutover → Cutover → Prop
  | client (e : Applied) (he : e.cmd.appends = true) (hok : AppendOk c e) :
      Step AppendOk ReadOk c
        { c.onSource e with sourceLog := c.sourceLog ++ c.sourceNow.records e }
  | mark (hp : c.phase = .begun) (logIndex nowMs : Nat) :
      Step AppendOk ReadOk c
        { c.onSource ⟨.setShardState ShardState.splitting.asU8, logIndex, nowMs⟩ with
          phase := .marked }
  | rangeTarget (hp : c.phase = .marked) (logIndex nowMs : Nat) :
      Step AppendOk ReadOk c
        { c.onTarget ⟨.updateShardRange c.mid c.rangeEnd, logIndex, nowMs⟩ with phase := .ranged }
  | size (hp : c.phase = .ranged) :
      Step AppendOk ReadOk c { c with phase := .sized c.source.tip }
  | refuse (hp : c.phase = .sized tip) (hgc : 1 < c.source.watermarks.gcBoundary.getD 0) :
      Step AppendOk ReadOk c
        { c with phase := .failed (.deltaLogPruned c.source.shardId
          (c.source.watermarks.gcBoundary.getD 0)) }
  | replay (hp : c.phase = .sized tip) (hgc : ¬1 < c.source.watermarks.gcBoundary.getD 0) :
      Step AppendOk ReadOk c { c with phase := .replaying tip 1 }
  | read (hp : c.phase = .replaying tip first) (hle : first ≤ tip)
      (hread : c.sourceNow.readDeltas first (lastOf first tip) = .ok pending)
      (hok : ReadOk c first (lastOf first tip)) :
      Step AppendOk ReadOk c { c with phase := .copying tip (lastOf first tip + 1) pending }
  | skip (hp : c.phase = .copying tip nextSeq (d :: pending)) (hkey : ¬c.Upper d.header.hashedKey) :
      Step AppendOk ReadOk c { c with phase := .copying tip nextSeq pending }
  | copy (hp : c.phase = .copying tip nextSeq (d :: pending)) (hkey : c.Upper d.header.hashedKey)
      (logIndex nowMs : Nat)
      (happend : c.targetNow.appendDelta (c.copyRequest d) logIndex nowMs = (s, .ok seq)) :
      Step AppendOk ReadOk c
        { c with
          target := s
          inline := s.inlineStore
          phase := .copying tip nextSeq pending
          targetLog := c.targetLog ++ [(deltaArgsOf (c.copyRequest d)).content] }
  | next (hp : c.phase = .copying tip nextSeq []) :
      Step AppendOk ReadOk c { c with phase := .replaying tip nextSeq }
  | finish (hp : c.phase = .replaying tip first) (hlt : tip < first) :
      Step AppendOk ReadOk c { c with phase := .replayed }
  | shrink (hp : c.phase = .replayed) (logIndex nowMs : Nat) :
      Step AppendOk ReadOk c
        { c.onSource ⟨.updateShardRange c.rangeStart c.mid, logIndex, nowMs⟩ with
          phase := .shrunk }
  | restore (hp : c.phase = .shrunk) (logIndex nowMs : Nat) :
      Step AppendOk ReadOk c
        { c.onSource ⟨.setShardState ShardState.healthy.asU8, logIndex, nowMs⟩ with
          phase := .done }
  -- any of the proposals and reads above can come back with an error
  | fail (hp : c.phase ≠ .done) (e : LogError) :
      Step AppendOk ReadOk c { c with phase := .failed e }

abbrev Run (AppendOk : Cutover → Applied → Prop) (ReadOk : Cutover → Nat → Nat → Prop) :
    Cutover → Cutover → Prop :=
  Relation.ReflTransGen (Step AppendOk ReadOk)

/-- Every delta of a moved key has one copy, in order. -/
structure Complete (c : Cutover) : Prop where
  source : List.Forall₂ (fun d p => d.header.sequence = p.1 ∧ d.label = p.2.toDeltaLabel)
    c.source.deltas c.sourceLog
  target : c.target.deltas.map Delta.label = c.targetLog.map DeltaContent.toDeltaLabel
  copies : ∀ key, c.Upper key →
    c.targetLog.filter (fun a => decide (a.hashedKey = key)) =
      (c.sourceLog.map Prod.snd).filter fun a => decide (a.hashedKey = key)

def SplitPhase.sizedUp : SplitPhase → Bool
  | .begun | .marked | .ranged => false
  | _ => true

section
variable (c : Cutover)

def Quiet (e : Applied) : Prop :=
  SplitPhase.sizedUp c.phase = true →
    ∀ p ∈ c.sourceNow.records e, ¬c.Upper p.2.hashedKey

def Intact (first last : Nat) : Prop :=
  List.Forall₂ (fun d p => first ≤ p.1 → p.1 ≤ last →
    (c.sourceNow.reconstruct d).payload.ciphertext = p.2.payload) c.source.deltas c.sourceLog

def keep (contents : List DeltaContent) : List DeltaContent :=
  contents.filter fun a => decide (c.Upper a.hashedKey)

def moved (log : DeltaRecord) : List DeltaContent :=
  c.keep (log.map Prod.snd)

def between (first last : Nat) : List DeltaContent :=
  c.moved (c.sourceLog.filter fun p => decide (first ≤ p.1 ∧ p.1 ≤ last))

def remaining : SplitPhase → List DeltaContent
  | .begun | .marked | .ranged => c.moved c.sourceLog
  | .sized tip => c.between 1 tip
  | .replaying tip first => c.between first tip
  | .copying tip next pending => c.keep (pending.map Delta.content) ++ c.between next tip
  | .replayed | .shrunk | .done | .failed _ => []

end

structure Inv (c : Cutover) : Prop where
  source : Recorded c.source c.sourceLog
  target : c.target.deltas.map Delta.label = c.targetLog.map DeltaContent.toDeltaLabel
  progress : (∀ e, c.phase ≠ .failed e) →
    c.targetLog ++ c.remaining c.phase = c.moved c.sourceLog

lemma filter_window_split {f : α → Nat} {l : List α} (h : l.Pairwise fun a b => f a < f b)
    (hle : first ≤ last + 1) (hlast : last ≤ tip) :
    l.filter (fun a => decide (first ≤ f a ∧ f a ≤ last)) ++
        l.filter (fun a => decide (last + 1 ≤ f a ∧ f a ≤ tip)) =
      l.filter fun a => decide (first ≤ f a ∧ f a ≤ tip) := by
  obtain ⟨htake, hdrop⟩ := while_eq_filter (p := fun a => decide (f a ≤ last))
    ((h.filter fun a => decide (first ≤ f a ∧ f a ≤ tip)).imp fun hab =>
      by simpa using hab.le.trans)
  refine .trans ?_ (takeWhile_append_dropWhile (p := fun a => decide (f a ≤ last)))
  rw [htake, hdrop, filter_filter, filter_filter]
  congr 1 <;> refine filter_congr fun a _ => ?_
  · rw [← Bool.decide_and, decide_eq_decide]
    omega
  · rw [← decide_not, ← Bool.decide_and, decide_eq_decide]
    omega

section
variable {c c' : Cutover} {d : Delta} {contents : List DeltaContent}

lemma keep_cons_of_pos (hkey : c.Upper d.header.hashedKey) :
    c.keep (d.content :: contents) = d.content :: c.keep contents :=
  filter_cons_of_pos (a := d.content) (decide_eq_true hkey)

lemma keep_cons_of_neg (hkey : ¬c.Upper d.header.hashedKey) :
    c.keep (d.content :: contents) = c.keep contents :=
  filter_cons_of_neg (a := d.content) fun hup => hkey (of_decide_eq_true hup)

lemma moved_append (log more : DeltaRecord) :
    c.moved (log ++ more) = c.moved log ++ c.moved more := by
  rw [moved, keep, map_append, filter_append]
  rfl

lemma moved_eq_nil {log : DeltaRecord} (h : ∀ p ∈ log, ¬c.Upper p.2.hashedKey) :
    c.moved log = [] := by
  refine filter_eq_nil_iff.2 fun a ha hup => ?_
  obtain ⟨p, hp, rfl⟩ := mem_map.1 ha
  exact h p hp (of_decide_eq_true hup)

lemma between_split (h : Recorded c.source c.sourceLog) (hle : first ≤ last + 1)
    (hlast : last ≤ tip) :
    c.between first last ++ c.between (last + 1) tip = c.between first tip := by
  rw [between, between, between, ← moved_append, filter_window_split h.sorted hle hlast]

lemma between_tip (h : Recorded c.source c.sourceLog) :
    c.between 1 c.source.tip = c.moved c.sourceLog := by
  have hall : ∀ p ∈ c.sourceLog, decide (1 ≤ p.1 ∧ p.1 ≤ c.source.tip) = true :=
    fun p hp => decide_eq_true (h.bounds p hp)
  rw [between, filter_eq_self.2 hall]

lemma between_empty (hlt : tip < first) : c.between first tip = [] := by
  have hnone : ∀ p ∈ c.sourceLog, ¬decide (first ≤ p.1 ∧ p.1 ≤ tip) = true :=
    fun p _ hin => not_lt.2 ((of_decide_eq_true hin).1.trans (of_decide_eq_true hin).2) hlt
  rw [between, filter_eq_nil_iff.2 hnone]
  rfl

lemma read_contents (h : Recorded c.source c.sourceLog) (hintact : c.Intact first last) :
    ((c.source.deltas.filter fun d =>
        decide (first ≤ d.header.sequence ∧ d.header.sequence ≤ last)).map
          c.sourceNow.reconstruct).map Delta.content =
      (c.sourceLog.filter fun p => decide (first ≤ p.1 ∧ p.1 ≤ last)).map Prod.snd := by
  have hheld := h.held
  clear h
  rw [Intact] at hintact
  generalize c.source.deltas = deltas at *
  generalize c.sourceLog = log at *
  induction hheld with
  | nil => rfl
  | @cons d p deltas log hdp _ ih =>
    obtain ⟨hpay, hrest⟩ := forall₂_cons.1 hintact
    obtain ⟨hseq, hlabel⟩ := hdp
    rw [filter_cons, filter_cons, hseq]
    by_cases hin : first ≤ p.1 ∧ p.1 ≤ last
    · rw [if_pos (decide_eq_true hin), if_pos (decide_eq_true hin), map_cons, map_cons,
        map_cons, ih hrest]
      congr 1
      have hheader : (c.sourceNow.reconstruct d).label = p.2.toDeltaLabel := by
        rw [← hlabel, Delta.label, Delta.label, ShardSmInner.reconstruct_header]
      rw [Delta.content, hheader, hpay hin.1 hin.2]
    · rw [if_neg (by simpa using hin), if_neg (by simpa using hin)]
      exact ih hrest

lemma onSource_control {cmd : LogCommand} (hc : cmd.isControl = true) (logIndex nowMs : Nat) :
    (c.onSource ⟨cmd, logIndex, nowMs⟩).source.deltas = c.source.deltas ∧
      (c.onSource ⟨cmd, logIndex, nowMs⟩).source.tip = c.source.tip := by
  obtain ⟨_, _, _, _, _, _, _, heq⟩ := c.sourceNow.applyCommandAt_control hc logIndex nowMs
  rw [onSource, ShardSmInner.apply, heq]
  exact ⟨rfl, rfl⟩

lemma content_copyRequest : (deltaArgsOf (c.copyRequest d)).content = d.content := by
  have hrefs : (d.header.chunkRefs.map ChunkId.bytes).map ChunkId.mk = d.header.chunkRefs := by
    rw [map_map]
    exact map_id _
  simp only [deltaArgsOf, DeltaArgs.content, copyRequest, Delta.requestFor, Delta.content,
    Delta.label,
    u8ToOp_opToU8, hrefs]

lemma Inv.client (h : c.Inv) {e : Applied} (he : e.cmd.appends = true) (hquiet : c.Quiet e) :
    Inv { c.onSource e with sourceLog := c.sourceLog ++ c.sourceNow.records e } := by
  let c' : Cutover := { c.onSource e with sourceLog := c.sourceLog ++ c.sourceNow.records e }
  have hnow : Recorded c.sourceNow c.sourceLog := h.source.congr rfl rfl
  refine ⟨hnow.apply he, h.target, fun hlive => ?_⟩
  have hprogress := h.progress hlive
  change c.targetLog ++ c'.remaining c.phase = c'.moved c'.sourceLog
  by_cases hsized : SplitPhase.sizedUp c.phase = true
  · have hmoved : c'.moved c'.sourceLog = c.moved c.sourceLog := by
      have hnil : c.moved (c.sourceNow.records e) = [] := moved_eq_nil (hquiet hsized)
      change c.moved (c.sourceLog ++ c.sourceNow.records e) = _
      rw [moved_append, hnil, append_nil]
    have hbetween : ∀ lo hi, c'.between lo hi = c.between lo hi := by
      intro lo hi
      have hnil : c.moved ((c.sourceNow.records e).filter fun p =>
          decide (lo ≤ p.1 ∧ p.1 ≤ hi)) = [] :=
        moved_eq_nil fun p hp => hquiet hsized p (mem_of_mem_filter hp)
      change c.moved ((c.sourceLog ++ c.sourceNow.records e).filter _) = _
      rw [filter_append, moved_append, hnil, append_nil]
      rfl
    have hremaining : c'.remaining c.phase = c.remaining c.phase := by
      simp only [remaining, hbetween, hmoved]
      rfl
    rw [hremaining, hmoved, hprogress]
  · have hall : ∀ b : Cutover, b.remaining c.phase = b.moved b.sourceLog := by
      intro b
      cases hphase : c.phase <;> first | rfl | exact absurd (hphase ▸ rfl) hsized
    rw [hall c] at hprogress
    rw [hall c', append_left_eq_self.1 hprogress, nil_append]

lemma Inv.move (h : c.Inv) {s t : ShardSmInner} {inline : Option InlineMap}
    {phase phase' : SplitPhase} (hp : c.phase = phase) (hlive : ∀ e, phase ≠ .failed e)
    (hsource : s.deltas = c.source.deltas ∧ s.tip = c.source.tip)
    (htarget : t.deltas = c.target.deltas) (hremaining : c.remaining phase' = c.remaining phase) :
    Inv { c with source := s, target := t, inline := inline, phase := phase' } := by
  refine ⟨h.source.congr hsource.1 hsource.2, ?_, fun _ => ?_⟩
  · rw [htarget]
    exact h.target
  · have hprogress := h.progress (hp ▸ hlive)
    rw [hp, ← hremaining] at hprogress
    exact hprogress

lemma Inv.copy (h : c.Inv) (hp : c.phase = .copying tip nextSeq (d :: pending))
    (hkey : c.Upper d.header.hashedKey)
    (happend : c.targetNow.appendDelta (c.copyRequest d) logIndex nowMs = (s, .ok seq)) :
    Inv { c with
      target := s
      inline := s.inlineStore
      phase := .copying tip nextSeq pending
      targetLog := c.targetLog ++ [(deltaArgsOf (c.copyRequest d)).content] } := by
  have htarget : s.deltas.map Delta.label =
      c.target.deltas.map Delta.label ++
        [(deltaArgsOf (c.copyRequest d)).content.toDeltaLabel] := by
    rw [ShardSmInner.appendDelta] at happend
    split at happend
    · cases happend
    · obtain rfl := congrArg Prod.fst happend
      exact map_append
  refine ⟨h.source, ?_, fun _ => ?_⟩
  · rw [htarget, h.target, ← map_singleton, ← map_append]
  · have hprogress := h.progress fun e heq => by cases hp.symm.trans heq
    rw [hp, remaining, map_cons, keep_cons_of_pos hkey] at hprogress
    rw [content_copyRequest]
    exact (append_assoc _ _ _).trans hprogress

lemma Inv.read (h : c.Inv) (hp : c.phase = .replaying tip lo) (hle : lo ≤ tip)
    (hread : c.sourceNow.readDeltas lo (lastOf lo tip) = .ok pending)
    (hintact : c.Intact lo (lastOf lo tip)) :
    Inv { c with phase := .copying tip (lastOf lo tip + 1) pending } := by
  have hlo : lo ≤ lastOf lo tip := by
    simp only [lastOf, batchSize]
    omega
  have hlast : lastOf lo tip ≤ tip := min_le_right _ _
  have hnow : c.sourceNow.Sequenced := ⟨h.source.sequenced.sorted, h.source.sequenced.bounds⟩
  rw [hnow.readDeltas hlo] at hread
  obtain rfl := Except.ok.inj hread
  refine h.move hp nofun ⟨rfl, rfl⟩ rfl ?_
  rw [remaining, remaining, ← between_split h.source (le_succ_of_le hlo) hlast]
  exact congrArg (c.keep · ++ _) (read_contents h.source hintact)

lemma Inv.step (h : c.Inv) (hstep : Step Quiet Intact c c') : c'.Inv := by
  cases hstep with
  | client e he hok => exact h.client he hok
  | mark hp logIndex nowMs =>
    exact h.move hp nofun (onSource_control rfl logIndex nowMs) rfl rfl
  | rangeTarget hp logIndex nowMs => exact h.move hp nofun ⟨rfl, rfl⟩ rfl rfl
  | size hp => exact h.move hp nofun ⟨rfl, rfl⟩ rfl (between_tip h.source)
  | refuse hp hgc => exact ⟨h.source, h.target, fun hlive => absurd rfl (hlive _)⟩
  | replay hp hgc => exact h.move hp nofun ⟨rfl, rfl⟩ rfl rfl
  | read hp hle hread hok => exact h.read hp hle hread hok
  | skip hp hkey =>
    refine h.move hp nofun ⟨rfl, rfl⟩ rfl ?_
    rw [remaining, remaining, map_cons, keep_cons_of_neg hkey]
  | copy hp hkey logIndex nowMs happend => exact h.copy hp hkey happend
  | next hp => exact h.move hp nofun ⟨rfl, rfl⟩ rfl rfl
  | finish hp hlt => exact h.move hp nofun ⟨rfl, rfl⟩ rfl (between_empty hlt).symm
  | shrink hp logIndex nowMs => exact h.move hp nofun ⟨rfl, rfl⟩ rfl rfl
  | restore hp logIndex nowMs =>
    exact h.move hp nofun (onSource_control rfl logIndex nowMs) rfl rfl
  | fail hp e => exact ⟨h.source, h.target, fun hlive => absurd rfl (hlive _)⟩

lemma Inv.start {source target : ShardSmInner} (hs : source.Reachable)
    (ht : target.deltas = []) (inline : Option InlineMap) :
    (Cutover.start source target inline).Inv := by
  have hnow : ({ source with inlineStore := inline } : ShardSmInner).Sequenced :=
    ⟨hs.sequenced.sorted, hs.sequenced.bounds⟩
  refine ⟨hnow.recorded.congr rfl rfl, ?_, fun _ => rfl⟩
  change target.deltas.map Delta.label = _
  rw [ht]
  rfl

lemma Inv.complete (h : c.Inv) (hdone : c.phase = .done) : c.Complete := by
  refine ⟨h.source.held, h.target, fun key hkey => ?_⟩
  have hprogress := h.progress fun e heq => by cases hdone.symm.trans heq
  rw [hdone, remaining, append_nil] at hprogress
  rw [hprogress, moved, keep, filter_filter]
  apply filter_congr
  intro a _
  by_cases hak : a.hashedKey = key
  · rw [decide_eq_true hak, hak, decide_eq_true hkey]
    rfl
  · rw [decide_eq_false hak, Bool.false_and]

end

end Cutover

/-- A returned split has copied the upper half, if none is appended late. -/
theorem split_copies_upper_half {source target : ShardSmInner} (hs : source.Reachable)
    (ht : target.deltas = []) (inline : Option InlineMap) {c : Cutover}
    (hrun : Cutover.Run Cutover.Quiet Cutover.Intact (Cutover.start source target inline) c)
    (hdone : c.phase = .done) : c.Complete := by
  have hinv : c.Inv := by
    clear hdone
    induction hrun with
    | refl => exact Cutover.Inv.start hs ht inline
    | tail _ hstep ih => exact ih.step hstep
  exact hinv.complete hdone

def appendByte (byte : UInt8) (logIndex : Nat) : Applied :=
  ⟨.appendDelta (deltaArgsOf (plainRequest byte)), logIndex, 0⟩

def emptySplit : Cutover :=
  .start (plainShard 2 60000) (plainShard 2 60000) none

lemma upper_byte : InRange emptySplit.mid emptySplit.rangeEnd (.replicate 32 0x90) := by
  decide

theorem split_copies_upper_half_appended : ∃ c : Cutover,
    Cutover.Run Cutover.Quiet Cutover.Intact emptySplit c ∧ c.phase = .done ∧
      c.targetLog.length = 1 ∧ c.Complete := by
  have hclient : Cutover.Run Cutover.Quiet Cutover.Intact emptySplit _ :=
    .tail .refl (.client (appendByte 0x90 1) rfl nofun)
  have hsized := ((hclient.tail (.mark rfl 2 0)).tail (.rangeTarget rfl 1 0)).tail (.size rfl)
  have hread := (hsized.tail (.replay rfl (by decide))).tail
    (.read rfl (le_refl 1) rfl (.cons (fun _ _ => rfl) .nil))
  have hcopied := (hread.tail (.copy rfl upper_byte 2 0 rfl)).tail (.next rfl)
  have hdone := ((hcopied.tail (.finish rfl (lt_succ_self 1))).tail (.shrink rfl 3 0)).tail
    (.restore rfl 4 0)
  exact ⟨_, hdone, rfl, rfl, split_copies_upper_half (.new _ _ _ _ _) rfl none hdone rfl⟩

/-- The tip is read, an upper-half key is appended, and the split returns. -/
theorem append_after_tip_lost : ∃ c : Cutover,
    Cutover.Run (fun _ _ => True) (fun _ _ _ => True) emptySplit c ∧ c.phase = .done ∧
      ¬c.Complete := by
  have hsized : Cutover.Run (fun _ _ => True) (fun _ _ _ => True) emptySplit _ :=
    .tail (.tail (.tail .refl (.mark rfl 1 0)) (.rangeTarget rfl 1 0)) (.size rfl)
  have happended := hsized.tail (.client (appendByte 0x90 2) rfl trivial)
  have hreplayed := (happended.tail (.replay rfl (by decide))).tail (.finish rfl (lt_succ_self 0))
  have hdone := (hreplayed.tail (.shrink rfl 3 0)).tail (.restore rfl 4 0)
  refine ⟨_, hdone, rfl, fun hcomplete => ?_⟩
  exact nomatch hcomplete.copies (.replicate 32 0x90) upper_byte

end Kiseki.Log
