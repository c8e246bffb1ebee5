import Kiseki.Log.Store
import Mathlib.Data.List.Sort

namespace Kiseki.Intent

open Relation Finset
open List hiding after

def drainBatchCap : Nat := 1000

def seqsOf (intents : List WriteIntent) : List PerspectiveSeq :=
  intents.map WriteIntent.perspectiveSeq

structure PendingIntents where
  intents : List WriteIntent := []
  distinct : (seqsOf intents).Nodup := by exact List.nodup_nil

/-- Submitted and not yet reaped; the ticket is empty until it resolves. -/
structure InFlightRound where
  seqs : List PerspectiveSeq
  ticket : Option (Except Log.LogError Unit) := none

structure PipelinedCommitter where
  depth : Nat
  minBatch : Nat
  inFlight : List InFlightRound := []
  inFlightSeqs : Finset PerspectiveSeq := ∅

namespace PipelinedCommitter

def new (depth minBatch : Nat) : PipelinedCommitter where
  depth := max depth 1
  minBatch := min minBatch drainBatchCap

section
variable (c : PipelinedCommitter)

def clearInFlight : PipelinedCommitter :=
  { c with inFlight := [], inFlightSeqs := ∅ }

def finishRound (seqs : List PerspectiveSeq) : PipelinedCommitter :=
  { c with inFlightSeqs := seqs.foldl Finset.erase c.inFlightSeqs }

def reapLoop : List InFlightRound → PipelinedCommitter → PipelinedCommitter
  | [], c => { c with inFlight := [] }
  | front :: rest, c =>
    match front.ticket with
    | some _ => reapLoop rest (c.finishRound front.seqs)
    | none => { c with inFlight := front :: rest }

def reapCompleted : PipelinedCommitter :=
  reapLoop c.inFlight c

/-- `sort_and_filter`: the pending intents in order, without those in flight. -/
def candidates (pending : List WriteIntent) : List WriteIntent :=
  (pending.mergeSort fun a b => decide (a.perspectiveSeq ≤ b.perspectiveSeq)).filter fun i =>
    decide (i.perspectiveSeq ∉ c.inFlightSeqs)

def holds (batch : List WriteIntent) : Bool :=
  !c.inFlight.isEmpty && decide (batch.length < c.minBatch)

def pushRound (batch : List WriteIntent) : PipelinedCommitter :=
  { c with
    inFlightSeqs := (seqsOf batch).foldl (fun seqs s => insert s seqs) c.inFlightSeqs
    inFlight := c.inFlight ++ [{ seqs := seqsOf batch }] }

end

end PipelinedCommitter

inductive Tick where
  | idle
  -- at the head of the loop over the batches
  | batches (rest : List WriteIntent)
  -- before the submission of a batch
  | makeRoom (batch rest : List WriteIntent)
  -- in `await_oldest`, with the round that was popped
  | awaiting (round : InFlightRound) (batch rest : List WriteIntent)

def Tick.remaining : Tick → List WriteIntent
  | .idle => []
  | .batches rest => rest
  | .makeRoom batch rest | .awaiting _ batch rest => batch ++ rest

def Tick.popped : Tick → List InFlightRound
  | .awaiting round _ _ => [round]
  | _ => []

structure Drain where
  committer : PipelinedCommitter
  pending : PendingIntents := {}
  tick : Tick := .idle
  submitted : List PerspectiveSeq := []

def roundSeqs (rounds : List InFlightRound) : List PerspectiveSeq :=
  rounds.flatMap InFlightRound.seqs

namespace Drain

def rounds (d : Drain) : List InFlightRound :=
  d.tick.popped ++ d.committer.inFlight

def eligible (d : Drain) : List WriteIntent :=
  d.committer.reapCompleted.candidates d.pending.intents

inductive Step : Drain → Drain → Prop
  -- writers put intents at any time; nothing is retired while a tick runs
  | arrive (pending : PendingIntents)
      (hkeep : ∀ seq ∈ seqsOf d.pending.intents, seq ∈ seqsOf pending.intents) :
      Step d { d with pending := pending }
  | retire (pending : PendingIntents) (ht : d.tick = .idle) : Step d { d with pending := pending }
  -- a ticket resolves, in any order
  | resolve {round : InFlightRound} (result : Except Log.LogError Unit)
      (hround : d.committer.inFlight = before ++ round :: after) (hticket : round.ticket = none) :
      Step d
        { d with
          committer := { d.committer with
            inFlight := before ++ { round with ticket := some result } :: after } }
  | resolvePopped {round : InFlightRound} (result : Except Log.LogError Unit)
      (ht : d.tick = .awaiting round batch rest) (hticket : round.ticket = none) :
      Step d { d with tick := .awaiting { round with ticket := some result } batch rest }
  -- leadership is lost between two ticks
  | clear (ht : d.tick = .idle) : Step d { d with committer := d.committer.clearInFlight }
  | start (ht : d.tick = .idle) :
      Step d
        { d with
          committer := d.committer.reapCompleted
          tick := .batches d.eligible
          submitted := [] }
  -- the store cannot be read
  | startFailed (ht : d.tick = .idle) :
      Step d { d with committer := d.committer.reapCompleted, submitted := [] }
  | done (ht : d.tick = .batches []) : Step d { d with tick := .idle }
  | hold (ht : d.tick = .batches rest) (hrest : rest ≠ [])
      (hhold : d.committer.holds (rest.take drainBatchCap) = true) : Step d { d with tick := .idle }
  | next (ht : d.tick = .batches rest) (hrest : rest ≠ [])
      (hhold : d.committer.holds (rest.take drainBatchCap) = false) :
      Step d { d with tick := .makeRoom (rest.take drainBatchCap) (rest.drop drainBatchCap) }
  | pop {round : InFlightRound} (ht : d.tick = .makeRoom batch rest)
      (hfull : d.committer.depth ≤ d.committer.inFlight.length)
      (hround : d.committer.inFlight = round :: younger) :
      Step d
        { d with
          committer := { d.committer with inFlight := younger }
          tick := .awaiting round batch rest }
  | finish (round : InFlightRound) (batch rest : List WriteIntent)
      (ht : d.tick = .awaiting round batch rest) (hticket : round.ticket.isSome = true) :
      Step d
        { d with
          committer := d.committer.finishRound round.seqs
          tick := .makeRoom batch rest }
  | submit (ht : d.tick = .makeRoom batch rest)
      (hroom : d.committer.inFlight.length < d.committer.depth) :
      Step d
        { d with
          committer := d.committer.pushRound batch
          tick := .batches rest
          submitted := d.submitted ++ seqsOf batch }
  | submitFailed (ht : d.tick = .makeRoom batch rest)
      (hroom : d.committer.inFlight.length < d.committer.depth) : Step d { d with tick := .idle }

structure Inv (depth : Nat) (d : Drain) : Prop where
  configured : d.committer.depth = depth
  union : d.committer.inFlightSeqs = (roundSeqs d.rounds).toFinset
  disjoint : (roundSeqs d.rounds).Nodup
  bounded : d.rounds.length ≤ depth
  ascending : (d.submitted ++ seqsOf d.tick.remaining).Pairwise (· < ·)
  fresh : ∀ seq ∈ seqsOf d.tick.remaining, seq ∉ roundSeqs d.rounds
  pending : d.tick ≠ .idle →
    ∀ seq ∈ d.submitted ++ seqsOf d.tick.remaining, seq ∈ seqsOf d.pending.intents

end Drain

section
variable {c : PipelinedCommitter} {rounds : List InFlightRound}

lemma roundSeqs_cons (round : InFlightRound) :
    roundSeqs (round :: rounds) = round.seqs ++ roundSeqs rounds :=
  flatMap_cons

lemma roundSeqs_append (rounds rounds' : List InFlightRound) :
    roundSeqs (rounds ++ rounds') = roundSeqs rounds ++ roundSeqs rounds' :=
  flatMap_append

section
variable (seqs : List PerspectiveSeq) (s : Finset PerspectiveSeq)

lemma foldl_erase_eq : seqs.foldl Finset.erase s = s \ seqs.toFinset := by
  induction seqs generalizing s with
  | nil => rw [foldl_nil, toFinset_nil, sdiff_empty]
  | cons q seqs ih =>
    rw [foldl_cons, ih, toFinset_cons, sdiff_insert, erase_sdiff_comm]

lemma foldl_insert_eq : seqs.foldl (fun s q => insert q s) s = s ∪ seqs.toFinset := by
  induction seqs generalizing s with
  | nil => rw [foldl_nil, toFinset_nil, union_empty]
  | cons q seqs ih => rw [foldl_cons, ih, toFinset_cons, insert_union_comm]

end

lemma finishRound_toFinset (hunion : c.inFlightSeqs = (seqs ++ others).toFinset)
    (hnodup : (seqs ++ others).Nodup) :
    (c.finishRound seqs).inFlightSeqs = others.toFinset := by
  have hdisjoint : Disjoint others.toFinset seqs.toFinset := by
    rw [disjoint_toFinset_iff_disjoint]
    exact (disjoint_of_nodup_append hnodup).symm
  rw [PipelinedCommitter.finishRound, foldl_erase_eq, hunion, toFinset_append,
    union_sdiff_left, sdiff_eq_self_of_disjoint hdisjoint]

lemma reapLoop_spec
    (hunion : c.inFlightSeqs = (roundSeqs rounds).toFinset) (hnodup : (roundSeqs rounds).Nodup) :
    (PipelinedCommitter.reapLoop rounds c).inFlight <:+ rounds ∧
      (PipelinedCommitter.reapLoop rounds c).inFlightSeqs =
        (roundSeqs (PipelinedCommitter.reapLoop rounds c).inFlight).toFinset ∧
      (PipelinedCommitter.reapLoop rounds c).depth = c.depth ∧
      ((∀ round ∈ rounds, round.ticket.isSome = true) →
        (PipelinedCommitter.reapLoop rounds c).inFlight = []) := by
  induction rounds generalizing c with
  | nil => exact ⟨suffix_rfl, hunion, rfl, fun _ => rfl⟩
  | cons front rest ih =>
    rw [roundSeqs_cons] at hunion hnodup
    rw [PipelinedCommitter.reapLoop]
    cases hticket : front.ticket with
    | none =>
      refine ⟨suffix_rfl, hunion, rfl, fun hall => ?_⟩
      have hfront := hall front mem_cons_self
      rw [hticket] at hfront
      exact nomatch hfront
    | some result =>
      obtain ⟨hsuffix, hseqs, hdepth, hempty⟩ := ih (c := c.finishRound front.seqs)
        (finishRound_toFinset hunion hnodup) hnodup.of_append_right
      refine ⟨hsuffix.trans (suffix_cons front rest), hseqs, hdepth, fun hall => ?_⟩
      exact hempty fun round hround => hall round (mem_cons_of_mem front hround)

lemma candidates_spec (pending : PendingIntents) :
    (seqsOf (c.candidates pending.intents)).Pairwise (· < ·) ∧
      ∀ i, i ∈ c.candidates pending.intents ↔
        i ∈ pending.intents ∧ i.perspectiveSeq ∉ c.inFlightSeqs := by
  constructor
  · have hle : (pending.intents.mergeSort fun a b =>
        decide (a.perspectiveSeq ≤ b.perspectiveSeq)).Pairwise fun a b =>
          a.perspectiveSeq ≤ b.perspectiveSeq := by
      refine (pairwise_mergeSort (fun a b c hab hbc => ?_) (fun a b => ?_) _).imp of_decide_eq_true
      · exact decide_eq_true ((of_decide_eq_true hab).trans (of_decide_eq_true hbc))
      · rw [Bool.or_eq_true, decide_eq_true_eq, decide_eq_true_eq]
        exact le_total _ _
    have hne : (seqsOf (pending.intents.mergeSort fun a b =>
        decide (a.perspectiveSeq ≤ b.perspectiveSeq))).Nodup :=
      ((mergeSort_perm _ _).map _).nodup_iff.2 pending.distinct
    have hlt : (seqsOf (pending.intents.mergeSort fun a b =>
        decide (a.perspectiveSeq ≤ b.perspectiveSeq))).Pairwise (· < ·) :=
      (pairwise_map.2 hle).imp₂ (fun a b h h' => lt_of_le_of_ne h h') hne
    exact hlt.sublist (filter_sublist.map _)
  · intro i
    rw [PipelinedCommitter.candidates, mem_filter, mem_mergeSort, decide_eq_true_eq]

end

namespace Drain
variable {d d' : Drain} {depth : Nat}

lemma rounds_of_popped (h : d.tick.popped = []) : d.rounds = d.committer.inFlight := by
  rw [rounds, h, nil_append]

section
variable (h : d.Inv depth)

include h

lemma Inv.congr (hdepth : d'.committer.depth = d.committer.depth)
    (hseqs : d'.committer.inFlightSeqs = d.committer.inFlightSeqs)
    (hrounds : roundSeqs d'.rounds = roundSeqs d.rounds)
    (hlength : d'.rounds.length = d.rounds.length) (hsubmitted : d'.submitted = d.submitted)
    (hremaining : d'.tick.remaining = d.tick.remaining)
    (hpending : d'.tick ≠ .idle → d.tick ≠ .idle ∧
      ∀ seq ∈ seqsOf d.pending.intents, seq ∈ seqsOf d'.pending.intents) : d'.Inv depth where
  configured := hdepth.trans h.configured
  union := by rw [hseqs, hrounds, h.union]
  disjoint := by rw [hrounds]; exact h.disjoint
  bounded := by rw [hlength]; exact h.bounded
  ascending := by rw [hsubmitted, hremaining]; exact h.ascending
  fresh := by rw [hremaining, hrounds]; exact h.fresh
  pending := by
    intro hne seq hseq
    rw [hsubmitted, hremaining] at hseq
    exact (hpending hne).2 seq (h.pending (hpending hne).1 seq hseq)

lemma Inv.stop (hp : d.tick.popped = []) : ({ d with tick := .idle } : Drain).Inv depth := by
  have hrounds : ({ d with tick := .idle } : Drain).rounds = d.rounds :=
    (rounds_of_popped hp).symm
  refine ⟨h.configured, ?_, ?_, ?_, ?_, fun _ hseq => absurd hseq not_mem_nil,
    fun hne => absurd rfl hne⟩
  · rw [hrounds]
    exact h.union
  · rw [hrounds]
    exact h.disjoint
  · rw [hrounds]
    exact h.bounded
  · exact h.ascending.sublist ((List.Sublist.refl _).append (nil_sublist _))

lemma Inv.reap (ht : d.tick = .idle) :
    d.committer.reapCompleted.depth = depth ∧
      d.committer.reapCompleted.inFlightSeqs =
        (roundSeqs d.committer.reapCompleted.inFlight).toFinset ∧
      (roundSeqs d.committer.reapCompleted.inFlight).Nodup ∧
      d.committer.reapCompleted.inFlight.length ≤ depth ∧
      ((∀ round ∈ d.rounds, round.ticket.isSome = true) →
        d.committer.reapCompleted.inFlight = []) := by
  have hrounds : d.rounds = d.committer.inFlight := rounds_of_popped (by rw [ht]; rfl)
  have hunion := h.union
  have hnodup := h.disjoint
  have hbounded := h.bounded
  rw [hrounds] at hunion hnodup hbounded ⊢
  obtain ⟨hsuffix, hseqs, hdepth, hempty⟩ := reapLoop_spec hunion hnodup
  refine ⟨hdepth.trans h.configured, hseqs, hnodup.sublist ?_, hsuffix.length_le.trans hbounded,
    hempty⟩
  exact hsuffix.sublist.flatMap _

lemma Inv.start (ht : d.tick = .idle) :
    ({ d with
      committer := d.committer.reapCompleted
      tick := .batches d.eligible
      submitted := [] } : Drain).Inv depth := by
  obtain ⟨hdepth, hunion, hnodup, hbounded, _⟩ := h.reap ht
  obtain ⟨hsorted, hmem⟩ := candidates_spec d.pending
  refine ⟨hdepth, hunion, hnodup, hbounded, hsorted, fun seq hseq => ?_, fun _ seq hseq => ?_⟩
  · obtain ⟨i, hi, rfl⟩ := mem_map.1 hseq
    have hnot := ((hmem i).1 hi).2
    rw [hunion, mem_toFinset] at hnot
    exact hnot
  · obtain ⟨i, hi, rfl⟩ := mem_map.1 hseq
    exact mem_map.2 ⟨i, ((hmem i).1 hi).1, rfl⟩

lemma Inv.submit (ht : d.tick = .makeRoom batch rest)
    (hroom : d.committer.inFlight.length < d.committer.depth) :
    ({ d with
      committer := d.committer.pushRound batch
      tick := .batches rest
      submitted := d.submitted ++ seqsOf batch } : Drain).Inv depth := by
  have hrounds : d.rounds = d.committer.inFlight := rounds_of_popped (by rw [ht]; rfl)
  have hunion := h.union
  have hnodup := h.disjoint
  have hascending := h.ascending
  have hfresh := h.fresh
  have hpending := h.pending (by rw [ht]; exact nofun)
  rw [hrounds] at hunion hnodup hfresh
  rw [ht, Tick.remaining, seqsOf, map_append, ← seqsOf, ← seqsOf, ← append_assoc]
    at hascending hpending
  rw [ht, Tick.remaining, seqsOf, map_append, ← seqsOf, ← seqsOf] at hfresh
  obtain ⟨hbefore, _, hafter⟩ := pairwise_append.1 hascending
  have hseqs : roundSeqs (d.committer.inFlight ++ [{ seqs := seqsOf batch }]) =
      roundSeqs d.committer.inFlight ++ seqsOf batch := by
    rw [roundSeqs_append, roundSeqs_cons]
    exact congrArg _ (append_nil _)
  refine ⟨h.configured, ?_, ?_, ?_, hascending, fun seq hseq => ?_, fun _ => hpending⟩
  · change (seqsOf batch).foldl (fun seqs s => insert s seqs) d.committer.inFlightSeqs =
      (roundSeqs (d.committer.inFlight ++ [{ seqs := seqsOf batch }])).toFinset
    rw [foldl_insert_eq, hunion, hseqs, toFinset_append]
  · change (roundSeqs (d.committer.inFlight ++ [{ seqs := seqsOf batch }])).Nodup
    rw [hseqs, nodup_append']
    refine ⟨hnodup, (hbefore.sublist (sublist_append_right _ _)).imp ne_of_lt, ?_⟩
    exact fun seq hold hnew => hfresh seq (mem_append_left _ hnew) hold
  · change (d.committer.inFlight ++ [_]).length ≤ depth
    rw [length_append, length_singleton, ← h.configured]
    exact hroom
  · change seq ∉ roundSeqs (d.committer.inFlight ++ [{ seqs := seqsOf batch }])
    rw [hseqs]
    intro hin
    rcases mem_append.1 hin with hold | hnew
    · exact hfresh seq (mem_append_right _ hseq) hold
    · exact lt_irrefl seq (hafter seq (mem_append_right _ hnew) seq hseq)

lemma Inv.clear (ht : d.tick = .idle) :
    ({ d with committer := d.committer.clearInFlight } : Drain).Inv depth := by
  refine ⟨h.configured, ?_, ?_, ?_, h.ascending, ?_, fun hne => absurd ht hne⟩
  all_goals rw [rounds_of_popped (by rw [ht]; rfl)]
  · rfl
  · exact nodup_nil
  · exact Nat.zero_le _
  · exact fun _ _ => not_mem_nil

lemma Inv.finish {round : InFlightRound} (ht : d.tick = .awaiting round batch rest) :
    ({ d with committer := d.committer.finishRound round.seqs, tick := .makeRoom batch rest } :
      Drain).Inv depth := by
  have hrounds : d.rounds = round :: d.committer.inFlight := by
    rw [rounds, ht]
    rfl
  have hunion := h.union
  have hnodup := h.disjoint
  have hbounded := h.bounded
  rw [hrounds, roundSeqs_cons] at hunion hnodup
  rw [hrounds] at hbounded
  have hremaining : d.tick.remaining = batch ++ rest := by rw [ht]; rfl
  refine ⟨h.configured, finishRound_toFinset hunion hnodup, hnodup.of_append_right,
    Nat.le_of_succ_le hbounded, ?_, fun seq hseq => ?_, fun _ => ?_⟩
  · have hascending := h.ascending
    rw [hremaining] at hascending
    exact hascending
  · have hfresh := h.fresh seq (by rw [hremaining]; exact hseq)
    rw [hrounds, roundSeqs_cons] at hfresh
    exact fun hin => hfresh (mem_append_right _ hin)
  · have hpending := h.pending (by rw [ht]; exact nofun)
    rw [hremaining] at hpending
    exact hpending

lemma Inv.step (hstep : Step d d') : d'.Inv depth := by
  cases hstep with
  | arrive pending hkeep => exact h.congr rfl rfl rfl rfl rfl rfl fun hne => ⟨hne, hkeep⟩
  | retire pending ht => exact h.congr rfl rfl rfl rfl rfl rfl fun hne => absurd ht hne
  | resolve result hround hticket =>
    refine h.congr rfl rfl ?_ ?_ rfl rfl fun hne => ⟨hne, fun _ hseq => hseq⟩
    · rw [rounds, rounds, hround]
      simp only [roundSeqs_append, roundSeqs_cons]
    · rw [rounds, rounds, hround]
      simp only [length_append, length_cons]
  | resolvePopped result ht hticket =>
    refine h.congr rfl rfl ?_ ?_ rfl ?_ fun _ => ⟨by rw [ht]; exact nofun, fun _ hseq => hseq⟩
    · rw [rounds, rounds, ht]
      rfl
    · rw [rounds, rounds, ht]
      rfl
    · rw [ht]
      rfl
  | clear ht => exact h.clear ht
  | start ht => exact h.start ht
  | startFailed ht =>
    have hstop := (h.start ht).stop rfl
    rw [← ht] at hstop
    exact hstop
  | done ht => exact h.stop (by rw [ht]; rfl)
  | hold ht hrest hhold => exact h.stop (by rw [ht]; rfl)
  | next ht hrest hhold =>
    refine h.congr rfl rfl ?_ ?_ rfl ?_ fun _ => ⟨by rw [ht]; exact nofun, fun _ hseq => hseq⟩
    · rw [rounds, rounds, ht]
      rfl
    · rw [rounds, rounds, ht]
      rfl
    · rw [ht]
      exact take_append_drop _ _
  | pop ht hfull hround =>
    refine h.congr rfl rfl ?_ ?_ rfl ?_ fun _ => ⟨by rw [ht]; exact nofun, fun _ hseq => hseq⟩
    · rw [rounds, rounds, ht, hround]
      rfl
    · rw [rounds, rounds, ht, hround]
      rfl
    · rw [ht]
      rfl
  | finish round batch rest ht hticket => exact h.finish ht
  | submit ht hroom => exact h.submit ht hroom
  | submitFailed ht hroom => exact h.stop (by rw [ht]; rfl)

lemma Inv.run (hrun : ReflTransGen Step d d') : d'.Inv depth := by
  induction hrun with
  | refl => exact h
  | tail _ hstep ih => exact ih.step hstep

end

def new (depth minBatch : Nat) : Drain where
  committer := .new depth minBatch

lemma inv_new (depth minBatch : Nat) : (new depth minBatch).Inv (max depth 1) :=
  ⟨rfl, rfl, nodup_nil, Nat.zero_le _, List.Pairwise.nil,
    fun _ hseq => absurd hseq not_mem_nil, fun hne => absurd rfl hne⟩

/-- In flight are the disjoint rounds; in the end every pending intent is eligible. -/
theorem drain_bookkeeping (hrun : ReflTransGen Step (new depth minBatch) d) :
    (d.committer.inFlightSeqs = (roundSeqs d.rounds).toFinset ∧ (roundSeqs d.rounds).Nodup) ∧
      d.rounds.length ≤ max depth 1 ∧
      (d.submitted.Pairwise (· < ·) ∧
        (d.tick ≠ .idle → ∀ seq ∈ d.submitted, seq ∈ seqsOf d.pending.intents)) ∧
      (d.tick = .idle → (∀ round ∈ d.rounds, round.ticket.isSome = true) →
        ∀ i ∈ d.pending.intents, i ∈ d.eligible) := by
  have h := (inv_new depth minBatch).run hrun
  refine ⟨⟨h.union, h.disjoint⟩, h.bounded, ⟨(pairwise_append.1 h.ascending).1,
    fun hne seq hseq => h.pending hne seq (mem_append_left _ hseq)⟩, fun ht hall i hi => ?_⟩
  obtain ⟨_, hunion, _, _, hempty⟩ := h.reap ht
  refine ((candidates_spec d.pending).2 i).2 ⟨hi, ?_⟩
  rw [hunion, hempty hall]
  exact notMem_empty _

def onePending : Drain :=
  { new 2 0 with pending := { intents := [plainIntent 5], distinct := List.nodup_singleton _ } }

def oneRound : Drain :=
  { onePending with
    committer := (PipelinedCommitter.new 2 0).pushRound [plainIntent 5]
    submitted := seqsOf [plainIntent 5] }

lemma oneRound_run : ReflTransGen Step (new 2 0) oneRound := by
  have harrived : ReflTransGen Step (new 2 0) onePending :=
    .single (.arrive onePending.pending fun _ hseq => absurd hseq not_mem_nil)
  have heligible : onePending.eligible = [plainIntent 5] := by
    rw [eligible, PipelinedCommitter.candidates]
    exact congrArg (filter _) (mergeSort_singleton _)
  have hstarted := harrived.tail (.start rfl)
  rw [heligible] at hstarted
  exact ((hstarted.tail (.next rfl (cons_ne_nil _ _) rfl)).tail
    (.submit rfl Nat.zero_lt_two)).tail (.done rfl)

theorem drain_bookkeeping_oneRound :
    oneRound.committer.inFlightSeqs = (seqsOf [plainIntent 5]).toFinset ∧
      oneRound.rounds.length = 1 ∧ oneRound.submitted.Pairwise (· < ·) := by
  obtain ⟨⟨hunion, _⟩, _, ⟨hascending, _⟩, _⟩ := drain_bookkeeping oneRound_run
  exact ⟨hunion, rfl, hascending⟩

end Drain

end Kiseki.Intent
