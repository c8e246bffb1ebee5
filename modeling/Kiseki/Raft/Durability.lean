import Kiseki.Raft.Coalescer

namespace Kiseki.Raft

open Function Relation List Nat

section
variable [RaftEntry E]

/-- The vote or a later one, and entries that no batch removes. -/
def Promise.Kept (p : Promise E) (d : LogDisk E) : Prop :=
  match p.batch with
  | .setVote vote => ∃ v, d.vote = some v ∧ (v = vote ∨ .setVote v ∈ p.later)
  | .insert entries => ∀ e ∈ entries, (∀ b ∈ p.later, ¬b.Touches (indexOf e)) →
      d.log[indexOf e]? = some e
  | _ => True

abbrev Recovers (P : LogDisk E → Prop) (j : Journal (Batch E)) : Prop :=
  j.Always Batch.apply {} P

def VoteSafe (mode : Durability) (s : Node E) : Batch E → Prop
  | .setVote vote => mode = .syncAll ∨ Recovers (fun d => d.vote = some vote) s.journal
  | _ => True

variable {d : LogDisk E} {b b' : Batch E} {p : Promise E} {j : Journal (Batch E)}
  {later more : List (Batch E)} {es : List E} {i pos : Nat} {s s' : Node E} {mode : Durability}

lemma Batch.getElem?_untouched (h : ¬b.Touches i) : (b.apply d).log[i]? = d.log[i]? := by
  cases b with
  | insert es => exact getElem?_insert_untouched h
  | remove keys => exact (LogMap.getElem?_eraseAll keys).trans (if_neg h)
  | setVote => rfl
  | setCommitted => rfl
  | setLastPurged => rfl

lemma Batch.vote_apply (b : Batch E) :
    (b.apply d).vote = d.vote ∨ ∃ vote, b = .setVote vote ∧ (b.apply d).vote = some vote := by
  cases b with
  | setVote vote => exact .inr ⟨vote, rfl, rfl⟩
  | insert => exact .inl rfl
  | remove => exact .inl rfl
  | setCommitted => exact .inl rfl
  | setLastPurged => exact .inl rfl

lemma Promise.Kept.apply (h : p.Kept d) (hb : b ∈ p.later) : p.Kept (b.apply d) := by
  obtain ⟨batch, later⟩ := p
  cases batch with
  | setVote vote =>
    obtain ⟨v, hv, hnew⟩ := h
    rcases b.vote_apply with heq | ⟨vote', hset, heq⟩
    · exact ⟨v, heq.trans hv, hnew⟩
    · exact ⟨vote', heq, .inr (hset ▸ hb)⟩
  | insert entries =>
    intro e he huntouched
    exact (Batch.getElem?_untouched (huntouched b hb)).trans (h e he huntouched)
  | remove => trivial
  | setCommitted => trivial
  | setLastPurged => trivial

lemma Promise.Kept.append (h : Kept ⟨b, later⟩ d) (more : List (Batch E)) :
    Kept ⟨b, later ++ more⟩ d := by
  cases b with
  | setVote vote =>
    obtain ⟨v, hv, hnew⟩ := h
    exact ⟨v, hv, hnew.imp_right fun hmem => mem_append_left _ hmem⟩
  | insert entries =>
    intro e he huntouched
    exact h e he fun b hb => huntouched b (mem_append_left _ hb)
  | remove => trivial
  | setCommitted => trivial
  | setLastPurged => trivial

lemma Promise.recovers_commit (h : Recovers (Kept ⟨b, later⟩) j) :
    Recovers (Kept ⟨b, later ++ [b']⟩) (commitTo j b') := by
  rw [commitTo]
  split
  · exact h.mono fun d hd => hd.append [b']
  · refine h.write (fun d hd => hd.append [b']) ?_
    intro d hd
    exact (hd.append [b']).apply (mem_append_right _ mem_cons_self)

def Placed (j : Journal (Batch E)) (b : Batch E) (pos : Nat) : Prop :=
  pos ≤ j.batches.length ∧ ∀ later, Promise.Kept ⟨b, later⟩ (j.recover Batch.apply {} pos)

lemma Batch.kept_apply (hwf : b.WellFormed) : Promise.Kept ⟨b, later⟩ (b.apply d) := by
  cases b with
  | setVote vote => exact ⟨vote, rfl, .inl rfl⟩
  | insert entries =>
    obtain ⟨n, hn⟩ := hwf
    exact fun e he _ => hn.getElem?_of_mem he
  | remove => trivial
  | setCommitted => trivial
  | setLastPurged => trivial

lemma Batch.kept_of_isEmpty (h : b.isEmpty = true) (later : List (Batch E)) :
    Promise.Kept ⟨b, later⟩ d := by
  cases b with
  | insert entries =>
    obtain rfl := isEmpty_iff.1 h
    exact fun e he => absurd he not_mem_nil
  | remove => trivial
  | setVote => cases h
  | setCommitted => cases h
  | setLastPurged => cases h

lemma placed_commit (hwf : b.WellFormed) :
    Placed (commitTo j b) b (commitTo j b).batches.length := by
  refine ⟨le_refl _, ?_⟩
  intro later
  rw [commitTo]
  split
  · exact Batch.kept_of_isEmpty ‹_› later
  · rw [Journal.recover, take_length]
    change Promise.Kept ⟨b, later⟩ ((j.batches ++ [b]).foldl Batch.apply {})
    rw [foldl_append]
    exact Batch.kept_apply hwf

lemma Placed.commit (h : Placed j b pos) (b' : Batch E) : Placed (commitTo j b') b pos := by
  rw [commitTo]
  split
  · exact h
  · have hle : pos ≤ (j.write b').batches.length := by
      rw [Journal.write, length_append]
      exact le_add_right_of_le h.1
    refine ⟨hle, ?_⟩
    intro later
    have hkept := h.2 later
    rw [Journal.recover] at hkept ⊢
    change Promise.Kept _ (((j.batches ++ [b']).take pos).foldl Batch.apply {})
    rw [take_append_of_le_length h.1]
    exact hkept

omit [RaftEntry E] in
lemma drop_commit (h : pos ≤ j.batches.length) (hb : b.isEmpty = false) :
    (commitTo j b).batches.drop pos = j.batches.drop pos ++ [b] := by
  rw [commitTo, hb]
  exact drop_append_of_le_length h

lemma Placed.recovers (h : Placed j b pos) (hdurable : pos ≤ j.durable) :
    Recovers (Promise.Kept ⟨b, j.batches.drop pos⟩) j :=
  Journal.always_of_durable hdurable (h.2 _) fun _ hb' _ hd => hd.apply hb'

def CallState.Ok (mode : Durability) (j : Journal (Batch E)) : CallState E → Prop
  | .active stage b pos => Placed j b pos ∧ (stage = .notified → pos ≤ j.durable) ∧
      (mode ≠ .syncAll → stage = .committed → ∀ vote, b = .setVote vote →
        Recovers (Promise.Kept ⟨b, j.batches.drop pos⟩) j)
  | _ => True

def CallState.Flushed : CallState E → Prop
  | .fresh => False
  | .active .committed _ _ => False
  | _ => True

structure Settled (mode : Durability) (s : Node E) : Prop where
  kept : ∀ p ∈ s.promises, Recovers p.Kept s.journal
  calls : ∀ c, (s.calls c).Ok mode s.journal
  marked : ∀ i ws mark, s.drains i = some ⟨ws, some mark⟩ → ∀ c ∈ ws, ∀ b pos,
    s.calls c = .active .waiting b pos → pos ≤ mark
  parked : ∀ c, c ∈ s.pool.waiters ∨ Draining s.drains c → (s.calls c).Flushed

variable {st : CallState E} {calls : Nat → CallState E} {drains : Nat → Option Drain} {c mark : Nat}
  {ws : List Nat}

lemma CallState.Ok.commit (h : st.Ok mode j) (b : Batch E) : st.Ok mode (commitTo j b) := by
  cases st with
  | fresh => trivial
  | done => trivial
  | active stage b' pos =>
    obtain ⟨hplaced, hnotified, hvote⟩ := h
    have hdurable : (commitTo j b).durable = j.durable := by
      rw [commitTo]
      split <;> rfl
    refine ⟨hplaced.commit b, fun hstage => hdurable ▸ hnotified hstage, ?_⟩
    intro hmode hstage vote heq
    have hkept := hvote hmode hstage vote heq
    cases hb : b.isEmpty with
    | false =>
      rw [drop_commit hplaced.1 hb]
      exact Promise.recovers_commit hkept
    | true =>
      rw [commitTo, hb]
      exact hkept

lemma CallState.Ok.persist (h : st.Ok mode j) (mark : Nat) : st.Ok mode (j.persist mark) := by
  cases st with
  | fresh => trivial
  | done => trivial
  | active stage b pos =>
    obtain ⟨hplaced, hnotified, hvote⟩ := h
    refine ⟨hplaced, fun hstage => le_trans (hnotified hstage) (le_max_left _ _), ?_⟩
    intro hmode hstage vote heq
    exact (hvote hmode hstage vote heq).persist mark

lemma CallState.ok_update (h : ∀ c, (calls c).Ok mode j) (hst : st.Ok mode j) (c' : Nat) :
    (update calls c st c').Ok mode j :=
  (forall_update_iff calls fun _ st => st.Ok mode j).2 ⟨hst, fun c' _ => h c'⟩ c'

omit [RaftEntry E] in
lemma CallState.Flushed.notify (h : st.Flushed) (persisted : Bool) :
    (st.notify persisted).Flushed := by
  cases st with
  | fresh => exact h
  | done => trivial
  | active stage b pos =>
    cases stage with
    | committed => exact h
    | notified => trivial
    | waiting => cases persisted <;> trivial

omit [RaftEntry E] in
lemma waiting_of_notifyAll {persisted : Bool}
    (h : notifyAll calls ws persisted c = .active .waiting b pos) :
    c ∉ ws ∧ calls c = .active .waiting b pos := by
  rw [notifyAll] at h
  split at h
  · exact absurd h (CallState.notify_ne_waiting _ _ _ _)
  · exact ⟨‹_›, h⟩

lemma Draining.of_update_none (h : Draining (update drains i none) c) : Draining drains c := by
  obtain ⟨k, drain, hk, hmem⟩ := h
  by_cases heq : k = i
  · rw [heq, update_self] at hk
    cases hk
  · rw [update_of_ne heq] at hk
    exact ⟨k, drain, hk, hmem⟩

lemma Draining.of_startDrain (h : Draining (Raft.startDrain drains i ws) c) :
    c ∈ ws ∨ Draining drains c := by
  obtain ⟨k, drain, hk, hmem⟩ := h
  rcases startDrain_eq hk with hk | rfl
  · exact .inr ⟨k, drain, hk, hmem⟩
  · exact .inl hmem

lemma Settled.setCall (h : Settled mode s) (st : CallState E)
    (hwait : ∀ b pos, st ≠ .active .waiting b pos)
    (hflushed : (s.calls c).Flushed → st.Flushed) :
    (∀ i ws mark, s.drains i = some ⟨ws, some mark⟩ → ∀ c' ∈ ws, ∀ b pos,
        update s.calls c st c' = .active .waiting b pos → pos ≤ mark) ∧
      ∀ c', c' ∈ s.pool.waiters ∨ Draining s.drains c' →
        (update s.calls c st c').Flushed := by
  refine ⟨?_, ?_⟩
  · intro i ws mark hi c' hc' b pos heq
    by_cases hne : c' = c
    · rw [hne, update_self] at heq
      exact absurd heq (hwait b pos)
    · rw [update_of_ne hne] at heq
      exact h.marked i ws mark hi c' hc' b pos heq
  · intro c' hc'
    by_cases hne : c' = c
    · rw [hne, update_self]
      exact hflushed (h.parked c (hne ▸ hc'))
    · rw [update_of_ne hne]
      exact h.parked c' hc'

lemma Settled.end {promises : List (Promise E)} (h : Settled mode s) (c : Nat)
    (hkept : ∀ p ∈ promises, Recovers p.Kept s.journal) :
    Settled mode { s.stop c with promises := promises } := by
  obtain ⟨hmarked, hparked⟩ := h.setCall (c := c) .done nofun fun _ => trivial
  exact ⟨hkept, CallState.ok_update h.calls trivial, hmarked, hparked⟩

lemma Settled.finish (h : Settled mode s) (c : Nat)
    (hkept : Recovers (Promise.Kept ⟨b, s.journal.batches.drop pos⟩) s.journal) :
    Settled mode (s.finish c b pos) := by
  apply h.end c
  exact forall_mem_cons.2 ⟨hkept, h.kept⟩

lemma Settled.persist (h : Settled mode s) (mark : Nat) :
    Settled mode { s with journal := s.journal.persist mark } :=
  ⟨fun p hp => (h.kept p hp).persist mark, fun c => (h.calls c).persist mark, h.marked, h.parked⟩

lemma VoteSafe.recovers {vote : Vote} (h : VoteSafe mode s (.setVote vote))
    (hmode : mode ≠ .syncAll) :
    Recovers (Promise.Kept ⟨.setVote vote, []⟩) (commitTo s.journal (.setVote vote)) := by
  have hold := h.resolve_left hmode
  refine Journal.Always.write hold (fun d hd => ⟨vote, hd, .inl rfl⟩) ?_
  intro d _
  exact ⟨vote, rfl, .inl rfl⟩

section
variable (h : Settled mode s)

include h

lemma Settled.commit (hc : s.calls c = .fresh) (hwf : b.WellFormed)
    (hok : VoteSafe mode s b) : Settled mode (s.commit c b) := by
  have hfresh : ¬(s.calls c).Flushed := by
    rw [hc]
    exact id
  obtain ⟨hmarked, hparked⟩ := h.setCall (c := c) (.active .committed b _) nofun
    fun hf => absurd hf hfresh
  refine ⟨?_, ?_, hmarked, hparked⟩
  · intro p hp
    obtain ⟨q, hq, rfl⟩ := mem_map.1 hp
    exact Promise.recovers_commit (h.kept q hq)
  · refine CallState.ok_update (fun c' => (h.calls c').commit b)
      ⟨placed_commit hwf, (fun hstage => nomatch hstage), ?_⟩
    intro hmode _ vote heq
    cases heq
    change Recovers (Promise.Kept ⟨_, (commitTo s.journal _).batches.drop
      (commitTo s.journal _).batches.length⟩) (commitTo s.journal _)
    rw [drop_length]
    exact hok.recovers hmode

lemma Settled.flush (hc : s.calls c = .active .committed b pos) (maxBatch i timers : Nat) :
    Settled mode { s with
      pool := (s.pool.flush maxBatch c).pool
      timers := timers
      drains := startDrain s.drains i (s.pool.flush maxBatch c).trigger
      calls := update s.calls c (.active .waiting b pos) } := by
  have hunparked : ¬(c ∈ s.pool.waiters ∨ Draining s.drains c) := by
    intro hparked
    have hflushed := h.parked c hparked
    rw [hc] at hflushed
    exact hflushed
  have hcall := h.calls c
  rw [hc] at hcall
  refine ⟨h.kept, CallState.ok_update h.calls
    ⟨hcall.1, (fun hstage => nomatch hstage), fun _ hstage => nomatch hstage⟩, ?_, ?_⟩
  · intro k ws mark hk c' hc' b' pos' hwait
    rcases startDrain_eq hk with hk | heq
    · have hne : c' ≠ c := fun heq => hunparked (.inr ⟨k, _, hk, heq ▸ hc'⟩)
      dsimp only at hwait
      rw [update_of_ne hne] at hwait
      exact h.marked k ws mark hk c' hc' b' pos' hwait
    · cases heq
  · intro c' hc'
    dsimp only
    by_cases heq : c' = c
    · rw [heq, update_self]
      trivial
    · rw [update_of_ne heq]
      have hplace : c' ∈ s.pool.waiters ++ [c] ∨ Draining s.drains c' := by
        rcases hc' with hpool | hdrain
        · exact .inl (Pool.mem_of_flush (.inl hpool))
        · exact hdrain.of_startDrain.imp_left fun hmem => Pool.mem_of_flush (.inr hmem)
      refine h.parked c' (hplace.imp_left fun hmem => ?_)
      exact (mem_append.1 hmem).resolve_right fun hlast => heq (mem_singleton.1 hlast)

lemma Settled.timerDrain (i t : Nat) :
    Settled mode { s with
      pool := s.pool.timerDrain.1
      timers := t
      drains := startDrain s.drains i s.pool.timerDrain.2 } := by
  refine ⟨h.kept, h.calls, ?_, ?_⟩
  · intro k ws mark hk
    rcases startDrain_eq hk with hk | heq
    · exact h.marked k ws mark hk
    · cases heq
  · intro c hc
    apply h.parked c
    rcases hc with hpool | hdrain
    · exact absurd hpool not_mem_nil
    · exact hdrain.of_startDrain

lemma Settled.persistStart (hi : s.drains i = some ⟨ws, none⟩) :
    Settled mode { s with
      drains := update s.drains i (some ⟨ws, some s.journal.batches.length⟩) } := by
  refine ⟨h.kept, h.calls, ?_, ?_⟩
  · intro k ws' mark hk c hc b pos hwait
    dsimp only at hk
    by_cases heq : k = i
    · rw [heq, update_self] at hk
      cases hk
      have hcall := h.calls c
      rw [hwait] at hcall
      exact hcall.1.1
    · rw [update_of_ne heq] at hk
      exact h.marked k ws' mark hk c hc b pos hwait
  · intro c hc
    refine h.parked c (hc.imp_right fun hdrain => ?_)
    obtain ⟨k, drain, hk, hmem⟩ := hdrain
    dsimp only at hk
    by_cases heq : k = i
    · rw [heq, update_self] at hk
      cases hk
      exact ⟨i, _, hi, hmem⟩
    · rw [update_of_ne heq] at hk
      exact ⟨k, drain, hk, hmem⟩

lemma Settled.notifyAll {persisted : Bool} (hdurable : persisted = true → ∀ c ∈ ws, ∀ b pos,
      s.calls c = .active .waiting b pos → pos ≤ s.journal.durable) :
    Settled mode { s with
      drains := update s.drains i none
      calls := notifyAll s.calls ws persisted } := by
  refine ⟨h.kept, ?_, ?_, ?_⟩
  · intro c
    have hcall := h.calls c
    dsimp only
    rw [Raft.notifyAll]
    split
    · rename_i hmem
      cases hst : s.calls c with
      | fresh => trivial
      | done => trivial
      | active stage b pos =>
        rw [hst] at hcall
        cases stage with
        | committed => exact hcall
        | notified => exact hcall
        | waiting =>
          cases persisted with
          | false => trivial
          | true =>
            refine ⟨hcall.1, fun _ => hdurable rfl c hmem b pos hst, fun _ hstage => ?_⟩
            cases hstage
    · exact hcall
  · intro k ws' mark hk c hc b pos hwait
    have hold : s.drains k = some ⟨ws', some mark⟩ := by
      dsimp only at hk
      by_cases heq : k = i
      · rw [heq, update_self] at hk
        cases hk
      · rw [update_of_ne heq] at hk
        exact hk
    exact h.marked k ws' mark hold c hc b pos (waiting_of_notifyAll hwait).2
  · intro c hc
    have hflushed := h.parked c (hc.imp_right Draining.of_update_none)
    dsimp only
    rw [Raft.notifyAll]
    split
    · exact hflushed.notify persisted
    · exact hflushed

end

lemma NodeStep.settled (hstep : NodeStep mode (VoteSafe mode) s s') (h : Settled mode s) :
    Settled mode s' := by
  cases hstep with
  | commit c b hc hwf hok => exact h.commit hc hwf hok
  | @sync _ c b pos hmode hc =>
    have hcall := h.calls c
    rw [hc] at hcall
    have hplaced : Placed s.journal.syncAll b pos := hcall.1
    exact (h.persist _).finish c (hplaced.recovers (Journal.le_durable_persist hplaced.1 hplaced.1))
  | syncFailed => exact h.end _ h.kept
  | @ret _ maxBatch c b pos hmode hc hb =>
    apply h.finish
    have hcall := h.calls c
    rw [hc] at hcall
    cases b with
    | insert => cases hb
    | setVote vote => exact hcall.2.2 (hmode ▸ nofun) rfl vote rfl
    | remove => exact fun _ _ => trivial
    | setCommitted => exact fun _ _ => trivial
    | setLastPurged => exact fun _ _ => trivial
  | flush i hmode hc hb hi => exact h.flush hc _ _ _
  | timer i ht hi => exact h.timerDrain _ _
  | persistStart hi => exact h.persistStart hi
  | persistOk hi =>
    apply (h.persist _).notifyAll
    intro _ c hc b pos hwait
    have hcall := h.calls c
    rw [hwait] at hcall
    exact Journal.le_durable_persist (h.marked _ _ _ hi c hc b pos hwait) hcall.1.1
  | persistErr hi => exact h.notifyAll nofun
  | @signal _ c b pos hc =>
    have hcall := h.calls c
    rw [hc] at hcall
    exact h.finish c (hcall.1.recovers (hcall.2.1 rfl))
  | cancel => exact h.end _ h.kept
  | crash n hn =>
    refine ⟨fun p hp => (h.kept p hp).cut hn, ?_, (fun i ws mark hi => nomatch hi), ?_⟩
    · intro c
      dsimp only
      split <;> trivial
    · intro c hc
      rcases hc with hpool | ⟨i, drain, hi, _⟩
      · exact absurd hpool not_mem_nil
      · cases hi

lemma settled_of_run (h : ReflTransGen (NodeStep mode (VoteSafe mode)) {} s) :
    Settled mode s ∧ s.Served := by
  induction h with
  | refl =>
    constructor
    · refine ⟨fun p hp => absurd hp not_mem_nil, fun _ => trivial,
        (fun i ws mark hi => nomatch hi), ?_⟩
      intro c hc
      rcases hc with hpool | ⟨i, drain, hi, _⟩
      · exact absurd hpool not_mem_nil
      · cases hi
    · exact ⟨fun hne => absurd rfl hne, fun hsched => Bool.noConfusion hsched,
        fun c b pos hc => nomatch hc⟩
  | tail _ hstep ih => exact ⟨hstep.settled ih.1, hstep.served ih.2⟩

/-- With votes synced, a power loss keeps what was promised. -/
theorem promises_survive {s : Node E} (h : ReflTransGen (NodeStep mode (VoteSafe mode)) {} s) :
    (∀ n, s.journal.Survives n → ∀ p ∈ s.promises,
        p.Kept (s.journal.recover Batch.apply {} n)) ∧
      (s.pool.waiters ≠ [] → s.pool.drainScheduled = true ∧ 0 < s.timers) ∧
      ∀ c b pos, s.calls c = .active .waiting b pos →
        c ∈ s.pool.waiters ∨ Draining s.drains c := by
  obtain ⟨hsettled, hserved⟩ := settled_of_run h
  refine ⟨fun n hn p hp => hsettled.kept p hp n hn, ?_, hserved.waiting⟩
  intro hne
  have hsched := hserved.scheduled hne
  exact ⟨hsched, hserved.timer hsched⟩

end

/-- An append on a coalescing store, from its commit to its callback. -/
theorem promises_survive_append : ∃ s : Node LogId,
    ReflTransGen (NodeStep (.coalescing 32) (VoteSafe (.coalescing 32))) {} s ∧
      s.promises ≠ [] ∧ (s.journal.recover Batch.apply {} 1).log[0]? = some ⟨1, 1, 0⟩ := by
  let b : Batch LogId := .insert [⟨1, 1, 0⟩]
  have hcommit : ReflTransGen (NodeStep (.coalescing 32) (VoteSafe (.coalescing 32))) {} _ :=
    .single (.commit 0 b rfl ⟨0, rfl, trivial⟩ trivial)
  have hflush := hcommit.tail (.flush (c := 0) 0 rfl rfl rfl rfl)
  have htimer := hflush.tail (.timer 0 rfl rfl)
  have hstart := htimer.tail (.persistStart (i := 0) rfl)
  have hend := hstart.tail (.persistOk (i := 0) rfl)
  have hsignal := hend.tail (.signal (c := 0) rfl)
  obtain ⟨hkept, _⟩ := promises_survive hsignal
  refine ⟨_, hsignal, cons_ne_nil _ _, ?_⟩
  exact hkept 1 ⟨le_refl 1, le_refl 1⟩ _ mem_cons_self ⟨1, 1, 0⟩ mem_cons_self
    fun b hb => absurd hb not_mem_nil

/-- A saved vote is gone after a power loss. -/
theorem saved_vote_lost : ∃ s : Node LogId,
    ReflTransGen (NodeStep (.coalescing 32) fun _ _ => True) {} s ∧
      ⟨.setVote ⟨7, 1, false⟩, []⟩ ∈ s.promises ∧ s.journal.Survives 0 ∧
      (s.journal.recover Batch.apply {} 0).vote = none := by
  have hcommit : ReflTransGen (NodeStep (.coalescing 32) fun _ _ => True)
      ({} : Node LogId) _ := .single (.commit 0 (.setVote ⟨7, 1, false⟩) rfl trivial trivial)
  have hret := hcommit.tail (.ret (c := 0) rfl rfl rfl)
  exact ⟨_, hret, mem_cons_self, ⟨le_refl 0, zero_le _⟩, rfl⟩

end Kiseki.Raft
