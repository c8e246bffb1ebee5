import Kiseki.Intent.Fan

namespace Kiseki.Intent

open Function Relation List

structure CoalesceReq where
  task : Nat
  intent : WriteIntent

def taskIds (reqs : List CoalesceReq) : List Nat :=
  reqs.map CoalesceReq.task

inductive SubmitTask where
  -- elected, in the `select!` of `run_flush_cycle`
  | collecting
  -- elected, in `flush_batch`
  | flushing (batch : List CoalesceReq)
  -- at its own ack channel
  | waiting
  | returned (result : Except LogError Unit)
  -- dropped by its caller
  | cancelled

/-- The coalescer with its calls; batches are kept for the statements only. -/
structure FanCoalescer where
  pending : List CoalesceReq := []
  flusherRunning : Bool := false
  tasks : Nat → Option SubmitTask := fun _ => none
  batches : List (List CoalesceReq) := []
  results : Nat → List (Except LogError Unit) := fun _ => []

namespace FanCoalescer

def deliver (replies : List (Nat × Except LogError Unit))
    (results : Nat → List (Except LogError Unit)) : Nat → List (Except LogError Unit) :=
  fun t => results t ++ (replies.filter fun reply => decide (reply.1 = t)).map Prod.snd

section
variable (c : FanCoalescer)

/-- The first of a batch is elected; the cap only wakes the flusher. -/
def submit (t : Nat) (intent : WriteIntent) : FanCoalescer :=
  if c.flusherRunning then
    { c with
      pending := c.pending ++ [⟨t, intent⟩]
      tasks := update c.tasks t (some .waiting) }
  else
    { c with
      pending := c.pending ++ [⟨t, intent⟩]
      flusherRunning := true
      tasks := update c.tasks t (some .collecting) }

def take (t : Nat) : FanCoalescer where
  pending := []
  flusherRunning := false
  tasks := update c.tasks t (some (.flushing c.pending))
  batches := c.batches ++ [c.pending]
  results := c.results

def finish (t : Nat) (batch : List CoalesceReq) (f : Fan) (topupSeq : UInt64) :
    FanCoalescer :=
  let acks := (f.flushBatch topupSeq (batch.map CoalesceReq.intent)).acks
  { c with
    tasks := update c.tasks t (some .waiting)
    results := deliver ((taskIds batch).zip acks) c.results }

/-- A dropped flusher closes its batch's channels; the flag and queue stay. -/
def cancel (t : Nat) (task : SubmitTask) : FanCoalescer :=
  { c with
    tasks := update c.tasks t (some .cancelled)
    results :=
      match task with
      | .flushing batch => deliver ((taskIds batch).map fun u => (u, .error .unavailable)) c.results
      | _ => c.results }

def InCycle (t : Nat) : Prop :=
  c.tasks t = some .collecting ∨ ∃ batch, c.tasks t = some (.flushing batch)

end

inductive Step (ok : FanCoalescer → Nat → Prop) : FanCoalescer → FanCoalescer → Prop
  | submit (t : Nat) (intent : WriteIntent) (ht : c.tasks t = none) : Step ok c (c.submit t intent)
  -- the deadline or the cap
  | take (t : Nat) (ht : c.tasks t = some .collecting) : Step ok c (c.take t)
  | finish (t : Nat) (batch : List CoalesceReq) (ht : c.tasks t = some (.flushing batch)) (f : Fan)
      (topupSeq : UInt64) : Step ok c (c.finish t batch f topupSeq)
  | receive (t : Nat) (ht : c.tasks t = some .waiting) (hresult : c.results t = result :: rest) :
      Step ok c { c with tasks := update c.tasks t (some (.returned result)) }
  | drop (t : Nat) (task : SubmitTask) (ht : c.tasks t = some task)
      (hlive : task = .collecting ∨ (∃ batch, task = .flushing batch) ∨ task = .waiting)
      (hok : ok c t) : Step ok c (c.cancel t task)

def Held (c : FanCoalescer) (u : Nat) : Prop :=
  ∃ f batch, c.tasks f = some (.flushing batch) ∧ u ∈ taskIds batch

structure Queued (c : FanCoalescer) : Prop where
  once : ∀ t, (taskIds c.pending).count t + (taskIds c.batches.flatten).count t =
    if (c.tasks t).isSome then 1 else 0
  flag : c.flusherRunning = true ↔ ∃ t, c.tasks t = some .collecting
  single : ∀ t t', c.tasks t = some .collecting → c.tasks t' = some .collecting → t = t'
  armed : c.pending ≠ [] → c.flusherRunning = true

structure Answered (c : FanCoalescer) : Prop where
  taken : ∀ t batch, c.tasks t = some (.flushing batch) → batch ∈ c.batches
  apart : ∀ t batch t' batch' u, c.tasks t = some (.flushing batch) →
    c.tasks t' = some (.flushing batch') → u ∈ taskIds batch → u ∈ taskIds batch' → t = t'
  unresolved : ∀ u, u ∉ taskIds c.batches.flatten ∨ c.Held u → c.results u = []
  resolved : ∀ u, u ∈ taskIds c.batches.flatten → ¬c.Held u → ∃ result, c.results u = [result]
  returned : ∀ t result, c.tasks t = some (.returned result) → c.results t = [result]

def Serves (c : FanCoalescer) (f t : Nat) : Prop :=
  (c.tasks f = some .collecting ∧ t ∈ taskIds c.pending) ∨
    ∃ batch, c.tasks f = some (.flushing batch) ∧ t ∈ taskIds batch

end FanCoalescer

variable {topupSeq : UInt64}

lemma Fan.flushBatch_acks (f : Fan) (batch : List WriteIntent) :
    ∃ result, (f.flushBatch topupSeq batch).acks = batch.map fun _ => result := by
  rw [flushBatch]
  split
  · exact ⟨_, rfl⟩
  split
  · exact ⟨_, rfl⟩
  split
  · exact ⟨_, rfl⟩
  · exact ⟨_, rfl⟩

namespace FanCoalescer
variable {c c' : FanCoalescer} {t : Nat}

lemma deliver_same (ids : List Nat) (result : Except LogError Unit)
    (results : Nat → List (Except LogError Unit)) :
    deliver (ids.map fun u => (u, result)) results t =
      results t ++ List.replicate (ids.count t) result := by
  rw [deliver]
  congr 1
  induction ids with
  | nil => rfl
  | cons u ids ih =>
    rw [map_cons, filter_cons, count_cons]
    by_cases hu : u = t
    · rw [if_pos (decide_eq_true hu), if_pos (by rw [hu]; exact beq_self_eq_true t), map_cons, ih,
        replicate_succ]
    · rw [if_neg (by simpa using hu), if_neg (by simpa using hu), ih, Nat.add_zero]

lemma results_finish (c : FanCoalescer) (t : Nat) (batch : List CoalesceReq) (f : Fan)
    (topupSeq : UInt64) : ∃ result, ∀ u, (c.finish t batch f topupSeq).results u =
      c.results u ++ List.replicate ((taskIds batch).count u) result := by
  obtain ⟨result, hacks⟩ := f.flushBatch_acks (batch.map CoalesceReq.intent)
  refine ⟨result, fun u => ?_⟩
  have hzip : (taskIds batch).zip (f.flushBatch topupSeq (batch.map CoalesceReq.intent)).acks =
      (taskIds batch).map fun u => (u, result) := by
    rw [hacks, List.map_map, taskIds, List.zip_map', List.map_map]
    rfl
  change deliver ((taskIds batch).zip _) c.results u = _
  rw [hzip, deliver_same]

variable {task : SubmitTask}

lemma tasks_update (u : Nat) :
    update c.tasks t (some task) u = some other ↔
      (u = t ∧ other = task) ∨ u ≠ t ∧ c.tasks u = some other := by
  by_cases hu : u = t
  · subst hu
    rw [update_self, Option.some.injEq]
    exact ⟨fun h => .inl ⟨rfl, h.symm⟩, fun h => h.elim (fun h => h.2.symm) fun h => absurd rfl h.1⟩
  · rw [update_of_ne hu]
    exact ⟨fun h => .inr ⟨hu, h⟩, fun h => h.elim (fun h => absurd h.1 hu) fun h => h.2⟩

lemma isSome_update (u : Nat) :
    (update c.tasks t (some task) u).isSome = (decide (u = t) || (c.tasks u).isSome) := by
  by_cases hu : u = t
  · subst hu
    rw [update_self, decide_eq_true rfl]
    rfl
  · rw [update_of_ne hu, decide_eq_false hu, Bool.false_or]

lemma same_update {task other : SubmitTask} (hold : c.tasks t ≠ some other) (hnew : task ≠ other)
    (u : Nat) :
    update c.tasks t (some task) u = some other ↔ c.tasks u = some other := by
  rw [tasks_update]
  constructor
  · rintro (⟨_, rfl⟩ | ⟨_, hu⟩)
    · exact absurd rfl hnew
    · exact hu
  · intro hu
    refine .inr ⟨?_, hu⟩
    rintro rfl
    exact hold hu

lemma taskIds_append (reqs reqs' : List CoalesceReq) :
    taskIds (reqs ++ reqs') = taskIds reqs ++ taskIds reqs' :=
  map_append

lemma Queued.count_le (h : c.Queued) (u : Nat) :
    (taskIds c.pending).count u + (taskIds c.batches.flatten).count u ≤ 1 := by
  rw [h.once]
  split <;> omega

lemma Queued.congr (h : c.Queued) (hpending : c'.pending = c.pending)
    (hbatches : c'.batches = c.batches) (hflag : c'.flusherRunning = c.flusherRunning)
    (hsome : ∀ u, (c'.tasks u).isSome = (c.tasks u).isSome)
    (hcollect : ∀ u, c'.tasks u = some .collecting ↔ c.tasks u = some .collecting) :
    c'.Queued where
  once := by
    intro u
    rw [hpending, hbatches, hsome]
    exact h.once u
  flag := by
    rw [hflag, h.flag]
    exact exists_congr fun u => (hcollect u).symm
  single := fun t t' ht ht' => h.single t t' ((hcollect t).1 ht) ((hcollect t').1 ht')
  armed := by
    rw [hpending, hflag]
    exact h.armed

lemma Answered.congr (h : c.Answered) (hbatches : c'.batches = c.batches)
    (hresults : c'.results = c.results)
    (hflush : ∀ u batch, c'.tasks u = some (.flushing batch) ↔ c.tasks u = some (.flushing batch))
    (hreturned : ∀ u result, c'.tasks u = some (.returned result) → c.results u = [result]) :
    c'.Answered := by
  have hheld : ∀ u, c'.Held u ↔ c.Held u := fun u =>
    exists_congr fun f => exists_congr fun batch => and_congr_left fun _ => hflush f batch
  constructor
  · intro t batch ht
    rw [hbatches]
    exact h.taken t batch ((hflush t batch).1 ht)
  · exact fun t batch t' batch' u ht ht' =>
      h.apart t batch t' batch' u ((hflush t batch).1 ht) ((hflush t' batch').1 ht')
  · intro u hu
    rw [hbatches, hheld] at hu
    rw [hresults]
    exact h.unresolved u hu
  · intro u hu hnot
    rw [hbatches] at hu
    rw [hheld] at hnot
    rw [hresults]
    exact h.resolved u hu hnot
  · rw [hresults]
    exact hreturned

lemma Answered.mem_flatten (h : c.Answered) (ht : c.tasks t = some (.flushing batch))
    (hu : u ∈ taskIds batch) : u ∈ taskIds c.batches.flatten := by
  obtain ⟨req, hreq, rfl⟩ := mem_map.1 hu
  exact List.mem_map.2 ⟨req, List.mem_flatten.2 ⟨batch, h.taken t batch ht, hreq⟩, rfl⟩

lemma Answered.results_cases (h : c.Answered) (u : Nat) :
    c.results u = [] ∨ ∃ result, c.results u = [result] := by
  by_cases hu : u ∈ taskIds c.batches.flatten
  · by_cases hheld : c.Held u
    · exact .inl (h.unresolved u (.inr hheld))
    · exact .inr (h.resolved u hu hheld)
  · exact .inl (h.unresolved u (.inl hu))

lemma isSome_update_of_some (ht : c.tasks t = some old) (u : Nat) :
    (update c.tasks t (some task) u).isSome = (c.tasks u).isSome := by
  rw [isSome_update]
  by_cases hu : u = t
  · rw [hu, ht, decide_eq_true rfl]
    rfl
  · rw [decide_eq_false hu, Bool.false_or]

lemma Queued.settle (h : c.Queued) (ht : c.tasks t = some .waiting) {task : SubmitTask}
    (hcollecting : task ≠ .collecting) :
    ({ c with tasks := update c.tasks t (some task) } : FanCoalescer).Queued :=
  h.congr rfl rfl rfl (isSome_update_of_some ht)
    (same_update (by rw [ht]; exact nofun) hcollecting)

lemma Answered.settle (h : c.Answered) (ht : c.tasks t = some .waiting) {task : SubmitTask}
    (hflushing : ∀ batch, task ≠ .flushing batch)
    (hreturned : ∀ result, task = .returned result → c.results t = [result]) :
    ({ c with tasks := update c.tasks t (some task) } : FanCoalescer).Answered := by
  refine h.congr rfl rfl (fun u batch => ?_) fun u result hu => ?_
  · exact same_update (by rw [ht]; exact nofun) (hflushing batch) u
  · rcases (tasks_update u).1 hu with ⟨rfl, hresult⟩ | ⟨_, hold⟩
    · exact hreturned result hresult.symm
    · exact h.returned u result hold

lemma Queued.once_submit (h : c.Queued) (ht : c.tasks t = none) (intent : WriteIntent) (u : Nat) :
    (taskIds (c.pending ++ [⟨t, intent⟩])).count u + (taskIds c.batches.flatten).count u =
      if (update c.tasks t (some task) u).isSome then 1 else 0 := by
  have hu := h.once u
  rw [taskIds_append, count_append, isSome_update]
  change _ + [t].count u + _ = _
  rw [count_singleton]
  by_cases hut : u = t
  · subst hut
    rw [ht] at hu
    rw [if_pos (beq_self_eq_true u), decide_eq_true rfl]
    simp only [Option.isSome_none, Bool.false_eq_true, if_false] at hu
    simp only [Bool.true_or, if_true]
    omega
  · rw [if_neg (by simpa using Ne.symm hut), decide_eq_false hut, Bool.false_or, ← hu]
    omega

lemma Queued.submit (h : c.Queued) (ht : c.tasks t = none) (intent : WriteIntent) :
    (c.submit t intent).Queued := by
  rw [FanCoalescer.submit]
  by_cases hrunning : c.flusherRunning = true
  · rw [if_pos hrunning]
    have hcollect : ∀ u, update c.tasks t (some .waiting) u = some .collecting ↔
        c.tasks u = some .collecting :=
      same_update (by rw [ht]; exact nofun) (by exact nofun)
    refine ⟨h.once_submit ht intent, ?_, fun u u' hu hu' => ?_, fun _ => hrunning⟩
    · rw [h.flag]
      exact exists_congr fun u => (hcollect u).symm
    · exact h.single u u' ((hcollect u).1 hu) ((hcollect u').1 hu')
  · rw [if_neg hrunning]
    -- Nobody collects before the election.
    have hcollect : ∀ u, update c.tasks t (some .collecting) u = some .collecting →
        u = t := by
      intro u hu
      rcases (tasks_update u).1 hu with ⟨hut, _⟩ | ⟨_, hold⟩
      · exact hut
      · exact absurd (h.flag.2 ⟨u, hold⟩) hrunning
    refine ⟨h.once_submit ht intent, ?_, fun u u' hu hu' => ?_, fun _ => rfl⟩
    · exact ⟨fun _ => ⟨t, update_self _ _ _⟩, fun _ => rfl⟩
    · rw [hcollect u hu, hcollect u' hu']

lemma Answered.submit (h : c.Answered) (ht : c.tasks t = none) (intent : WriteIntent) :
    (c.submit t intent).Answered := by
  have hnot : ∀ other, c.tasks t ≠ some other := fun other => by rw [ht]; exact nofun
  rw [FanCoalescer.submit]
  split
  · refine h.congr rfl rfl (fun u batch => same_update (hnot _) (by exact nofun) u) ?_
    exact fun u result hu => h.returned u result ((same_update (hnot _) (by exact nofun) u).1 hu)
  · refine h.congr rfl rfl (fun u batch => same_update (hnot _) (by exact nofun) u) ?_
    exact fun u result hu => h.returned u result ((same_update (hnot _) (by exact nofun) u).1 hu)

lemma count_flatten_take (t u : Nat) :
    (taskIds (c.take t).batches.flatten).count u =
      (taskIds c.pending).count u + (taskIds c.batches.flatten).count u := by
  change (taskIds (c.batches ++ [c.pending]).flatten).count u = _
  rw [flatten_append, flatten_singleton, taskIds_append, count_append, Nat.add_comm]

lemma Queued.take (h : c.Queued) (ht : c.tasks t = some .collecting) : (c.take t).Queued where
  once := by
    intro u
    have hu := h.once u
    rw [count_flatten_take]
    change [].count u + _ = if (update c.tasks t _ u).isSome then 1 else 0
    rw [isSome_update_of_some ht, count_nil, Nat.zero_add]
    exact hu
  flag := by
    refine ⟨nofun, fun ⟨u, hu⟩ => ?_⟩
    rcases (tasks_update u).1 hu with ⟨_, hother⟩ | ⟨hne, hold⟩
    · exact nomatch hother
    · exact absurd (h.single u t hold ht) hne
  single := by
    intro u u' hu hu'
    rcases (tasks_update u).1 hu with ⟨_, hother⟩ | ⟨_, hold⟩
    · exact nomatch hother
    · rcases (tasks_update u').1 hu' with ⟨_, hother⟩ | ⟨_, hold'⟩
      · exact nomatch hother
      · exact h.single u u' hold hold'
  armed := fun hne => absurd rfl hne

lemma Queued.not_mem_flatten (h : c.Queued) (hu : u ∈ taskIds c.pending) :
    u ∉ taskIds c.batches.flatten := by
  intro hin
  have hle := h.count_le u
  have hpos := count_pos_iff.2 hu
  have hpos' := count_pos_iff.2 hin
  omega

lemma mem_flatten_take (t u : Nat) :
    u ∈ taskIds (c.take t).batches.flatten ↔
      u ∈ taskIds c.pending ∨ u ∈ taskIds c.batches.flatten := by
  rw [← count_pos_iff, count_flatten_take, ← count_pos_iff, ← count_pos_iff]
  omega

lemma held_take (ht : c.tasks t = some .collecting) (u : Nat) :
    (c.take t).Held u ↔ u ∈ taskIds c.pending ∨ c.Held u := by
  constructor
  · rintro ⟨f, batch, hf, hu⟩
    rcases (tasks_update f).1 hf with ⟨_, hbatch⟩ | ⟨_, hold⟩
    · cases hbatch
      exact .inl hu
    · exact .inr ⟨f, batch, hold, hu⟩
  · rintro (hu | ⟨f, batch, hf, hu⟩)
    · exact ⟨t, c.pending, update_self _ _ _, hu⟩
    · refine ⟨f, batch, (tasks_update f).2 (.inr ⟨?_, hf⟩), hu⟩
      rintro rfl
      rw [ht] at hf
      exact nomatch hf

lemma Answered.take (h : c.Answered) (hq : c.Queued) (ht : c.tasks t = some .collecting) :
    (c.take t).Answered where
  taken := by
    intro u batch hu
    rcases (tasks_update u).1 hu with ⟨_, hbatch⟩ | ⟨_, hold⟩
    · cases hbatch
      exact mem_append_right _ (mem_singleton.2 rfl)
    · exact mem_append_left _ (h.taken u batch hold)
  apart := by
    intro u batch u' batch' v hu hu' hv hv'
    rcases (tasks_update u).1 hu with ⟨rfl, hbatch⟩ | ⟨_, hold⟩
    · cases hbatch
      rcases (tasks_update u').1 hu' with ⟨rfl, _⟩ | ⟨_, hold'⟩
      · rfl
      · exact absurd (h.mem_flatten hold' hv') (hq.not_mem_flatten hv)
    · rcases (tasks_update u').1 hu' with ⟨rfl, hbatch'⟩ | ⟨_, hold'⟩
      · cases hbatch'
        exact absurd (h.mem_flatten hold hv) (hq.not_mem_flatten hv')
      · exact h.apart u batch u' batch' v hold hold' hv hv'
  unresolved := by
    intro u hu
    rw [mem_flatten_take, held_take ht] at hu
    rcases hu with hu | hu | hu
    · exact h.unresolved u (.inl fun hin => hu (.inr hin))
    · exact h.unresolved u (.inl (hq.not_mem_flatten hu))
    · exact h.unresolved u (.inr hu)
  resolved := by
    intro u hu hnot
    rw [mem_flatten_take] at hu
    rw [held_take ht] at hnot
    rcases hu with hu | hu
    · exact absurd (.inl hu) hnot
    · exact h.resolved u hu fun hheld => hnot (.inr hheld)
  returned := by
    intro u result hu
    exact h.returned u result ((same_update (by rw [ht]; exact nofun) (by exact nofun) u).1 hu)

/-- The state after a flusher has resolved the channels of its batch. -/
def resolve (c : FanCoalescer) (t : Nat) (task : SubmitTask)
    (results : Nat → List (Except LogError Unit)) : FanCoalescer :=
  { c with tasks := update c.tasks t (some task), results := results }

section
variable {results : Nat → List (Except LogError Unit)}

lemma Queued.resolve (h : c.Queued) (ht : c.tasks t = some (.flushing batch))
    (hcollecting : task ≠ .collecting) : (c.resolve t task results).Queued :=
  h.congr rfl rfl rfl (isSome_update_of_some ht)
    (same_update (by rw [ht]; exact nofun) hcollecting)

lemma held_resolve (h : c.Answered) (ht : c.tasks t = some (.flushing batch))
    (htask : ∀ batch, task ≠ .flushing batch) (u : Nat) :
    (c.resolve t task results).Held u ↔ c.Held u ∧ u ∉ taskIds batch := by
  constructor
  · rintro ⟨g, batch', hg, hu⟩
    rcases (tasks_update g).1 hg with ⟨_, hother⟩ | ⟨hne, hold⟩
    · exact absurd hother.symm (htask batch')
    · exact ⟨⟨g, batch', hold, hu⟩, fun hin => hne (h.apart g batch' t batch u hold ht hu hin)⟩
  · rintro ⟨⟨g, batch', hg, hu⟩, hnot⟩
    refine ⟨g, batch', (tasks_update g).2 (.inr ⟨?_, hg⟩), hu⟩
    rintro rfl
    rw [ht] at hg
    cases hg
    exact hnot hu

section
variable (h : c.Answered) (hq : c.Queued) (ht : c.tasks t = some (.flushing batch))
  {result : Except LogError Unit}
  (hresults : ∀ u, results u = c.results u ++ List.replicate ((taskIds batch).count u) result)

include h hq ht hresults

lemma Answered.results_resolve :
    (∀ u ∉ taskIds batch, results u = c.results u) ∧ ∀ u ∈ taskIds batch, results u = [result] := by
  refine ⟨fun u hu => ?_, fun u hu => ?_⟩
  · rw [hresults, count_eq_zero.2 hu, replicate_zero, append_nil]
  · have hone : (taskIds batch).count u = 1 := by
      have hle := hq.count_le u
      have hpos := count_pos_iff.2 hu
      have hsub : (taskIds batch).Sublist (taskIds c.batches.flatten) :=
        (sublist_flatten_of_mem (h.taken t batch ht)).map _
      have hcount := hsub.count_le u
      omega
    rw [hresults, h.unresolved u (.inr ⟨t, batch, ht, hu⟩), hone]
    rfl

lemma Answered.resolve (hflushing : ∀ batch, task ≠ .flushing batch)
    (hreturned : ∀ result, task ≠ .returned result) : (c.resolve t task results).Answered := by
  obtain ⟨hkeep, hnew⟩ := h.results_resolve hq ht hresults
  have hflush : ∀ {u batch'}, (c.resolve t task results).tasks u = some (.flushing batch') →
      c.tasks u = some (.flushing batch') := by
    intro u batch' hu
    rcases (tasks_update u).1 hu with ⟨_, hother⟩ | ⟨_, hold⟩
    · exact absurd hother.symm (hflushing batch')
    · exact hold
  refine ⟨fun u batch' hu => h.taken u batch' (hflush hu),
    fun u b u' b' v hu hu' => h.apart u b u' b' v (hflush hu) (hflush hu'),
    fun u hu => ?_, fun u hu hnot => ?_, fun u result' hu => ?_⟩
  · rw [held_resolve h ht hflushing] at hu
    rcases hu with hu | ⟨hheld, hout⟩
    · exact (hkeep u fun hin => hu (h.mem_flatten ht hin)).trans (h.unresolved u (.inl hu))
    · exact (hkeep u hout).trans (h.unresolved u (.inr hheld))
  · rw [held_resolve h ht hflushing] at hnot
    by_cases hin : u ∈ taskIds batch
    · exact ⟨result, hnew u hin⟩
    · obtain ⟨result', hresult⟩ := h.resolved u hu fun hheld => hnot ⟨hheld, hin⟩
      exact ⟨result', (hkeep u hin).trans hresult⟩
  · rcases (tasks_update u).1 hu with ⟨_, hother⟩ | ⟨_, hold⟩
    · exact absurd hother.symm (hreturned result')
    · have hresult := h.returned u result' hold
      refine (hkeep u fun hin => ?_).trans hresult
      rw [h.unresolved u (.inr ⟨t, batch, ht, hin⟩)] at hresult
      exact nomatch hresult

end

end

lemma inv_step (hq : c.Queued) (h : c.Answered)
    (hstep : Step (fun c t => c.tasks t ≠ some .collecting) c c') : c'.Queued ∧ c'.Answered := by
  cases hstep with
  | submit t intent ht => exact ⟨hq.submit ht intent, h.submit ht intent⟩
  | take t ht => exact ⟨hq.take ht, h.take hq ht⟩
  | finish t batch ht f topupSeq =>
    obtain ⟨result, hresults⟩ := c.results_finish t batch f topupSeq
    exact ⟨hq.resolve ht (by exact nofun),
      h.resolve hq ht hresults (by exact nofun) (by exact nofun)⟩
  | receive t ht hresult =>
    refine ⟨hq.settle ht (by exact nofun), h.settle ht (by exact nofun) fun result' heq => ?_⟩
    cases heq
    rcases h.results_cases t with hnil | ⟨other, hone⟩
    · rw [hnil] at hresult
      exact nomatch hresult
    · rw [hone] at hresult ⊢
      cases hresult
      rfl
  | drop t task ht hlive hok =>
    rcases hlive with rfl | ⟨batch, rfl⟩ | rfl
    · exact absurd ht hok
    · -- the senders of the batch are dropped, which resolves each channel with an error
      exact ⟨hq.resolve ht (by exact nofun),
        h.resolve hq ht (fun u => deliver_same (taskIds batch) (.error .unavailable) c.results)
          (by exact nofun) (by exact nofun)⟩
    · exact ⟨hq.settle ht (by exact nofun), h.settle ht (by exact nofun) (by exact nofun)⟩

lemma queued_new : Queued {} where
  once := fun _ => rfl
  flag := ⟨nofun, fun ⟨_, h⟩ => nomatch h⟩
  single := fun _ _ h => nomatch h
  armed := fun hne => absurd rfl hne

lemma answered_new : Answered {} where
  taken := fun _ _ h => nomatch h
  apart := fun _ _ _ _ _ h => nomatch h
  unresolved := fun _ _ => rfl
  resolved := fun _ hu => absurd hu not_mem_nil
  returned := fun _ _ h => nomatch h

lemma inv_run (hrun : ReflTransGen (Step fun c t => c.tasks t ≠ some .collecting) {} c) :
    c.Queued ∧ c.Answered := by
  induction hrun with
  | refl => exact ⟨queued_new, answered_new⟩
  | tail _ hstep ih => exact inv_step ih.1 ih.2 hstep

/-- If no flusher is dropped while it collects, every task is served once. -/
theorem submissions_not_stranded
    (hrun : ReflTransGen (Step fun c t => c.tasks t ≠ some .collecting) {} c) :
    (c.pending ≠ [] ∨ c.flusherRunning = true → ∃ f, c.InCycle f) ∧
      ∀ t, (c.tasks t).isSome = true →
        (taskIds (c.pending ++ c.batches.flatten)).count t = 1 ∧
        ((∃ result, c.results t = [result] ∧ (taskIds c.batches.flatten).count t = 1) ∨
          c.results t = [] ∧ ∃ f, c.Serves f t) ∧
        ∀ result, c.tasks t = some (.returned result) → c.results t = [result] := by
  obtain ⟨hq, h⟩ := inv_run hrun
  refine ⟨fun hbusy => ?_, fun t ht => ?_⟩
  · obtain ⟨f, hf⟩ := hq.flag.1 (hbusy.elim hq.armed id)
    exact ⟨f, .inl hf⟩
  have honce := hq.once t
  rw [if_pos ht] at honce
  refine ⟨?_, ?_, h.returned t⟩
  · rw [taskIds_append, count_append]
    exact honce
  by_cases hin : t ∈ taskIds c.batches.flatten
  · by_cases hheld : c.Held t
    · obtain ⟨f, batch, hf, hbatch⟩ := hheld
      exact .inr ⟨h.unresolved t (.inr ⟨f, batch, hf, hbatch⟩), f, .inr ⟨batch, hf, hbatch⟩⟩
    · obtain ⟨result, hresult⟩ := h.resolved t hin hheld
      have hpos := count_pos_iff.2 hin
      exact .inl ⟨result, hresult, by omega⟩
  · have hqueued : t ∈ taskIds c.pending := by
      rw [count_eq_zero.2 hin] at honce
      exact count_pos_iff.1 (by omega)
    obtain ⟨f, hf⟩ := hq.flag.1 (hq.armed fun hnil => by rw [hnil] at hqueued; cases hqueued)
    exact .inr ⟨h.unresolved t (.inl hin), f, .inl ⟨hf, hqueued⟩⟩

def oneCollecting : FanCoalescer :=
  submit {} 0 (plainIntent 5)

/-- Two calls in one batch, the waiting one dropped. -/
def flushedBoth : FanCoalescer :=
  let queued := oneCollecting.submit 1 (plainIntent 6)
  let taken := (queued.cancel 1 .waiting).take 0
  taken.finish 0 queued.pending (Fan.threeVoters fun _ => .applied true) 0

theorem submissions_not_stranded_flushedBoth :
    let c := { flushedBoth with
      tasks := update flushedBoth.tasks 0 (some (.returned (.ok ()))) }
    c.results 0 = [.ok ()] ∧ (taskIds (c.pending ++ c.batches.flatten)).count 0 = 1 ∧
      (taskIds c.batches.flatten).count 1 = 1 ∧ ∃ result, c.results 1 = [result] := by
  intro c
  have hrun : ReflTransGen (Step fun c t => c.tasks t ≠ some .collecting) {} c :=
    .tail (.tail (.tail (.tail (.tail (.single (.submit 0 (plainIntent 5) rfl))
      (.submit 1 (plainIntent 6) rfl)) (.drop 1 .waiting rfl (.inr (.inr rfl)) nofun))
      (.take 0 rfl)) (.finish 0 _ rfl (Fan.threeVoters fun _ => .applied true) 0))
        (.receive 0 rfl rfl)
  obtain ⟨_, htasks⟩ := submissions_not_stranded hrun
  obtain ⟨honce, _, hreturned⟩ := htasks 0 rfl
  refine ⟨hreturned (.ok ()) rfl, honce, ?_⟩
  rcases (htasks 1 rfl).2.1 with ⟨result, hresult, hbatch⟩ | ⟨hnone, _⟩
  · exact ⟨hbatch, result, hresult⟩
  · exact nomatch hnone

def stranded : FanCoalescer :=
  (oneCollecting.cancel 0 .collecting).submit 1 (plainIntent 6)

/-- The second call waits, and no task is there to take it. -/
theorem cancelled_flusher_strands :
    ReflTransGen (Step fun _ _ => True) {} stranded ∧
      taskIds stranded.pending = [0, 1] ∧ stranded.flusherRunning = true ∧
      stranded.tasks 1 = some .waiting ∧ stranded.results 1 = [] ∧ ¬∃ f, stranded.InCycle f := by
  refine ⟨?_, rfl, rfl, rfl, rfl, ?_⟩
  · exact .tail (.tail (.single (.submit 0 (plainIntent 5) rfl))
      (.drop 0 .collecting rfl (.inl rfl) trivial)) (.submit 1 (plainIntent 6) rfl)
  · have hcases : ∀ f task, stranded.tasks f = some task → task = .waiting ∨ task = .cancelled := by
      intro f task hf
      rcases (tasks_update f).1 hf with ⟨_, rfl⟩ | ⟨_, hf⟩
      · exact .inl rfl
      rcases (tasks_update f).1 hf with ⟨_, rfl⟩ | ⟨hne, hf⟩
      · exact .inr rfl
      rcases (tasks_update f).1 hf with ⟨heq, _⟩ | ⟨_, hf⟩
      · exact absurd heq hne
      · exact nomatch hf
    rintro ⟨f, hf | ⟨batch, hf⟩⟩
    · exact (hcases f _ hf).elim nofun nofun
    · exact (hcases f _ hf).elim nofun nofun

end FanCoalescer

end Kiseki.Intent
