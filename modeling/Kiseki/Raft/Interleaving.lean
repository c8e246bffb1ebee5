import Kiseki.Raft.Reads

namespace Kiseki.Raft

open Relation Nat

inductive Reader (E : Type) where
  | idle
  | missed (start stop : Nat)
  | filling (entries : List (Nat × E × Nat))
  | limitedMissed (start stop budget : Nat)

inductive Writer (E : Type) where
  | idle
  | appended (entries : List E)
  | truncated (before : LogMap E)
  | purging (logId : LogId)
  | purged (logId : LogId)

/-- The store that the clones share, and where each of its users is. -/
structure Shared (E : Type) where
  disk : LogDisk E := {}
  cache : EntryCache E := ⟨defaultEntryCacheCap, []⟩
  writer : Writer E := .idle
  readers : Nat → Reader E := fun _ => .idle

structure Read (E : Type) where
  start : Nat
  stop : Nat
  budget : Option Nat
  out : List E

def Shared.settled (s : Shared E) : LogDisk E :=
  match s.writer with
  | .purging logId => { s.disk with lastPurged := some logId }
  | _ => s.disk

def Shared.floor (s : Shared E) : Nat := nextIndex s.settled.lastPurged

/-- Until a truncation clears the cache, the log before it. -/
def Shared.cached (s : Shared E) : LogMap E :=
  match s.writer with
  | .truncated before => before
  | _ => s.disk.log

def Shared.FillsCurrent (s : Shared E) (r : Nat) : Prop :=
  ∀ entries, s.readers r = .filling entries →
    ∀ p ∈ entries, s.cached[p.1]? = some p.2.1 ∨ p.1 < s.floor

def Shared.setReader (s : Shared E) (r : Nat) (reader : Reader E) (cache : EntryCache E) :
    Shared E :=
  { s with cache := cache, readers := Function.update s.readers r reader }

def inclusive (start stop : Nat) : List Nat := List.range' start (stop + 1 - start)

def triesCache (start stop : Nat) : Bool :=
  let want := saturatingAdd stop 1 - start
  decide (0 < want ∧ want ≤ defaultEntryCacheCap)

section
variable [RaftRecord E]

inductive WriteStep : Shared E → Shared E → Prop
  | append (entries : List E) (hidle : s.writer = .idle) (h : (Op.append entries).Legal s.disk) :
      WriteStep s { s with
        disk := (Batch.insert entries).apply s.disk, writer := .appended entries }
  | appendCache (h : s.writer = .appended entries) :
      WriteStep s { s with cache := s.cache.putAll (entries.map sized), writer := .idle }
  | truncateAfter (logId : LogId) (hidle : s.writer = .idle) :
      WriteStep s { s with
        disk := (Batch.remove (s.disk.keysAfter logId.index)).apply s.disk
        writer := .truncated s.disk.log }
  | truncateAll (hidle : s.writer = .idle) :
      WriteStep s { s with
        disk := (Batch.remove (s.disk.keysBefore u64Max)).apply s.disk
        writer := .truncated s.disk.log }
  | truncateCache (h : s.writer = .truncated before) :
      WriteStep s { s with cache := s.cache.clear, writer := .idle }
  | purge (logId : LogId) (hidle : s.writer = .idle) (h : (Op.purge logId : Op E).Legal s.disk) :
      WriteStep s { s with
        disk := (Batch.remove (s.disk.keysBefore (logId.index + 1))).apply s.disk
        writer := .purging logId }
  | purgeMeta (h : s.writer = .purging logId) :
      WriteStep s { s with
        disk := (Batch.setLastPurged logId).apply s.disk, writer := .purged logId }
  | purgeCache (h : s.writer = .purged logId) :
      WriteStep s { s with
        cache := s.cache.drop fun idx => decide (idx ≤ logId.index), writer := .idle }

def Shared.walk (s : Shared E) (start stop budget : Nat) : List E × EntryCache E :=
  walkBudgeted budget (List.range' start (stop - start)) [] 0 s.cache

/-- The half-steps of a reader, with the read that a step decides. -/
inductive ReadStep (r : Nat) : Shared E → Option (Read E) → Shared E → Prop
  | hit (start stop : Nat) (hidle : s.readers r = .idle) (htries : triesCache start stop = true)
      (h : (lookupAll (inclusive start stop) s.cache).1 = some out) :
      ReadStep r s (some ⟨start, stop, none, out⟩)
        (s.setReader r .idle (lookupAll (inclusive start stop) s.cache).2)
  | miss (start stop : Nat) (hidle : s.readers r = .idle) (htries : triesCache start stop = true)
      (h : (lookupAll (inclusive start stop) s.cache).1 = none) :
      ReadStep r s none
        (s.setReader r (.missed start stop) (lookupAll (inclusive start stop) s.cache).2)
  | large (start stop : Nat) (hidle : s.readers r = .idle)
      (htries : triesCache start stop = false) :
      ReadStep r s none (s.setReader r (.missed start stop) s.cache)
  | range (h : s.readers r = .missed start stop) :
      ReadStep r s
        (some ⟨start, stop, none, (s.disk.rangeBudgeted start stop u64Max).map fun p => p.2.1⟩)
        (s.setReader r (.filling (s.disk.rangeBudgeted start stop u64Max)) s.cache)
  | fill (h : s.readers r = .filling entries) :
      ReadStep r s none (s.setReader r .idle (s.cache.putAll entries))
  | limitedEmpty (start stop budget : Nat) (hidle : s.readers r = .idle) (h : stop ≤ start) :
      ReadStep r s (some ⟨start, stop, some budget, []⟩) s
  | limitedHit (start stop budget : Nat) (hidle : s.readers r = .idle) (hlt : start < stop)
      (h : (s.walk start stop budget).1 ≠ []) :
      ReadStep r s (some ⟨start, stop, some budget, (s.walk start stop budget).1⟩)
        (s.setReader r .idle (s.walk start stop budget).2)
  | limitedMiss (start stop budget : Nat) (hidle : s.readers r = .idle) (hlt : start < stop)
      (h : (s.walk start stop budget).1 = []) :
      ReadStep r s none
        (s.setReader r (.limitedMissed start stop budget) (s.walk start stop budget).2)
  | limitedRange (h : s.readers r = .limitedMissed start stop budget) :
      ReadStep r s
        (some ⟨start, stop, some budget,
          (s.disk.rangeBudgeted start (stop - 1) budget).map fun p => p.2.1⟩)
        (s.setReader r .idle s.cache)

/-- Any interleaving of one writer with the readers whose steps meet a condition. -/
inductive Interleave (ok : Shared E → Nat → Prop) : Shared E → Shared E → Prop
  | write (h : WriteStep s s') : Interleave ok s s'
  | read (h : ReadStep r s out s') (hok : ok s r) : Interleave ok s s'

structure Coherent (s : Shared E) : Prop where
  log : ∃ n, Contiguous s.settled n
  cache : Mirrors s.cache s.cached s.floor
  appended : ∀ entries, s.writer = .appended entries → ∀ e ∈ entries,
    s.disk.log[indexOf e]? = some e
  filling : ∀ r entries, s.readers r = .filling entries → ∀ p ∈ entries,
    p.2.2 = RaftRecord.encodedLen p.2.1

variable {s s' : Shared E} {d : LogDisk E} {cache : EntryCache E} {es : List E} {i n r : Nat}

lemma WriteStep.coherent (hstep : WriteStep s s') (h : Coherent s) : Coherent s' := by
  obtain ⟨disk, cache, writer, readers⟩ := s
  obtain ⟨⟨n, hlog⟩, hcache, happended, hfilling⟩ := h
  cases hstep with
  | append entries hidle hlegal =>
    obtain rfl : writer = .idle := hidle
    have hnext : nextIndex disk.getLogState.lastLogId = n := hlog.nextIndex_lastLogId
    obtain ⟨hes, hlen⟩ := hlegal
    rw [hnext] at hes hlen
    refine ⟨⟨_, hlog.insert hes hlen⟩, hcache.insert hlog hes, ?_, hfilling⟩
    intro entries' heq e he
    cases heq
    exact hes.getElem?_of_mem he
  | appendCache hwriter =>
    rename_i entries
    obtain rfl : writer = .appended entries := hwriter
    refine ⟨⟨n, hlog⟩, hcache.putAll ?_, (fun _ heq => nomatch heq), hfilling⟩
    intro p hp
    obtain ⟨e, he, rfl⟩ := List.mem_map.1 hp
    exact ⟨rfl, .inl (happended entries rfl e he)⟩
  | truncateAfter logId hidle =>
    obtain rfl : writer = .idle := hidle
    have hkeys (i : Nat) (hi : i ∈ disk.log) :=
      LogDisk.mem_keysAfter.trans (and_iff_right (b := min (logId.index + 1) u64Max ≤ i) hi)
    exact ⟨⟨_, hlog.removeSuffix hkeys⟩, hcache, (fun _ heq => nomatch heq), hfilling⟩
  | truncateAll hidle =>
    obtain rfl : writer = .idle := hidle
    exact ⟨⟨_, hlog.removeSuffix hlog.keysBefore_iff⟩, hcache, (fun _ heq => nomatch heq), hfilling⟩
  | truncateCache hwriter =>
    rename_i before
    obtain rfl : writer = .truncated before := hwriter
    exact ⟨⟨n, hlog⟩, fun p hp => absurd hp List.not_mem_nil, (fun _ heq => nomatch heq), hfilling⟩
  | purge logId hidle hlegal =>
    obtain rfl : writer = .idle := hidle
    exact ⟨⟨_, hlog.purge logId hlegal.1 hlegal.2⟩, hcache.keysBefore hlegal.1,
      (fun _ heq => nomatch heq), hfilling⟩
  | purgeMeta hwriter =>
    rename_i logId
    obtain rfl : writer = .purging logId := hwriter
    exact ⟨⟨n, hlog⟩, hcache, (fun _ heq => nomatch heq), hfilling⟩
  | purgeCache hwriter =>
    rename_i logId
    obtain rfl : writer = .purged logId := hwriter
    exact ⟨⟨n, hlog⟩, fun p hp => hcache p (Lru.Cache.mem_drop hp).1, (fun _ heq => nomatch heq),
      hfilling⟩

lemma Coherent.setReader {reader : Reader E} (h : Coherent s)
    (hcache : Mirrors cache s.cached s.floor)
    (hfilling : ∀ entries, reader = .filling entries →
      ∀ p ∈ entries, p.2.2 = RaftRecord.encodedLen p.2.1) :
    Coherent (s.setReader r reader cache) := by
  refine ⟨h.log, hcache, h.appended, ?_⟩
  exact (Function.forall_update_iff s.readers fun _ reader => ∀ entries, reader = .filling entries →
    ∀ p ∈ entries, p.2.2 = RaftRecord.encodedLen p.2.1).2 ⟨hfilling, fun r' _ => h.filling r'⟩

lemma ReadStep.coherent {out : Option (Read E)} (hstep : ReadStep r s out s')
    (hok : s.FillsCurrent r) (h : Coherent s) : Coherent s' := by
  cases hstep with
  | hit start stop => exact h.setReader (h.cache.lookupAll _) fun _ heq => nomatch heq
  | miss start stop => exact h.setReader (h.cache.lookupAll _) fun _ heq => nomatch heq
  | large start stop => exact h.setReader h.cache fun _ heq => nomatch heq
  | range hreader =>
    apply h.setReader h.cache
    intro entries heq p hp
    cases heq
    exact LogDisk.rangeBudgeted_sized hp
  | fill hreader =>
    refine h.setReader (h.cache.putAll ?_) fun _ heq => nomatch heq
    intro p hp
    exact ⟨h.filling r _ hreader p hp, hok _ hreader p hp⟩
  | limitedEmpty => exact h
  | limitedHit start stop budget =>
    exact h.setReader (h.cache.walkBudgeted _) fun _ heq => nomatch heq
  | limitedMiss start stop budget =>
    exact h.setReader (h.cache.walkBudgeted _) fun _ heq => nomatch heq
  | limitedRange => exact h.setReader h.cache fun _ heq => nomatch heq

lemma coherent_of_interleave
    (h : ReflTransGen (Interleave Shared.FillsCurrent) {} s) : Coherent s := by
  induction h with
  | refl =>
    obtain ⟨hlog, _⟩ := good_empty (E := E)
    exact ⟨hlog, fun p hp => absurd hp List.not_mem_nil, (fun _ heq => nomatch heq),
      fun _ _ heq => nomatch heq⟩
  | tail _ hstep ih =>
    cases hstep with
    | write hwrite => exact hwrite.coherent ih
    | read hread hok => exact hread.coherent hok ih

/-- Of the current log, or of one that is being truncated. -/
def Read.Current (read : Read E) (s : Shared E) : Prop :=
  Stored s.disk.log read.start read.out ∨
    ∃ before, s.writer = .truncated before ∧ Stored before read.start read.out

omit [RaftRecord E] in
lemma Read.current_of_cached {read : Read E} (h : Stored s.cached read.start read.out) :
    read.Current s := by
  rw [Shared.cached] at h
  split at h
  · rename_i before hwriter
    exact .inr ⟨before, hwriter, h⟩
  · exact .inl h

omit [RaftRecord E] in
lemma Shared.settled_log (s : Shared E) : s.settled.log = s.disk.log := by
  rw [settled]
  split <;> rfl

lemma Coherent.stored_rangeBudgeted (h : Coherent s) (hstart : s.floor ≤ start) :
    Stored s.disk.log start ((s.disk.rangeBudgeted start stop budget).map fun p => p.2.1) := by
  obtain ⟨n, hn⟩ := h.log
  have hstored := hn.stored_rangeBudgeted hstart stop budget
  rw [LogDisk.rangeBudgeted, LogDisk.rows, s.settled_log] at hstored
  exact hstored

lemma Coherent.read_current (h : Coherent s) {read : Read E}
    (hread : ReadStep r s (some read) s') (hstart : s.floor ≤ read.start) : read.Current s := by
  cases hread with
  | hit start stop hidle htries hout =>
    exact Read.current_of_cached (h.cache.stored_lookupAll hstart hout)
  | range => exact .inl (h.stored_rangeBudgeted hstart)
  | limitedEmpty => exact .inl trivial
  | limitedHit start stop budget =>
    obtain ⟨more, hmore, hstored⟩ := h.cache.stored_walkBudgeted hstart budget (stop - start) [] 0
    apply Read.current_of_cached
    exact hmore ▸ hstored
  | limitedRange => exact .inl (h.stored_rangeBudgeted hstart)

lemma ReadStep.ne_nil {read : Read E} {budget : Nat} (hread : ReadStep r s (some read) s')
    (hbudget : read.budget = some budget) (hlt : read.start < read.stop)
    (hmem : read.start ∈ s.disk.log) : read.out ≠ [] := by
  cases hread with
  | hit => cases hbudget
  | range => cases hbudget
  | limitedEmpty start stop budget hidle hle => exact absurd hlt (not_lt.2 hle)
  | limitedHit start stop budget hidle hlt' hne => exact hne
  | limitedRange =>
    intro hnil
    exact LogDisk.rangeBudgeted_ne_nil hmem (le_sub_one_of_lt hlt) (List.map_eq_nil_iff.1 hnil)

lemma Coherent.read_within (h : Coherent s) {read : Read E} {budget : Nat}
    (hread : ReadStep r s (some read) s') (hbudget : read.budget = some budget)
    (hlimit : budget < u64Max) : Within budget read.out := by
  cases hread with
  | hit => cases hbudget
  | range => cases hbudget
  | limitedEmpty => exact .inl (zero_le budget)
  | limitedHit =>
    cases hbudget
    exact h.cache.within_walkBudgeted hlimit _ rfl (zero_le budget)
  | limitedRange =>
    cases hbudget
    exact budgetLoop_within hlimit _ [] rfl (zero_le budget)

/-- When fills are of the log, reads are current and contiguous. -/
theorem reads_current {s s' : Shared E} {read : Read E}
    (h : ReflTransGen (Interleave Shared.FillsCurrent) {} s)
    (hread : ReadStep r s (some read) s') (hstart : s.floor ≤ read.start) :
    read.Current s ∧ ∀ budget, read.budget = some budget →
      (read.start < read.stop → read.start ∈ s.disk.log → read.out ≠ []) ∧
        (budget < u64Max → Within budget read.out) := by
  have hcoherent := coherent_of_interleave h
  refine ⟨hcoherent.read_current hread hstart, ?_⟩
  intro budget hbudget
  exact ⟨hread.ne_nil hbudget, hcoherent.read_within hread hbudget⟩

def Shared.appended (s : Shared E) (entries : List E) : Shared E :=
  { s with
    disk := (Batch.insert entries).apply s.disk
    cache := s.cache.putAll (entries.map sized)
    writer := .idle }

def Shared.truncated (s : Shared E) (keys : List Nat) : Shared E :=
  { s with
    disk := (Batch.remove keys).apply s.disk
    cache := s.cache.clear
    writer := .idle }

variable {ok : Shared E → Nat → Prop} {s₀ : Shared E}

section
variable (h : ReflTransGen (Interleave ok) s₀ s)

include h

lemma Interleave.append (entries : List E)
    (hidle : s.writer = .idle) (hlegal : (Op.append entries).Legal s.disk) :
    ReflTransGen (Interleave ok) s₀ (s.appended entries) :=
  (h.tail (.write (.append entries hidle hlegal))).tail (.write (.appendCache rfl))

lemma Interleave.truncateAfter (logId : LogId) (hidle : s.writer = .idle) :
    ReflTransGen (Interleave ok) s₀ (s.truncated (s.disk.keysAfter logId.index)) :=
  (h.tail (.write (.truncateAfter logId hidle))).tail (.write (.truncateCache rfl))

lemma Interleave.truncateAll (hidle : s.writer = .idle) :
    ReflTransGen (Interleave ok) s₀ (s.truncated (s.disk.keysBefore u64Max)) :=
  (h.tail (.write (.truncateAll hidle))).tail (.write (.truncateCache rfl))

end

end

/-- Reader 0 fills the cache from the rewritten log, reader 1 hits it. -/
theorem reads_current_rewritten : ∃ s s' : Shared LogId,
    ReflTransGen (Interleave Shared.FillsCurrent) {} s ∧
      ReadStep 1 s (some ⟨0, 1, none, [⟨1, 1, 0⟩, ⟨2, 1, 1⟩]⟩) s' ∧
      Stored s.disk.log 0 [⟨1, 1, 0⟩, ⟨2, 1, 1⟩] := by
  have hfirst : ReflTransGen (Interleave Shared.FillsCurrent) {} _ :=
    Interleave.append .refl [(⟨1, 1, 0⟩ : LogId), ⟨1, 1, 1⟩] rfl
      ⟨⟨rfl, rfl, trivial⟩, by decide⟩
  have hcut := Interleave.truncateAfter hfirst ⟨1, 1, 0⟩ rfl
  have hnew := Interleave.append hcut [⟨2, 1, 1⟩] rfl ⟨⟨by decide, trivial⟩, by decide⟩
  have hmiss := hnew.tail (.read (.miss (r := 0) 0 1 rfl (by decide) (by decide)) nofun)
  have hrange := hmiss.tail (.read (.range (r := 0) rfl) nofun)
  have hfill := hrange.tail (.read (.fill (r := 0) rfl) fun entries hfilling => by
    cases hfilling
    decide)
  refine ⟨_, _, hfill, .hit 0 1 rfl (by decide) (by decide), ?_⟩
  obtain ⟨hcurrent | ⟨_, hwriter, _⟩, _⟩ := @reads_current LogId _ 1 _ _
    ⟨0, 1, none, [⟨1, 1, 0⟩, ⟨2, 1, 1⟩]⟩ hfill (.hit 0 1 rfl (by decide) (by decide))
      (Nat.zero_le _)
  · exact hcurrent
  · cases hwriter

/-- Reader 1 gets the truncated entry that reader 0 cached late. -/
theorem superseded_entry_read : ∃ s s' : Shared LogId,
    ReflTransGen (Interleave fun _ _ => True) {} s ∧ s.writer = .idle ∧
      ReadStep 1 s (some ⟨0, 0, none, [⟨1, 1, 0⟩]⟩) s' ∧ s.disk.log[0]? = some ⟨2, 1, 0⟩ := by
  have hfirst : ReflTransGen (Interleave fun _ _ => True) {} _ :=
    Interleave.append .refl [(⟨1, 1, 0⟩ : LogId), ⟨1, 1, 1⟩] rfl
      ⟨⟨rfl, rfl, trivial⟩, by decide⟩
  have hcut := Interleave.truncateAfter hfirst ⟨1, 1, 0⟩ rfl
  have hmiss := hcut.tail (.read (.miss (r := 0) 0 0 rfl (by decide) (by decide)) trivial)
  have hrange := hmiss.tail (.read (.range (r := 0) rfl) trivial)
  have hempty := Interleave.truncateAll hrange rfl
  have hnew := Interleave.append hempty [⟨2, 1, 0⟩] rfl ⟨⟨rfl, trivial⟩, by decide⟩
  have hfill := hnew.tail (.read (.fill (r := 0) rfl) trivial)
  exact ⟨_, _, hfill, rfl, .hit 0 0 rfl (by decide) (by decide), by decide⟩

end Kiseki.Raft
