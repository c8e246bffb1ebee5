import Kiseki.Composition.Windows
import Kiseki.Lib.Register

namespace Kiseki.Compositions
open Intent Pairing List Option Storage DeltaOp Register HydratorDelta

def DeltaOp.offered (op : DeltaOp) : Option (CompositionId × PerspectiveSeq) :=
  op.bound.bind fun b => b.2.2.map fun seq => (b.2.1, seq)

def BindsName (key : NameKey) (op : DeltaOp) : Prop :=
  ∃ id seq, op.bound = some (key, id, some seq)

structure Storage.Shows (s : Storage) (key : NameKey)
    (e : Option (CompositionId × PerspectiveSeq)) : Prop where
  name : s.names.lookup key = e.map Prod.fst
  stamp : s.nameSeqs.lookup key = e.map Prod.snd

def Backend.feed (backend : Backend) (e : Option (CompositionId × PerspectiveSeq))
    (bs : List (CompositionId × PerspectiveSeq)) : Option (CompositionId × PerspectiveSeq) :=
  match backend with
  | .memory => bs.foldl write e
  | .fjall => window e bs

lemma lwwAcceptsBind_some (stored : Option PerspectiveSeq) (seq : PerspectiveSeq) :
    lwwAcceptsBind stored (some seq) = gives stored seq := by
  cases stored <;> rfl

section
variable {s : Storage} {key : NameKey} {e : Option (CompositionId × PerspectiveSeq)}

lemma Storage.Shows.bind (h : s.Shows key e) (seen : Storage)
    (b : CompositionId × PerspectiveSeq) :
    (Storage.bind seen s key b.1 (some b.2)).Shows key
      (take (seen.nameSeqs.lookup key) e b) := by
  rw [Storage.bind, lwwAcceptsBind_some, Register.take]
  split
  · exact ⟨Finmap.lookup_insert _, Finmap.lookup_insert _⟩
  · exact h

lemma Storage.Shows.foldl_bind (h : s.Shows key e) (seen : Storage) (backend : Backend)
    (bs : List (CompositionId × PerspectiveSeq)) :
    (bs.foldl (fun t b => Storage.bind (Storage.seenBy backend seen t) t key b.1 (some b.2))
      s).Shows
      key (match backend with
        | .memory => bs.foldl write e
        | .fjall => bs.foldl (take (seen.nameSeqs.lookup key)) e) := by
  induction bs generalizing s e with
  | nil => cases backend <;> exact h
  | cons b bs ih =>
    have hstep := h.bind (seenBy backend seen s) b
    cases backend with
    | memory =>
      have hstamp : (seenBy .memory seen s).nameSeqs.lookup key = e.map Prod.snd := h.stamp
      rw [hstamp] at hstep
      exact ih hstep
    | fjall => exact ih hstep

end

section
variable {st : CompositionStore} {key : NameKey} {ops : List DeltaOp}

lemma BindsName.offered {op : DeltaOp} (h : BindsName key op) :
    ∃ b, op.offered = some b ∧ op.bound = some (key, b.1, some b.2) := by
  obtain ⟨id, seq, hbound⟩ := h
  exact ⟨(id, seq), by rw [DeltaOp.offered, hbound]; rfl, hbound⟩

lemma stage_bindsName {op : DeltaOp} (h : BindsName key op) (hns : st.namespace? key.1 ≠ none)
    (s : Staging) :
    (stage st s op).2 = .applied ∧
      ∃ b, op.bound = some b ∧ (stage st s op).1.nameInserts = s.nameInserts ++ [b] := by
  obtain ⟨id, seq, hbound⟩ := h
  cases op with
  | create x namespaceId size name lens seq' chunkRefs =>
    cases name with
    | none => cases hbound
    | some name =>
      cases hbound
      simp only [stage, stageCreate]
      split
      · exact ⟨rfl, _, rfl, rfl⟩
      · split
        · next hnone => exact absurd (or_eq_none_iff.1 hnone).2 hns
        · exact ⟨rfl, _, rfl, rfl⟩
  | _ => cases hbound

lemma nameInserts_of_bindsName (hops : ∀ op ∈ ops, BindsName key op)
    (hns : st.namespace? key.1 ≠ none) :
    (stageAll st {} ops).nameInserts =
      (ops.filterMap DeltaOp.offered).map fun b => (key, b.1, some b.2) := by
  induction ops using reverseRecOn with
  | nil => rfl
  | append_singleton ops op ih =>
    have hop := hops op (mem_append_right _ (mem_singleton_self op))
    obtain ⟨b, hoffered, hbound⟩ := hop.offered
    obtain ⟨_, b', hbound', hadd⟩ := stage_bindsName hop hns (stageAll st {} ops)
    have hlast : [op].filterMap offered = [b] := by
      rw [filterMap_cons, hoffered]
      rfl
    rw [hbound] at hbound'
    rw [stageAll_concat, hadd, ih fun op' hop' => hops op' (mem_append_left _ hop'),
      filterMap_append, map_append, hlast, ← some.inj hbound']
    rfl

lemma notDelete_of_bindsName (hops : ∀ op ∈ ops, BindsName key op) (id : CompositionId) :
    .delete id ∉ ops := by
  intro hmem
  obtain ⟨_, _, hbound⟩ := hops _ hmem
  cases hbound

lemma Storage.Shows.batch {e : Option (CompositionId × PerspectiveSeq)}
    (h : st.storage.Shows key e) (hops : ∀ op ∈ ops, BindsName key op)
    (hns : st.namespace? key.1 ≠ none) (shardId : ShardId) (lastApplied : Nat)
    (stuck : Option (Nat × Nat)) :
    (st.storage.applyHydrationBatch st.backend
      (windowBatch shardId (stageAll st {} ops) lastApplied stuck)).Shows key
      (st.backend.feed e (ops.filterMap DeltaOp.offered)) := by
  have hremoves : (stageAll st {} ops).removes = [] := by
    apply eq_nil_iff_forall_not_mem.2
    intro id hid
    exact notDelete_of_bindsName hops id (mem_removes_stageAll hid)
  have hunbinds : (stageAll st {} ops).nameRemoves = [] := by
    apply eq_nil_iff_forall_not_mem.2
    intro u hu
    obtain ⟨_, id, hid, _⟩ := mem_nameRemoves_stageAll st ops u hu
    exact notDelete_of_bindsName hops id hid
  have hput : ((stageAll st {} ops).puts.foldl put st.storage).Shows key e := by
    have hindex := index_foldl_put (stageAll st {} ops).puts st.storage
    exact ⟨(congrArg (fun x => x.names.lookup key) hindex).trans h.name,
      (congrArg (fun x => x.stamps.lookup key) hindex).trans h.stamp⟩
  have hfold := hput.foldl_bind st.storage st.backend (ops.filterMap offered)
  have hfeed : (match st.backend with
      | .memory => (ops.filterMap offered).foldl write e
      | .fjall => (ops.filterMap offered).foldl
          (take (st.storage.nameSeqs.lookup key)) e) =
      st.backend.feed e (ops.filterMap offered) := by
    cases st.backend with
    | memory => rfl
    | fjall => rw [h.stamp]; rfl
  rw [hfeed] at hfold
  simp only [applyHydrationBatch, windowBatch, hremoves, hunbinds, foldl_nil,
    nameInserts_of_bindsName hops hns, foldl_map]
  exact ⟨hfold.name, hfold.stamp⟩

lemma Storage.Shows.hydrates {st' : CompositionStore}
    {e : Option (CompositionId × PerspectiveSeq)} (h : st.storage.Shows key e)
    (hpending : st.pending = ∅) (hops : ∀ op ∈ ops, BindsName key op)
    (hns : st.namespace? key.1 ≠ none) (hhydrates : Hydrates st ops st') :
    st'.storage.Shows key (st.backend.feed e (ops.filterMap DeltaOp.offered)) ∧
      st'.pending = ∅ ∧ st'.backend = st.backend ∧ st'.namespace? key.1 ≠ none := by
  have hnil : st.backend.feed e [] = e := by
    cases st.backend <;> rfl
  cases hhydrates with
  | idle =>
    rw [filterMap_nil, hnil]
    exact ⟨h, hpending, rfl, hns⟩
  | halt hydrator =>
    rw [filterMap_nil, hnil]
    exact ⟨⟨h.name, h.stamp⟩, hpending, rfl, hns⟩
  | commit shardId lastApplied stuck =>
    have hnamespaces : (stageAll st {} ops).namespaceInserts = [] := by
      rw [namespaceInserts_stageAll]
      apply filterMap_eq_nil_iff.2
      intro op hop
      obtain ⟨_, _, hbound⟩ := hops op hop
      cases op with
      | namespaceCreate ns => cases hbound
      | _ => rfl
    have hbatch := h.batch hops hns shardId lastApplied stuck
    obtain ⟨hstorage, hnamespaces', hpending', hbackend⟩ := commit_of_empty hpending shardId
      (stageAll st {} ops) lastApplied stuck
    rw [hnamespaces] at hnamespaces'
    rw [hstorage, CompositionStore.namespace?, hnamespaces']
    exact ⟨hbatch, hpending', hbackend, hns⟩

lemma poll_applied (h : CompositionHydrator) (hrunning : h.haltedCache = false)
    (happlied : ∀ op ∈ ops, ∀ s, (stage st s op).2 = .applied) :
    (h.poll st (numbered h.lastAppliedCache ops) none).1.haltedCache = false ∧
      (h.poll st (numbered h.lastAppliedCache ops) none).1.lastAppliedCache =
        h.lastAppliedCache + ops.length ∧
      Hydrates st ops (h.poll st (numbered h.lastAppliedCache ops) none).2.1 := by
  simp only [CompositionHydrator.poll, hrunning, Bool.false_eq_true, if_false]
  cases ops with
  | nil => exact ⟨hrunning, rfl, .idle⟩
  | cons op ops =>
    have hstart : (⟨{}, h.lastAppliedCache, 0, none, false⟩ : Progress).stopped = false := rfl
    obtain ⟨n, _, hlast, hstaging, hall⟩ := foldl_pollStep st h.transientRetryThreshold
      (st.storage.stuckState.lookup h.shardId).join hstart (op :: ops)
    rw [hall happlied, take_length] at hstaging
    rw [hall happlied] at hlast
    simp only [numbered, lt_irrefl, if_false] at hlast hstaging ⊢
    rw [hlast, hstaging]
    exact ⟨trivial, rfl, .commit h.shardId _ _⟩

end

def offers (w : List HydratorDelta) : List (CompositionId × PerspectiveSeq) :=
  (w.map op).filterMap DeltaOp.offered

lemma Storage.Shows.polls {st : CompositionStore} {h : CompositionHydrator} {key : NameKey}
    {e : Option (CompositionId × PerspectiveSeq)} {ops : List DeltaOp}
    {ws : List (List HydratorDelta)} (hshows : st.storage.Shows key e) (hpending : st.pending = ∅)
    (hns : st.namespace? key.1 ≠ none) (hrunning : h.haltedCache = false)
    (hws : ws.flatten = numbered h.lastAppliedCache ops) (hops : ∀ op ∈ ops, BindsName key op) :
    (Compositions.polls h st ws).2.storage.Shows key
      ((ws.map offers).foldl st.backend.feed e) := by
  induction ws generalizing st h e ops with
  | nil => exact hshows
  | cons w ws ih =>
    obtain ⟨first, last, rfl, rfl, hrest⟩ := numbered_split hws
    have hfirst : ∀ op ∈ first, BindsName key op := fun op hop =>
      hops op (mem_append_left _ hop)
    obtain ⟨hrunning', hlast, hhydrates⟩ := poll_applied h hrunning fun op hop s =>
      (stage_bindsName (hfirst op hop) hns s).1
    obtain ⟨hshows', hpending', hbackend, hns'⟩ :=
      hshows.hydrates hpending hfirst hns hhydrates
    have hoffers : offers (numbered h.lastAppliedCache first) =
        first.filterMap offered := by
      rw [offers, map_op_numbered]
    have hih := ih (h := (h.poll st (numbered h.lastAppliedCache first) none).1) hshows' hpending'
      hns' hrunning' (by rw [hlast]; exact hrest) fun op hop =>
        hops op (mem_append_right _ hop)
    rw [hbackend, ← hoffers] at hih
    exact hih

lemma Storage.Shows.eq_some_iff {s : Storage} {key : NameKey}
    {e : Option (CompositionId × PerspectiveSeq)} (h : s.Shows key e)
      (top : CompositionId × PerspectiveSeq) :
    (s.nameLookup key = some top.1 ∧ s.nameSeqs.lookup key = some top.2) ↔ e = some top := by
  rw [nameLookup, h.name, h.stamp]
  cases e with
  | none => exact iff_of_false (fun heq => by cases heq.1) (fun heq => by cases heq)
  | some p =>
    rw [map_some, map_some, some.injEq, some.injEq, some.injEq, Prod.ext_iff]

lemma foldl_feed_memory (ws : List (List (CompositionId × PerspectiveSeq)))
    (e : Option (CompositionId × PerspectiveSeq)) :
    ws.foldl Backend.memory.feed e = ws.flatten.foldl write e := by
  rw [foldl_flatten]
  rfl

section
variable {ops : List DeltaOp} {ws : List (List HydratorDelta)}

lemma flatten_offers :
    (ws.map offers).flatten = (ws.flatten.map op).filterMap DeltaOp.offered := by
  induction ws with
  | nil => rfl
  | cons w ws ih =>
    rw [map_cons, flatten_cons, flatten_cons, ih, map_append, filterMap_append]
    rfl

lemma older_around {before after : List (CompositionId × PerspectiveSeq)}
    {top : CompositionId × PerspectiveSeq}
    (hdistinct : (before ++ top :: after).Pairwise fun b c => b.2 ≠ c.2)
    (hmax : ∀ b ∈ before ++ top :: after, b.2 ≤ top.2) :
    (∀ b ∈ before, b.2 < top.2) ∧ ∀ b ∈ after, b.2 < top.2 := by
  obtain ⟨_, hafter, hacross⟩ := pairwise_append.1 hdistinct
  constructor
  · intro b hb
    exact lt_of_le_of_ne (hmax b (mem_append_left _ hb)) (hacross b hb top mem_cons_self)
  · intro b hb
    have hne := (pairwise_cons.1 hafter).1 b hb
    exact lt_of_le_of_ne (hmax b (mem_append_right _ (mem_cons_of_mem top hb))) hne.symm

end

lemma filterMap_around {top : DeltaOp} {b : CompositionId × PerspectiveSeq}
    (hoffered : top.offered = some b) (first last : List DeltaOp) :
    (first ++ top :: last).filterMap DeltaOp.offered =
      first.filterMap DeltaOp.offered ++ b :: last.filterMap DeltaOp.offered := by
  rw [filterMap_append, filterMap_cons, hoffered]

structure Contest (key : NameKey) (ops : List DeltaOp) (top : DeltaOp)
    (winner : CompositionId × PerspectiveSeq) : Prop where
  binds : ∀ op ∈ ops, BindsName key op
  distinct : ops.Pairwise fun op op' => ∀ b ∈ op.offered, ∀ c ∈ op'.offered, b.2 ≠ c.2
  mem : top ∈ ops
  offered : top.offered = some winner
  youngest : ∀ op ∈ ops, ∀ b ∈ op.offered, b.2 ≤ winner.2

section
variable {key : NameKey} {ops : List DeltaOp} {top : DeltaOp}
  {winner : CompositionId × PerspectiveSeq}

lemma Contest.older (h : Contest key ops top winner)
    {before after : List (CompositionId × PerspectiveSeq)}
    (hsplit : ops.filterMap DeltaOp.offered = before ++ winner :: after) :
    (∀ b ∈ before, b.2 < winner.2) ∧ ∀ b ∈ after, b.2 < winner.2 := by
  have hpair : (ops.filterMap DeltaOp.offered).Pairwise fun b c => b.2 ≠ c.2 :=
    pairwise_filterMap.2 h.distinct
  have hmax : ∀ b ∈ ops.filterMap DeltaOp.offered, b.2 ≤ winner.2 := by
    intro b hb
    obtain ⟨op, hop, hb⟩ := mem_filterMap.1 hb
    exact h.youngest op hop b hb
  rw [hsplit] at hpair hmax
  exact older_around hpair hmax

lemma Contest.foldl_write (h : Contest key ops top winner) :
    (ops.filterMap DeltaOp.offered).foldl write none = some winner := by
  obtain ⟨first, last, hops⟩ := append_of_mem h.mem
  have hsplit : ops.filterMap DeltaOp.offered =
      first.filterMap DeltaOp.offered ++ winner :: last.filterMap DeltaOp.offered := by
    rw [hops, filterMap_around h.offered]
  obtain ⟨hfirst, hlast⟩ := h.older hsplit
  have hnone : Register.Below winner none := by
    intro p hp
    cases hp
  rw [hsplit]
  exact foldl_write_top hnone hfirst hlast

lemma Contest.foldl_window_iff (h : Contest key ops top winner)
    {before after : List (List HydratorDelta)} {w : List HydratorDelta} {first last : List DeltaOp}
    (hops : (before ++ w :: after).flatten.map op = ops)
    (hw : w.map op = first ++ top :: last) :
    ((before ++ w :: after).map offers).foldl window none = some winner ↔
      ∀ b ∈ last.filterMap DeltaOp.offered,
        gives (((before.map offers).foldl window none).map Prod.snd) b.2 = false := by
  have hoffers : offers w = first.filterMap DeltaOp.offered ++
      winner :: last.filterMap DeltaOp.offered := by
    rw [offers, hw, filterMap_around h.offered]
  have hsplit : ops.filterMap DeltaOp.offered =
      ((before.map offers).flatten ++ first.filterMap DeltaOp.offered) ++
        winner :: (last.filterMap DeltaOp.offered ++ (after.map offers).flatten) := by
    rw [← hops, ← flatten_offers, map_append, map_cons, flatten_append, flatten_cons, hoffers]
    simp only [append_assoc, cons_append]
  obtain ⟨hbefore, hafter⟩ := h.older hsplit
  have hnone : Register.Below winner none := by
    intro p hp
    cases hp
  rw [map_append, map_cons, hoffers]
  apply foldl_window_top_iff hnone
  · intro v hv b hb
    exact hbefore b (mem_append_left _ (mem_flatten.2 ⟨v, hv, hb⟩))
  · intro b hb
    exact hafter b (mem_append_left _ hb)
  · intro v hv b hb
    exact hafter b (mem_append_right _ (mem_flatten.2 ⟨v, hv, hb⟩))

end

/-- A name goes to its youngest create, if its window lets it. -/
theorem lww_confluent_iff {h : CompositionHydrator} (hrunning : h.haltedCache = false)
    (hstart : h.lastAppliedCache = 0) (backend : Backend) (pendingMax : Nat)
    {namespaces : Finmap fun _ : NamespaceId => Namespace} {key : NameKey}
    (hns : namespaces.lookup key.1 ≠ none) {ops : List DeltaOp} {top : DeltaOp}
    {winner : CompositionId × PerspectiveSeq} (hcontest : Contest key ops top winner)
    {ws : List (List HydratorDelta)} (hws : ws.flatten = numbered 0 ops) :
    let s := (polls h (.fresh backend pendingMax namespaces) ws).2.storage
    (s.nameLookup key = some winner.1 ∧ s.nameSeqs.lookup key = some winner.2) ↔
      backend = .memory ∨ ∀ before w after first last, ws = before ++ w :: after →
        w.map op = first ++ top :: last → ∀ op ∈ last, ∀ b ∈ op.offered,
          let stored :=
            (polls h (.fresh backend pendingMax namespaces) before).2.storage.nameSeqs.lookup
            key
          lwwAcceptsBind stored (some b.2) = false := by
  have hempty : (CompositionStore.fresh backend pendingMax namespaces).storage.Shows key none :=
    ⟨Finmap.lookup_empty key, Finmap.lookup_empty key⟩
  have hshows : ∀ {vs : List (List HydratorDelta)} {part : List DeltaOp},
      vs.flatten = numbered 0 part → (∀ op ∈ part, op ∈ ops) →
        (polls h (.fresh backend pendingMax namespaces) vs).2.storage.Shows key
          ((vs.map offers).foldl backend.feed none) := by
    intro vs part hvs hpart
    exact hempty.polls rfl hns hrunning (hstart ▸ hvs) fun op hop =>
      hcontest.binds op (hpart op hop)
  have hops : ws.flatten.map op = ops := by
    rw [hws, map_op_numbered]
  intro s
  rw [(hshows hws fun op hop => hop).eq_some_iff winner]
  cases backend with
  | memory =>
    apply iff_of_true _ (.inl rfl)
    rw [foldl_feed_memory, flatten_offers, hops]
    exact hcontest.foldl_write
  | fjall =>
    -- what is stored before a window is what the windows before it have left
    have hsplit : ∀ before w after first last, ws = before ++ w :: after →
        w.map op = first ++ top :: last →
          ((ws.map offers).foldl window none = some winner ↔
            ∀ op ∈ last, ∀ b ∈ op.offered, lwwAcceptsBind
              ((polls h (.fresh .fjall pendingMax namespaces) before).2.storage.nameSeqs.lookup key)
              (some b.2) = false) := by
      intro before w after first last hcut hw
      have hflat : before.flatten ++ (w :: after).flatten = numbered 0 ops := by
        rw [← flatten_append, ← hcut, hws]
      obtain ⟨part, rest, hparts, hbefore, _⟩ := numbered_split hflat
      have hstored := (hshows hbefore fun op hop => by
        rw [hparts]
        exact mem_append_left _ hop).stamp
      have hiff := hcontest.foldl_window_iff (hcut ▸ hops) hw
      rw [← hcut] at hiff
      rw [hiff, hstored]
      constructor
      · intro hall op hop b hb
        rw [lwwAcceptsBind_some]
        exact hall b (mem_filterMap.2 ⟨op, hop, hb⟩)
      · intro hall b hb
        obtain ⟨op, hop, hb⟩ := mem_filterMap.1 hb
        rw [← lwwAcceptsBind_some]
        exact hall op hop b hb
    constructor
    · intro hfinal
      right
      intro before w after first last hcut hw
      exact (hsplit before w after first last hcut hw).1 hfinal
    · intro hcond
      rcases hcond with hmemory | hall
      · cases hmemory
      · have hmem := hcontest.mem
        rw [← hops] at hmem
        obtain ⟨delta, hdelta, htop⟩ := mem_map.1 hmem
        obtain ⟨w, hw, hin⟩ := mem_flatten.1 hdelta
        obtain ⟨before, after, hcut⟩ := append_of_mem hw
        obtain ⟨first, last, hparts⟩ := append_of_mem (mem_map.2 ⟨delta, hin, htop⟩)
        exact (hsplit before w after first last hcut hparts).2
          (hall before w after first last hcut hparts)

def rivals : List DeltaOp := [namedCreate 1 2, namedCreate 2 1]

def rivalName : NameKey := (plainNamespace.id, "a")

lemma contest_rivals :
    Contest rivalName rivals (namedCreate 1 2) (⟨.replicate 16 1⟩, ⟨2, 0, 0⟩) where
  binds := by
    intro op hop
    rcases mem_cons.1 hop with rfl | hop
    · exact ⟨_, _, rfl⟩
    · rw [mem_singleton.1 hop]
      exact ⟨_, _, rfl⟩
  distinct := by decide
  mem := mem_cons_self
  offered := rfl
  youngest := by decide

def oneNamespace : Finmap fun _ : NamespaceId => Namespace :=
  .singleton plainNamespace.id plainNamespace

theorem lww_confluent_rivals :
    (polls newHydrator (.fresh .memory 4 oneNamespace) [numbered 0 rivals]).2.storage.nameLookup
        rivalName = some ⟨.replicate 16 1⟩ ∧
      (polls newHydrator (.fresh .memory 4 oneNamespace)
        [numbered 0 rivals]).2.storage.nameSeqs.lookup rivalName = some ⟨2, 0, 0⟩ :=
  (lww_confluent_iff rfl rfl .memory 4 (by decide) contest_rivals rfl).2 (.inl rfl)

/-- In one batch of the LSM store the older create takes the name over. -/
theorem lww_older_wins :
    Contest rivalName rivals (namedCreate 1 2) (⟨.replicate 16 1⟩, ⟨2, 0, 0⟩) ∧
      [numbered 0 rivals].flatten = numbered 0 rivals ∧
      (polls newHydrator (.fresh .fjall 4 oneNamespace) [numbered 0 rivals]).1.lastAppliedCache =
        2 ∧
      (polls newHydrator (.fresh .fjall 4 oneNamespace) [numbered 0 rivals]).2.storage.nameLookup
        rivalName = some ⟨.replicate 16 2⟩ ∧
      (polls newHydrator (.fresh .fjall 4 oneNamespace)
        [numbered 0 rivals]).2.storage.nameSeqs.lookup rivalName = some ⟨1, 0, 0⟩ :=
  ⟨contest_rivals, by decide +kernel⟩

end Kiseki.Compositions
