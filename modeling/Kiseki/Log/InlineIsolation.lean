import Kiseki.Log.Shape
import Kiseki.Log.Split

namespace Kiseki.Log
open Intent Function Relation List ShardSmInner Maps

def inlinePut (p : Nat × DeltaContent) : Key32 × Bytes :=
  (deriveInlineKey p.2.hashedKey p.1, p.2.payload)

def inlinePuts (ps : DeltaRecord) : InlineBatch :=
  (ps.filter fun p => p.2.hasInlineData).map inlinePut

def LogCommand.chunkKeys : LogCommand → List Key32
  | .chunkAndDelta _ _ inlinePayloads => inlinePayloads.map InlinePayloadEntry.chunkId
  | .incorporateIntent item => item.inlinePayloads.map InlinePayloadEntry.chunkId
  | .incorporateIntents items =>
    items.flatMap fun item => item.inlinePayloads.map InlinePayloadEntry.chunkId
  | _ => []

/-- A node's shards over one inline store, with copies read by splits. -/
structure ShardHost where
  shards : Finmap fun _ : ShardId => ShardSmInner := ∅
  inline : InlineMap := ∅
  moving : List AppendDeltaRequest := []
  log : ShardId → DeltaRecord := fun _ => []

namespace ShardHost

def view (n : ShardHost) (s : ShardSmInner) : ShardSmInner :=
  { s with inlineStore := some n.inline }

def put (n : ShardHost) (id : ShardId) (s : ShardSmInner) (log : DeltaRecord) : ShardHost :=
  { n with
    shards := n.shards.insert id s
    inline := s.inlineStore.getD n.inline
    log := update n.log id log }

def apply (n : ShardHost) (id : ShardId) (e : Applied) : ShardHost :=
  match n.shards.lookup id with
  | none => n
  | some s => n.put id ((n.view s).apply e) (n.log id ++ (n.view s).records e)

def truncateLog (n : ShardHost) (id : ShardId) : ShardHost :=
  match n.shards.lookup id with
  | none => n
  | some s => n.put id (n.view s).truncateLog.1 (n.log id)

inductive Step (ok : ShardHost → ShardId → Applied → Prop) : ShardHost → ShardHost → Prop
  | create (id : ShardId) (tenantId : OrgId) (windowEntries windowMs : Nat) (hid : id ∉ n.shards) :
      Step ok n (n.put id (.new id tenantId windowEntries windowMs (some n.inline)) [])
  | entry (id : ShardId) (e : Applied) (hok : ok n id e) : Step ok n (n.apply id e)
  | truncate (id : ShardId) : Step ok n (n.truncateLog id)
  -- a batch of the replay of `split_shard`: the deltas of the upper half
  | read (target : ShardId) (mid rangeEnd : Key32) (hs : n.shards.lookup source = some s)
      (hread : (n.view s).readDeltas first last = .ok ds) :
      Step ok n
        { n with
          moving := n.moving ++ (ds.filter fun d =>
            decide (InRange mid rangeEnd d.header.hashedKey)).map fun d => d.requestFor target }
  | move (req : AppendDeltaRequest) (hreq : req ∈ n.moving) (logIndex nowMs : Nat)
      (hok : ok n req.shardId ⟨.appendDelta (deltaArgsOf req), logIndex, nowMs⟩) :
      Step ok n
        { n.apply req.shardId ⟨.appendDelta (deltaArgsOf req), logIndex, nowMs⟩ with
          moving := n.moving.erase req }

def Retains (n : ShardHost) (id : ShardId) (d : Delta) : Prop :=
  ∃ s, n.shards.lookup id = some s ∧ d ∈ s.deltas ∧ d.header.hasInlineData = true

/-- An entry writes at no key of a retained inline delta. -/
structure Fresh (n : ShardHost) (id : ShardId) (e : Applied) : Prop where
  retained : ∀ s, n.shards.lookup id = some s → ∀ owner d, n.Retains owner d →
    d.inlineKey ∉ e.cmd.chunkKeys ∧
      d.inlineKey ∉ (inlinePuts ((n.view s).records e)).map Prod.fst
  own : ∀ s, n.shards.lookup id = some s →
    ((inlinePuts ((n.view s).records e)).map Prod.fst).Nodup
  chunks : ∀ s, n.shards.lookup id = some s →
    ∀ key ∈ (inlinePuts ((n.view s).records e)).map Prod.fst, key ∉ e.cmd.chunkKeys

structure Inv (n : ShardHost) : Prop where
  sequenced : ∀ id s, n.shards.lookup id = some s → s.Sequenced
  record : ∀ id s, n.shards.lookup id = some s → (n.view s).readRecord <:+ n.log id
  distinct : ∀ id d id' d', n.Retains id d → n.Retains id' d' → d.inlineKey = d'.inlineKey →
    id = id' ∧ d.header.sequence = d'.header.sequence

end ShardHost

structure Filed (d : Delta) (p : Nat × DeltaContent) : Prop where
  sequence : d.header.sequence = p.1
  label : d.label = p.2.toDeltaLabel
  ciphertext : d.payload.ciphertext = if p.2.hasInlineData then [] else p.2.payload

structure Offloads (r r' : ShardSmInner × InlineBatch) (ps : DeltaRecord) (chunks : List Key32) :
    Prop where
  store : r'.1.inlineStore = r.1.inlineStore
  deltas : ∃ ds, r'.1.deltas = r.1.deltas ++ ds ∧ List.Forall₂ Filed ds ps
  batch : ∃ more, r'.2 = r.2 ++ more ∧ (∀ put ∈ inlinePuts ps, put ∈ more) ∧
    ∀ put ∈ more, put.1 ∈ chunks ∨ put ∈ inlinePuts ps

section
variable {s : ShardSmInner} {r r' r'' : ShardSmInner × InlineBatch} {ps ps' : DeltaRecord}
  {chunks chunks' : List Key32}

lemma inlinePuts_append : inlinePuts (ps ++ ps') = inlinePuts ps ++ inlinePuts ps' := by
  rw [inlinePuts, filter_append, map_append]
  rfl

lemma Offloads.refl (r : ShardSmInner × InlineBatch) : Offloads r r [] chunks :=
  ⟨rfl, ⟨[], (append_nil _).symm, .nil⟩,
    ⟨[], (append_nil _).symm, fun _ hput => absurd hput not_mem_nil,
      fun _ hput => absurd hput not_mem_nil⟩⟩

lemma Offloads.trans (h : Offloads r r' ps chunks) (h' : Offloads r' r'' ps' chunks') :
    Offloads r r'' (ps ++ ps') (chunks ++ chunks') := by
  obtain ⟨ds, hds, hfiled⟩ := h.deltas
  obtain ⟨ds', hds', hfiled'⟩ := h'.deltas
  obtain ⟨more, hmore, hputs, honly⟩ := h.batch
  obtain ⟨more', hmore', hputs', honly'⟩ := h'.batch
  refine ⟨h'.store.trans h.store, ⟨ds ++ ds', ?_, rel_append hfiled hfiled'⟩,
    more ++ more', ?_, ?_, ?_⟩
  · rw [hds', hds, append_assoc]
  · rw [hmore', hmore, append_assoc]
  · intro put hput
    rw [inlinePuts_append] at hput
    exact mem_append.2 ((mem_append.1 hput).imp (hputs put) (hputs' put))
  · intro put hput
    rw [inlinePuts_append, mem_append, mem_append]
    rcases mem_append.1 hput with hput | hput
    · exact (honly put hput).imp .inl .inl
    · exact (honly' put hput).imp .inr .inr

lemma Offloads.appendDeltaInner (hstore : s.inlineStore.isSome = true) (args : DeltaArgs)
    (logIndex : Nat) (batch : InlineBatch) :
    Offloads (s, batch) (s.appendDeltaInner args logIndex batch) [(s.tip + 1, args.content)]
      [] := by
  have hoff : s.offloads args = args.hasInlineData := by
    rw [offloads, hstore, Bool.and_true]
  refine ⟨rfl, ⟨_, rfl, .cons ⟨rfl, rfl, ?_⟩ .nil⟩, ?_⟩
  · change (if s.offloads args = true then [] else args.payload) = _
    rw [hoff]
    rfl
  · rw [ShardSmInner.appendDeltaInner, hoff]
    cases hinline : args.hasInlineData with
    | false =>
      have hnone : inlinePuts [(s.tip + 1, args.content)] = [] := by
        have hcontent : args.content.hasInlineData = false := hinline
        rw [inlinePuts, filter_cons_of_neg (by rw [hcontent]; exact Bool.false_ne_true)]
        rfl
      rw [hnone]
      exact ⟨[], (append_nil _).symm, fun _ hput => absurd hput not_mem_nil,
        fun _ hput => absurd hput not_mem_nil⟩
    | true =>
      have hone : inlinePuts [(s.tip + 1, args.content)] =
          [(deriveInlineKey args.hashedKey (s.tip + 1), args.payload)] := by
        have hcontent : args.content.hasInlineData = true := hinline
        rw [inlinePuts, filter_cons_of_pos (by exact hcontent)]
        rfl
      rw [hone]
      exact ⟨_, rfl, fun _ hput => hput, fun _ hput => .inr hput⟩

lemma Offloads.queue (hstore : s.inlineStore.isSome = true) (tenantIdBytes : Uuid)
    (newChunks : List NewChunkMeta) (logIndex : Nat) (payloads : List InlinePayloadEntry)
    (batch : InlineBatch) :
    Offloads (s, batch) (s.applyNewChunks tenantIdBytes newChunks logIndex,
      (s.applyNewChunks tenantIdBytes newChunks logIndex).queueInlinePayloads payloads batch) []
      (payloads.map InlinePayloadEntry.chunkId) := by
  obtain ⟨_, _, heq⟩ := s.applyNewChunks_eq tenantIdBytes newChunks logIndex
  rw [heq]
  refine ⟨rfl, ⟨[], (append_nil _).symm, .nil⟩, _, if_pos hstore,
    fun _ hput => absurd hput not_mem_nil, fun put hput => .inl ?_⟩
  obtain ⟨entry, hentry, rfl⟩ := mem_map.1 hput
  exact mem_map.2 ⟨entry, hentry, rfl⟩

lemma Offloads.chunkAndDelta (hstore : s.inlineStore.isSome = true) (args : DeltaArgs)
    (newChunks : List NewChunkMeta) (payloads : List InlinePayloadEntry) (logIndex : Nat)
    (batch : InlineBatch) :
    let s' := s.applyNewChunks args.tenantIdBytes newChunks logIndex
    Offloads (s, batch)
      (s'.appendDeltaInner args logIndex (s'.queueInlinePayloads payloads batch))
      [(s.tip + 1, args.content)] (payloads.map InlinePayloadEntry.chunkId) := by
  intro s'
  have hqueue := Offloads.queue hstore args.tenantIdBytes newChunks logIndex payloads batch
  have hstore' : s'.inlineStore.isSome = true := by
    rw [hqueue.store]
    exact hstore
  have hboth := hqueue.trans (Offloads.appendDeltaInner hstore' args logIndex _)
  rw [(s.tip_applyNewChunks args.tenantIdBytes newChunks logIndex).1, append_nil] at hboth
  exact hboth

lemma Offloads.incorporate (hstore : s.inlineStore.isSome = true) (item : IncorporateItem)
    (logIndex nowMs : Nat) (batch : InlineBatch) :
    Offloads (s, batch) (s.incorporate item logIndex nowMs batch)
      [(s.tip + 1, item.toDeltaArgs.content)]
      (item.inlinePayloads.map InlinePayloadEntry.chunkId) := by
  have hboth := Offloads.chunkAndDelta hstore item.toDeltaArgs item.newChunks item.inlinePayloads
    logIndex batch
  exact ⟨hboth.store, hboth.deltas, hboth.batch⟩

lemma Offloads.applyItems (items : List IncorporateItem) (logIndex nowMs : Nat)
    (hstore : r.1.inlineStore.isSome = true) :
    Offloads r (ShardSmInner.applyItems logIndex nowMs items r)
      (itemRecords logIndex nowMs items r.1)
      (items.flatMap fun item => item.inlinePayloads.map InlinePayloadEntry.chunkId) := by
  induction items generalizing r with
  | nil => exact Offloads.refl r
  | cons item items ih =>
    rw [applyItems, itemRecords, applyOneIncorporate, flatMap_cons]
    by_cases hr : r.1.refuses item.perspectiveSeq logIndex = true
    · rw [if_pos hr, if_pos hr]
      exact (Offloads.refl r).trans (ih hstore)
    · rw [if_neg hr, if_neg hr]
      have hitem := Offloads.incorporate hstore item logIndex nowMs r.2
      exact hitem.trans (ih (by rw [hitem.store]; exact hstore))

lemma ShardSmInner.apply_appends {inline : InlineMap} (hstore : s.inlineStore = some inline)
    {e : Applied} (he : e.cmd.appends = true) :
    ∃ ds batch, (s.apply e).deltas = s.deltas ++ ds ∧
      (s.apply e).inlineStore = some (inline.putMany batch) ∧
      List.Forall₂ Filed ds (s.records e) ∧
      (∀ put ∈ inlinePuts (s.records e), put ∈ batch) ∧
      ∀ put ∈ batch, put.1 ∈ e.cmd.chunkKeys ∨ put ∈ inlinePuts (s.records e) := by
  have hsome : s.inlineStore.isSome = true := by rw [hstore]; rfl
  have hflush : ∀ (r : ShardSmInner × InlineBatch) (ps : DeltaRecord) (chunks : List Key32),
      Offloads (s, []) r ps chunks →
      ∃ ds batch, (r.1.flushInlineBatch r.2).deltas = s.deltas ++ ds ∧
        (r.1.flushInlineBatch r.2).inlineStore = some (inline.putMany batch) ∧
        List.Forall₂ Filed ds ps ∧ (∀ put ∈ inlinePuts ps, put ∈ batch) ∧
        ∀ put ∈ batch, put.1 ∈ chunks ∨ put ∈ inlinePuts ps := by
    intro r ps chunks h
    obtain ⟨ds, hds, hfiled⟩ := h.deltas
    obtain ⟨batch, hbatch, hputs, honly⟩ := h.batch
    refine ⟨ds, batch, hds, ?_, hfiled, hputs, honly⟩
    rw [flushInlineBatch, h.store, hbatch, hstore]
    rfl
  obtain ⟨cmd, logIndex, nowMs⟩ := e
  cases cmd with
  | appendDelta args => exact hflush _ _ _ (Offloads.appendDeltaInner hsome args logIndex [])
  | chunkAndDelta args newChunks inlinePayloads =>
    exact hflush _ _ _
      (Offloads.chunkAndDelta hsome args newChunks inlinePayloads logIndex [])
  | incorporateIntent item =>
    have hitem := Offloads.applyItems [item] logIndex nowMs (r := (s, [])) hsome
    rw [flatMap_cons, flatMap_nil, append_nil] at hitem
    exact hflush _ _ _ hitem
  | incorporateIntents items =>
    exact hflush _ _ _ (Offloads.applyItems items logIndex nowMs (r := (s, [])) hsome)
  | _ => cases he

lemma ShardSmInner.reconstruct_congr {s s' : ShardSmInner} {d : Delta}
    (h : d.header.hasInlineData = true → s.inlineGet d.inlineKey = s'.inlineGet d.inlineKey) :
    s.reconstruct d = s'.reconstruct d := by
  rw [reconstruct, reconstruct]
  split
  · rename_i hinline
    have hget := h hinline.1
    rw [inlineGet, inlineGet, Delta.inlineKey] at hget
    rw [hget]
  · rfl

lemma lastPut_of_unique {batch : InlineBatch} {put : Key32 × Bytes} (hput : put ∈ batch)
    (hunique : ∀ other ∈ batch, other.1 = put.1 → other = put) :
    lastPut put.1 batch = some put.2 := by
  cases hlast : lastPut put.1 batch with
  | none => exact absurd rfl (lastPut_eq_none.1 hlast put hput)
  | some data => rw [← hunique _ (lastPut_mem hlast) rfl]

lemma Filed.read {d : Delta} {p : Nat × DeltaContent} (h : Filed d p)
    (hput : p.2.hasInlineData = true → s.inlineGet d.inlineKey = some p.2.payload) :
    (d.header.sequence, (s.reconstruct d).content) = p := by
  have hinline : d.header.hasInlineData = p.2.hasInlineData :=
    congrArg DeltaLabel.hasInlineData h.label
  have hpayload : (s.reconstruct d).payload.ciphertext = p.2.payload := by
    rw [reconstruct, hinline, h.ciphertext]
    cases hp : p.2.hasInlineData with
    | false => rw [if_neg (fun hc => Bool.false_ne_true hc.1), h.ciphertext, hp]; rfl
    | true =>
      have hget := hput hp
      rw [inlineGet, Delta.inlineKey] at hget
      rw [if_pos ⟨rfl, rfl⟩, hget]
  have hlabel : (s.reconstruct d).label = d.label := by
    rw [Delta.label, Delta.label, reconstruct_header]
  refine Prod.ext h.sequence ?_
  change ({ (s.reconstruct d).label with payload := _ } : DeltaContent) = p.2
  rw [hlabel, h.label, hpayload]

lemma Filed.inlineKey {d : Delta} {p : Nat × DeltaContent} (h : Filed d p) :
    d.inlineKey = (inlinePut p).1 := by
  have hkey : d.header.hashedKey = p.2.hashedKey := congrArg DeltaLabel.hashedKey h.label
  rw [Delta.inlineKey, h.sequence, hkey]
  rfl

lemma mem_inlinePuts {p : Nat × DeltaContent} (hp : p ∈ ps) (hinline : p.2.hasInlineData = true) :
    inlinePut p ∈ inlinePuts ps :=
  mem_map.2 ⟨p, mem_filter.2 ⟨hp, hinline⟩, rfl⟩

lemma exists_filed {ds : List Delta} (h : List.Forall₂ Filed ds ps) {d : Delta} (hd : d ∈ ds) :
    ∃ p ∈ ps, Filed d p := by
  induction h with
  | nil => exact absurd hd not_mem_nil
  | @cons d' p ds ps hfiled _ ih =>
    rcases mem_cons.1 hd with rfl | hd
    · exact ⟨p, mem_cons_self, hfiled⟩
    · obtain ⟨q, hq, hfiled⟩ := ih hd
      exact ⟨q, mem_cons_of_mem p hq, hfiled⟩

lemma read_filed {ds : List Delta} (h : List.Forall₂ Filed ds ps)
    (hget : ∀ p ∈ ps, p.2.hasInlineData = true →
      s.inlineGet (inlinePut p).1 = some p.2.payload) :
    ds.map (fun d => (d.header.sequence, (s.reconstruct d).content)) = ps := by
  induction h with
  | nil => rfl
  | @cons d p ds ps hfiled _ ih =>
    obtain ⟨hp, hps⟩ := forall_mem_cons.1 hget
    rw [map_cons, ih hps, hfiled.read fun hinline => by rw [hfiled.inlineKey]; exact hp hinline]

end

namespace ShardHost
variable {n n' : ShardHost} {id : ShardId} {s s' : ShardSmInner}

lemma retains_put {log : DeltaRecord} (h : (n.put id s' log).Retains owner d) :
    (owner = id ∧ d ∈ s'.deltas ∧ d.header.hasInlineData = true) ∨ owner ≠ id ∧
      n.Retains owner d := by
  obtain ⟨found, hfound, hd, hinline⟩ := h
  obtain ⟨rfl, rfl⟩ | ⟨hid, hfound⟩ := of_lookup_insert hfound
  · exact .inl ⟨rfl, hd, hinline⟩
  · exact .inr ⟨hid, found, hfound, hd, hinline⟩

lemma retains_of_put {log : DeltaRecord}
    (hkept : ∀ d ∈ s'.deltas, d.header.hasInlineData = true → n.Retains id d)
    (h : (n.put id s' log).Retains owner d) : n.Retains owner d := by
  rcases retains_put h with ⟨rfl, hmem, hin⟩ | ⟨_, hold⟩
  · exact hkept d hmem hin
  · exact hold

lemma Inv.put (h : n.Inv) {inline : InlineMap} {log : DeltaRecord}
    (hstore : s'.inlineStore = some inline) (hseq : s'.Sequenced)
    (hrecord : s'.readRecord <:+ log)
    (hothers : ∀ owner d, owner ≠ id → n.Retains owner d →
      inline.lookup d.inlineKey = n.inline.lookup d.inlineKey)
    (hdistinct : ∀ owner d owner' d', (n.put id s' log).Retains owner d →
      (n.put id s' log).Retains owner' d' → d.inlineKey = d'.inlineKey →
        owner = owner' ∧ d.header.sequence = d'.header.sequence) : (n.put id s' log).Inv := by
  have hinline : (n.put id s' log).inline = inline := by rw [ShardHost.put, hstore]; rfl
  refine ⟨forall_insert h.sequenced hseq, fun owner found hfound => ?_, hdistinct⟩
  rcases of_lookup_insert hfound with ⟨rfl, rfl⟩ | ⟨hne, hold⟩
  · have hview : (n.put owner found log).view found = found := by
      rw [view, hinline, ← hstore]
    have hlog : (n.put owner found log).log owner = log :=
      update_self _ _ _
    rw [hview, hlog]
    exact hrecord
  · have hlog : (n.put id s' log).log owner = n.log owner := update_of_ne hne _ _
    have hsame : ((n.put id s' log).view found).readRecord = (n.view found).readRecord := by
      refine map_congr_left fun d hd => ?_
      rw [reconstruct_congr fun hin => ?_]
      change (n.put id s' log).inline.lookup _ = n.inline.lookup _
      rw [hinline]
      exact hothers owner d hne ⟨found, hold, hd, hin⟩
    rw [hsame, hlog]
    exact h.record owner found hold

section
variable {e : Applied} {batch : InlineBatch} {ds : List Delta} {put : Key32 × Bytes}
  (hs : n.shards.lookup id = some s) (hfresh : n.Fresh id e)

include hs hfresh

section
variable (honly : ∀ put ∈ batch, put.1 ∈ e.cmd.chunkKeys ∨ put ∈ inlinePuts ((n.view s).records e))

include honly

/-- No put of the entry is at the key of a retained delta. -/
lemma Fresh.lookup_retained (hd : n.Retains owner d) :
    (n.inline.putMany batch).lookup d.inlineKey = n.inline.lookup d.inlineKey := by
  obtain ⟨hchunk, hput⟩ := hfresh.retained s hs owner d hd
  have hnone : lastPut d.inlineKey batch = none := by
    refine lastPut_eq_none.2 fun put hmem hkey => ?_
    rcases honly put hmem with hin | hin
    · exact hchunk (hkey ▸ hin)
    · exact hput (hkey ▸ mem_map.2 ⟨put, hin, rfl⟩)
  rw [InlineMap.lookup_putMany, hnone, Option.none_or]

/-- The put of a new delta is the only one at its key. -/
lemma Fresh.lookup_new (hput : put ∈ inlinePuts ((n.view s).records e)) (hmem : put ∈ batch) :
    (n.inline.putMany batch).lookup put.1 = some put.2 := by
  have hlast := lastPut_of_unique hmem fun other hother hkey => by
    rcases honly other hother with hin | hin
    · exact absurd (hkey ▸ hin) (hfresh.chunks s hs put.1 (mem_map.2 ⟨put, hput, rfl⟩))
    · exact inj_on_of_nodup_map (hfresh.own s hs) hin hput hkey
  rw [InlineMap.lookup_putMany, hlast, Option.some_or]

end

variable (hfiled : List.Forall₂ Filed ds ((n.view s).records e))

include hfiled

omit hs hfresh in
lemma exists_inlinePut (hd : d ∈ ds) (hin : d.header.hasInlineData = true) :
    ∃ p ∈ (n.view s).records e,
      p.2.hasInlineData = true ∧ d.inlineKey = (inlinePut p).1 ∧ d.header.sequence = p.1 := by
  obtain ⟨p, hp, hpfiled⟩ := exists_filed hfiled hd
  have hsame : d.header.hasInlineData = p.2.hasInlineData :=
    congrArg DeltaLabel.hasInlineData hpfiled.label
  exact ⟨p, hp, hsame ▸ hin, hpfiled.inlineKey, hpfiled.sequence⟩

lemma Fresh.key_ne (hd : d ∈ ds) (hin : d.header.hasInlineData = true) (hd' : n.Retains owner d') :
    d.inlineKey ≠ d'.inlineKey := by
  intro hkey
  obtain ⟨p, hp, hpin, hpkey, _⟩ := exists_inlinePut hfiled hd hin
  refine (hfresh.retained s hs owner d' hd').2 (mem_map.2 ⟨inlinePut p, mem_inlinePuts hp hpin, ?_⟩)
  rw [← hpkey, hkey]

lemma Fresh.sequence_eq (hd : d ∈ ds) (hin : d.header.hasInlineData = true) (hd' : d' ∈ ds)
    (hin' : d'.header.hasInlineData = true) (hkey : d.inlineKey = d'.inlineKey) :
    d.header.sequence = d'.header.sequence := by
  obtain ⟨p, hp, hpin, hpkey, hpseq⟩ := exists_inlinePut hfiled hd hin
  obtain ⟨q, hq, hqin, hqkey, hqseq⟩ := exists_inlinePut hfiled hd' hin'
  have hnodup : ((((n.view s).records e).filter fun p => p.2.hasInlineData).map
      (Prod.fst ∘ inlinePut)).Nodup := by
    rw [← List.map_map]
    exact hfresh.own s hs
  have hpq : p = q := inj_on_of_nodup_map hnodup (mem_filter.2 ⟨hp, hpin⟩)
    (mem_filter.2 ⟨hq, hqin⟩) (hpkey.symm.trans (hkey.trans hqkey))
  rw [hpseq, hqseq, hpq]

end

lemma Inv.append (h : n.Inv) (hs : n.shards.lookup id = some s) {e : Applied}
    (he : e.cmd.appends = true) (hfresh : n.Fresh id e) :
    (n.put id ((n.view s).apply e) (n.log id ++ (n.view s).records e)).Inv := by
  obtain ⟨ds, batch, hdeltas, hstore, hfiled, hputs, honly⟩ :=
    (n.view s).apply_appends rfl he
  have hkept : ∀ d ∈ s.deltas, d.header.hasInlineData = true → n.Retains id d :=
    fun d hd hin => ⟨s, hs, hd, hin⟩
  have hread : ((n.view s).apply e).readRecord =
      (n.view s).readRecord ++ (n.view s).records e := by
    rw [readRecord, hdeltas, map_append]
    congr 1
    · refine map_congr_left fun d hd => ?_
      rw [reconstruct_congr fun hin => ?_]
      rw [inlineGet, hstore]
      exact hfresh.lookup_retained hs honly (hkept d hd hin)
    · refine read_filed hfiled fun p hp hin => ?_
      have hput := mem_inlinePuts hp hin
      rw [inlineGet, hstore]
      exact hfresh.lookup_new hs honly hput (hputs _ hput)
  have hseq : (n.view s).Sequenced := ⟨(h.sequenced id s hs).sorted, (h.sequenced id s hs).bounds⟩
  have hsplit : ∀ {owner d}, (n.put id ((n.view s).apply e) (n.log id ++ (n.view s).records
      e)).Retains owner d → n.Retains owner d ∨ owner = id ∧ d ∈ ds ∧
        d.header.hasInlineData = true := by
    intro owner d hd
    rcases retains_put hd with ⟨rfl, hmem, hin⟩ | ⟨_, hd⟩
    · rw [hdeltas] at hmem
      exact (mem_append.1 hmem).imp (fun hmem => hkept d hmem hin) fun hmem => ⟨rfl, hmem, hin⟩
    · exact .inl hd
  refine h.put hstore (hseq.apply e) ?_
    (fun owner d _ hd => hfresh.lookup_retained hs honly hd) ?_
  · rw [hread]
    obtain ⟨before, hbefore⟩ := h.record id s hs
    exact ⟨before, by rw [← hbefore, append_assoc]⟩
  · intro owner d owner' d' hd hd' hkey
    rcases hsplit hd with hd | ⟨hid, hmem, hin⟩ <;>
      rcases hsplit hd' with hd' | ⟨hid', hmem', hin'⟩
    · exact h.distinct owner d owner' d' hd hd' hkey
    · exact absurd hkey.symm (hfresh.key_ne hs hfiled hmem' hin' hd)
    · exact absurd hkey (hfresh.key_ne hs hfiled hmem hin hd')
    · exact ⟨hid.trans hid'.symm, hfresh.sequence_eq hs hfiled hmem hin hmem' hin' hkey⟩

lemma Inv.prune (h : n.Inv) (hs : n.shards.lookup id = some s) {keys : List Key32}
    {boundary : Nat} (hstore : s'.inlineStore = some (n.inline.deleteMany keys))
    (hdeltas : s'.deltas = s.deltas.filter fun d => decide (boundary ≤ d.header.sequence))
    (htip : s'.tip = s.tip)
    (hkeys : ∀ key ∈ keys, ∃ d ∈ s.deltas, d.header.hasInlineData = true ∧
      d.header.sequence < boundary ∧ d.inlineKey = key) : (n.put id s' (n.log id)).Inv := by
  have hseq := h.sequenced id s hs
  have hmem : ∀ d ∈ s'.deltas, d ∈ s.deltas ∧ boundary ≤ d.header.sequence := by
    intro d hd
    rw [hdeltas] at hd
    exact ⟨(mem_filter.1 hd).1, of_decide_eq_true (mem_filter.1 hd).2⟩
  have hkept : ∀ d ∈ s'.deltas, d.header.hasInlineData = true → n.Retains id d :=
    fun d hd hin => ⟨s, hs, (hmem d hd).1, hin⟩
  -- A deleted key is that of a dropped delta, so of no other.
  have hframe : ∀ owner d, n.Retains owner d → (owner = id → boundary ≤ d.header.sequence) →
      (n.inline.deleteMany keys).lookup d.inlineKey = n.inline.lookup d.inlineKey := by
    intro owner d hd hle
    rw [InlineMap.lookup_deleteMany, if_neg]
    intro hin
    obtain ⟨d', hd', hin', hlt, hkey⟩ := hkeys _ hin
    obtain ⟨hid, hsame⟩ := h.distinct id d' owner d ⟨s, hs, hd', hin'⟩ hd hkey
    exact absurd (hle hid.symm) (by omega)
  have hsuffix : s'.deltas <:+ s.deltas := by
    rw [hdeltas, ← dropWhile_lt_of_sorted boundary hseq.sorted]
    exact dropWhile_suffix _
  refine h.put hstore ⟨hseq.sorted.sublist hsuffix.sublist, fun d hd => ?_⟩ ?_ ?_ ?_
  · rw [htip]
    exact hseq.bounds d (hmem d hd).1
  · have hread : s'.readRecord <:+ (n.view s).readRecord := by
      have hmap : s'.readRecord =
          s'.deltas.map fun d => (d.header.sequence, ((n.view s).reconstruct d).content) := by
        refine map_congr_left fun d hd => ?_
        rw [reconstruct_congr fun hin => ?_]
        rw [inlineGet, hstore]
        exact hframe id d (hkept d hd hin) fun _ => (hmem d hd).2
      rw [hmap]
      exact hsuffix.map _
    exact hread.trans (h.record id s hs)
  · exact fun owner d hne hd => hframe owner d hd fun hid => absurd hid hne
  · exact fun owner d owner' d' hd hd' => h.distinct owner d owner' d' (retains_of_put hkept hd)
      (retains_of_put hkept hd')

lemma Inv.control (h : n.Inv) (hs : n.shards.lookup id = some s)
    (hstore : s'.inlineStore = some n.inline) (hdeltas : s'.deltas = s.deltas)
    (htip : s'.tip = s.tip) : (n.put id s' (n.log id)).Inv := by
  have hnothing : s'.inlineStore = some (n.inline.deleteMany []) := hstore
  have hall : s'.deltas = s.deltas.filter fun d => decide (0 ≤ d.header.sequence) := by
    rw [hdeltas, filter_eq_self.2]
    exact fun d _ => decide_eq_true (Nat.zero_le _)
  exact h.prune hs hnothing hall htip fun _ hk => absurd hk not_mem_nil

lemma Inv.apply (h : n.Inv) {e : Applied} (hfresh : n.Fresh id e) : (n.apply id e).Inv := by
  rw [ShardHost.apply]
  split
  · exact h
  rename_i s hs
  by_cases ha : e.cmd.appends = true
  · exact h.append hs ha hfresh
  by_cases hc : e.cmd.isControl = true
  · have hnone : (n.view s).records e = [] := by
      obtain ⟨cmd, logIndex, nowMs⟩ := e
      cases cmd <;> first | rfl | exact absurd rfl ha
    obtain ⟨_, _, _, _, _, _, _, heq⟩ := (n.view s).applyCommandAt_control hc e.logIndex e.nowMs
    rw [hnone, append_nil, ShardSmInner.apply, heq]
    exact h.control hs rfl rfl rfl
  obtain ⟨cmd, logIndex, nowMs⟩ := e
  cases cmd with
  | advanceWatermark consumer position =>
    obtain ⟨boundary, hboundary⟩ := s.watermarks.gcBoundary_advance consumer position
    let v : ShardSmInner :=
      { n.view s with watermarks := s.watermarks.advance consumer position }
    obtain ⟨hdeltas, _, htip, _⟩ := pruneDeltasBelowGcBoundary_eq (s := v)
      (h.sequenced id s hs).sorted hboundary
    have hstore : v.pruneDeltasBelowGcBoundary.inlineStore = some (n.inline.deleteMany
        (((s.deltas.takeWhile fun d => decide (d.header.sequence < boundary)).filter fun d =>
          d.header.hasInlineData).map Delta.inlineKey)) := by
      rw [pruneDeltasBelowGcBoundary, hboundary]
      rfl
    have hnone : n.log id ++ (n.view s).records ⟨.advanceWatermark consumer position, logIndex,
        nowMs⟩ = n.log id := append_nil _
    rw [hnone]
    refine h.prune hs hstore hdeltas htip fun key hkey => ?_
    obtain ⟨d, hd, hk⟩ := mem_map.1 hkey
    obtain ⟨hd, hin⟩ := mem_filter.1 hd
    have hlt := all_eq_true.1 all_takeWhile d hd
    exact ⟨d, (takeWhile_sublist _).subset hd, hin, of_decide_eq_true hlt, hk⟩
  | _ => first | exact absurd rfl ha | exact absurd rfl hc

lemma Inv.truncateLog (h : n.Inv) (id : ShardId) : (n.truncateLog id).Inv := by
  rw [ShardHost.truncateLog]
  split
  · exact h
  rename_i s hs
  refine h.prune hs rfl rfl rfl fun key hkey => ?_
  obtain ⟨d, hd, hk⟩ := mem_map.1 hkey
  obtain ⟨hd, hcond⟩ := mem_filter.1 hd
  obtain ⟨hlt, hin⟩ := Bool.and_eq_true_iff.1 hcond
  exact ⟨d, hd, hin, of_decide_eq_true hlt, hk⟩

lemma Inv.moves (h : n.Inv) : { n with moving := reqs }.Inv :=
  ⟨h.sequenced, h.record, h.distinct⟩

lemma Inv.step (h : n.Inv) (hstep : Step Fresh n n') : n'.Inv := by
  cases hstep with
  | create id tenantId windowEntries windowMs hid =>
    have hnil : ∀ d ∈ [], d.header.hasInlineData = true → n.Retains id d := forall_mem_nil _
    exact h.put rfl ⟨.nil, forall_mem_nil _⟩ nil_suffix (fun _ _ _ _ => rfl)
      fun owner d owner' d' hd hd' =>
        h.distinct owner d owner' d' (retains_of_put hnil hd) (retains_of_put hnil hd')
  | entry id e hok => exact h.apply hok
  | truncate id => exact h.truncateLog id
  | read target mid rangeEnd hs hread => exact h.moves
  | move req hreq logIndex nowMs hok => exact (h.apply hok).moves

lemma Inv.run (h : n.Inv) (hrun : ReflTransGen (Step Fresh) n n') : n'.Inv := by
  induction hrun with
  | refl => exact h
  | tail _ hstep ih => exact ih.step hstep

lemma inv_new : Inv {} where
  sequenced _ _ hs := nomatch hs
  record _ _ hs := nomatch hs
  distinct _ _ _ _ hd := nomatch hd.choose_spec.1

/-- When entries are fresh, a read returns the payloads that were appended. -/
theorem inline_payloads_isolated (hrun : ReflTransGen (Step Fresh) {} n)
    (hs : n.shards.lookup id = some s) (hle : first ≤ last) :
    ∃ retained ds, retained <:+ n.log id ∧
      retained.map Prod.fst = s.deltas.map (fun d => d.header.sequence) ∧
      (n.view s).readDeltas first last = .ok ds ∧
      ds.map (fun d => (d.header.sequence, d.content)) =
        retained.filter fun p => decide (first ≤ p.1 ∧ p.1 ≤ last) := by
  have h := inv_new.run hrun
  have hseq : (n.view s).Sequenced := ⟨(h.sequenced id s hs).sorted, (h.sequenced id s hs).bounds⟩
  refine ⟨(n.view s).readRecord, _, h.record id s hs, map_map, hseq.readDeltas hle, ?_⟩
  rw [readRecord, List.filter_map, List.map_map]
  refine map_congr_left fun d _ => ?_
  change (((n.view s).reconstruct d).header.sequence, _) = _
  rw [reconstruct_header]

def freshHost : ShardHost :=
  put {} ⟨.replicate 16 0⟩ inlineShard []

def upperArgs : DeltaArgs :=
  { inlineArgs with hashedKey := .replicate 32 0x90 }

def oneInline : ShardHost :=
  freshHost.apply ⟨.replicate 16 0⟩ ⟨.appendDelta upperArgs, 1, 0⟩

lemma oneInline_run {ok : ShardHost → ShardId → Applied → Prop}
    (hok : ok freshHost ⟨.replicate 16 0⟩ ⟨.appendDelta upperArgs, 1, 0⟩) :
    ReflTransGen (Step ok) {} oneInline :=
  .tail (.single (.create ⟨.replicate 16 0⟩ ⟨.replicate 16 0⟩ 2 60000
    Finmap.notMem_empty)) (.entry _ _ hok)

lemma not_retains_freshHost : ¬freshHost.Retains owner d := by
  rintro ⟨s, hs, hd, _⟩
  obtain ⟨rfl, rfl⟩ | ⟨_, hs⟩ := of_lookup_insert hs
  · exact absurd hd not_mem_nil
  · exact nomatch hs

lemma fresh_oneInline :
    freshHost.Fresh ⟨.replicate 16 0⟩ ⟨.appendDelta upperArgs, 1, 0⟩ where
  retained _ _ _ _ hd := absurd hd not_retains_freshHost
  own s hs := by
    cases hs
    exact nodup_singleton _
  chunks _ _ _ _ := not_mem_nil

def splitReady : ShardHost :=
  oneInline.put ⟨.replicate 16 1⟩
    (.new ⟨.replicate 16 1⟩ ⟨.replicate 16 0⟩ 2 60000 (some oneInline.inline)) []

lemma retains_splitReady (h : splitReady.Retains owner d) :
    d.inlineKey = deriveInlineKey (.replicate 32 0x90) 1 := by
  rcases retains_put h with ⟨_, hmem, _⟩ | ⟨_, hold⟩
  · exact absurd hmem not_mem_nil
  · rcases retains_put hold with ⟨_, hmem, _⟩ | ⟨_, hnone⟩
    · rw [mem_singleton.1 hmem]
      rfl
    · exact absurd hnone not_retains_freshHost

def bothInline : ShardHost :=
  splitReady.apply ⟨.replicate 16 1⟩ ⟨.appendDelta inlineArgs, 1, 0⟩

lemma fresh_bothInline :
    splitReady.Fresh ⟨.replicate 16 1⟩ ⟨.appendDelta inlineArgs, 1, 0⟩ where
  retained s hs owner d hd := by
    cases hs
    rw [retains_splitReady hd]
    exact ⟨not_mem_nil, by decide⟩
  own s hs := by
    cases hs
    exact nodup_singleton _
  chunks _ _ _ _ := not_mem_nil

def bothPruned : ShardHost :=
  bothInline.apply ⟨.replicate 16 0⟩ ⟨.advanceWatermark "view" 2, 2, 0⟩

/-- The first shard prunes its delta, the second reads its own. -/
theorem inline_payloads_isolated_bothPruned : ∃ s ds,
    bothPruned.shards.lookup ⟨.replicate 16 1⟩ = some s ∧
      bothInline.inline.keys.card = 2 ∧ bothPruned.inline.keys.card = 1 ∧
      (bothPruned.view s).readDeltas 1 1 = .ok ds ∧
      ds.map (fun d => (d.header.sequence, d.content)) = [(1, inlineArgs.content)] := by
  have hready : ReflTransGen (Step Fresh) {} splitReady :=
    .tail (oneInline_run fresh_oneInline) (.create _ _ _ _ (by decide))
  have hrun : ReflTransGen (Step Fresh) {} bothPruned :=
    .tail (.tail hready (.entry _ _ fresh_bothInline))
      (.entry _ _ ⟨fun _ _ _ _ _ => ⟨not_mem_nil, not_mem_nil⟩, fun _ _ => nodup_nil,
        fun _ _ _ _ => not_mem_nil⟩)
  have hs : bothPruned.shards.lookup ⟨.replicate 16 1⟩ = some _ := rfl
  obtain ⟨retained, ds, hsuffix, hseq, hread, hds⟩ :=
    inline_payloads_isolated hrun hs (Nat.le_refl 1)
  refine ⟨_, ds, hs, by decide, by decide, hread, ?_⟩
  -- the log of the second shard has one record, and so has what is retained of it
  have hlength : retained.length = 1 := by
    have hsame := congrArg List.length hseq
    rw [length_map, length_map] at hsame
    exact hsame
  have hlog : bothPruned.log ⟨.replicate 16 1⟩ = [(1, inlineArgs.content)] := rfl
  rw [hlog] at hsuffix
  rw [hds, hsuffix.eq_of_length hlength]
  rfl

def upperDelta : Delta :=
  mkDelta ⟨.replicate 16 0⟩ 1 upperArgs false 1

def splitRead : ShardHost :=
  { splitReady with
    moving := splitReady.moving ++ ([upperDelta].filter fun d =>
      decide (InRange (.replicate 32 0x7F) (.replicate 32 0xFF) d.header.hashedKey)).map
        fun d => d.requestFor ⟨.replicate 16 1⟩ }

def splitMoved : ShardHost :=
  let req := upperDelta.requestFor ⟨.replicate 16 1⟩
  { splitRead.apply req.shardId ⟨.appendDelta (deltaArgsOf req), 1, 0⟩ with
    moving := splitRead.moving.erase req }

def splitThenPrune : ShardHost :=
  splitMoved.apply ⟨.replicate 16 0⟩ ⟨.advanceWatermark "view" 2, 2, 0⟩

lemma splitThenPrune_run : ReflTransGen (Step fun _ _ _ => True) {} splitThenPrune := by
  obtain ⟨s, hs, hread⟩ : ∃ s, splitReady.shards.lookup ⟨.replicate 16 0⟩ = some s ∧
      (splitReady.view s).readDeltas 1 1 = .ok [upperDelta] := ⟨_, rfl, rfl⟩
  have hready : ReflTransGen (Step fun _ _ _ => True) {} splitReady :=
    .tail (oneInline_run trivial) (.create _ _ _ _ (by decide))
  have hsplit : ReflTransGen (Step fun _ _ _ => True) {} splitRead :=
    .tail hready (.read _ _ _ hs hread)
  exact .tail (.tail hsplit (.move _ (mem_singleton.2 rfl) 1 0 trivial)) (.entry _ _ trivial)

/-- The copy was appended with a payload, and is read without. -/
theorem prune_deletes_copied_payload :
    ReflTransGen (Step fun _ _ _ => True) {} splitThenPrune ∧
      ∃ s ds, splitThenPrune.shards.lookup ⟨.replicate 16 1⟩ = some s ∧
        (splitThenPrune.log ⟨.replicate 16 1⟩).map (fun p => (p.1, p.2.payload)) =
          [(1, [1])] ∧
        (splitThenPrune.view s).readDeltas 1 1 = .ok ds ∧
        ds.map (fun d => (d.header.sequence, d.payload.ciphertext)) = [(1, [])] :=
  ⟨splitThenPrune_run, _, _, rfl, rfl, rfl, rfl⟩

end ShardHost

end Kiseki.Log
