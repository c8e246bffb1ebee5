import Kiseki.Gateway.Nfs

namespace Kiseki.Gateway
open Compositions Overlay Finmap List Nat CompositionStore Option

inductive NfsOp where
  | write (offset : Nat) (data : Bytes)
  | flush

def NfsOp.written : NfsOp → Option (Nat × Bytes)
  | .write offset data => some (offset, data)
  | .flush => none

def writesOf (ops : List NfsOp) : List (Nat × Bytes) := ops.filterMap NfsOp.written

structure Buffered where
  buf : Option Bytes
  landed : Option Bytes

def Buffered.step (s : Buffered) : NfsOp → Buffered
  | .write offset data => { s with buf := some (splice 0 offset data (s.buf.getD [])) }
  | .flush => { s with landed := s.landed.or (s.buf.filter fun buf => decide (buf ≠ [])) }

def buffered (ops : List NfsOp) : Buffered := ops.foldl Buffered.step ⟨none, none⟩

def CarriesData (ops : List NfsOp) : Prop := ∃ w ∈ writesOf ops, w.2 ≠ []

structure Orderly (ops : List NfsOp) : Prop where
  once : ∀ before after, ops = before ++ .flush :: after → CarriesData before → ¬CarriesData after
  inside : ∀ before offset after, ops = before ++ .write offset [] :: after →
    offset ≤ reach (writesOf before)

structure Whole (n : Nat) (ops : List NfsOp) : Prop extends Orderly ops where
  whole : CarriesData ops → ∀ i, i < n → Covers (writesOf ops) i

section
variable {ops : List NfsOp}

lemma writesOf_append (ops ops' : List NfsOp) :
    writesOf (ops ++ ops') = writesOf ops ++ writesOf ops' := filterMap_append

lemma buffered_append (op : NfsOp) : buffered (ops ++ [op]) = (buffered ops).step op := by
  rw [buffered, foldl_append]
  rfl

lemma Orderly.init (h : Orderly (ops ++ [op])) : Orderly ops := by
  constructor
  · intro before after heq hdata hlate
    apply h.once before (after ++ [op]) (by rw [heq, append_assoc]; rfl) hdata
    obtain ⟨w, hmem, hw⟩ := hlate
    exact ⟨w, by rw [writesOf_append]; exact mem_append_left _ hmem, hw⟩
  · intro before offset after heq
    exact h.inside before offset (after ++ [op]) (by rw [heq, append_assoc]; rfl)

variable {xs : Bytes}

lemma pwrites_append_singleton (ws : List (Nat × Bytes)) (w : Nat × Bytes) :
    pwrites 0 (ws ++ [w]) xs = pwrite 0 (pwrites 0 ws xs) w := by
  rw [pwrites, foldl_append]
  rfl

lemma pwrites_of_no_data (h : ¬CarriesData ops) : pwrites 0 (writesOf ops) xs = xs := by
  have hnone : ∀ w ∈ writesOf ops, w.2 = [] := fun w hw => by
    by_contra hdata
    exact h ⟨w, hw, hdata⟩
  generalize writesOf ops = ws at hnone
  induction ws with
  | nil => rfl
  | cons w ws ih =>
    obtain ⟨hw, hws⟩ := forall_mem_cons.1 hnone
    rw [pwrites, foldl_cons, pwrite, if_pos hw]
    exact ih hws

lemma reach_pos (h : CarriesData ops) : 0 < reach (writesOf ops) := by
  obtain ⟨w, hmem, hw⟩ := h
  have hcovers : Covers (writesOf ops) w.1 :=
    ⟨w, hmem, Nat.le_refl _, Nat.lt_add_of_pos_right (length_pos_iff.2 hw)⟩
  exact lt_of_le_of_lt (zero_le _) (lt_reach hcovers)

lemma Orderly.buffered (h : Orderly ops) :
    (Gateway.buffered ops).buf.getD [] = pwrites 0 (writesOf ops) [] ∧
      ∀ b, (Gateway.buffered ops).landed = some b → b = pwrites 0 (writesOf ops) [] ∧
        ∃ before after, ops = before ++ .flush :: after ∧ CarriesData before := by
  induction ops using reverseRecOn with
  | nil => exact ⟨rfl, nofun⟩
  | append_singleton ops op ih =>
    obtain ⟨hbuf, hlanded⟩ := ih h.init
    rw [buffered_append, writesOf_append]
    cases op with
    | flush =>
      have hsame : writesOf ops ++ writesOf [.flush] = writesOf ops := append_nil _
      rw [hsame]
      refine ⟨hbuf, fun b hb => ?_⟩
      rcases or_eq_some_iff.1 hb with hold | ⟨_, hnew⟩
      · obtain ⟨heq, before, after, hops, hdata⟩ := hlanded b hold
        exact ⟨heq, before, after ++ [.flush], by rw [hops, append_assoc]; rfl, hdata⟩
      · obtain ⟨hsome, hne⟩ := filter_eq_some_iff.1 hnew
        rw [hsome, getD_some] at hbuf
        refine ⟨hbuf, ops, [], rfl, ?_⟩
        by_contra hnone
        rw [pwrites_of_no_data hnone] at hbuf
        exact of_decide_eq_true hne hbuf
    | write offset data =>
      have hsnoc : writesOf ops ++ writesOf [.write offset data] =
          writesOf ops ++ [(offset, data)] := rfl
      rw [hsnoc, pwrites_append_singleton, pwrite]
      by_cases hdata : data = []
      · subst hdata
        have hinside := h.inside ops offset [] rfl
        have hlen : (pwrites 0 (writesOf ops) ([] : Bytes)).length = max 0 (reach (writesOf ops)) :=
          length_pwrites _
        rw [if_pos rfl]
        refine ⟨?_, fun b hb => ?_⟩
        · change splice 0 offset [] ((Gateway.buffered ops).buf.getD []) = _
          rw [hbuf]
          exact splice_nil (by rw [hlen]; omega)
        · obtain ⟨heq, before, after, hops, hbefore⟩ := hlanded b hb
          exact ⟨heq, before, after ++ [.write offset []],
            by rw [hops, append_assoc]; rfl, hbefore⟩
      · rw [if_neg hdata]
        refine ⟨?_, fun b hb => ?_⟩
        · change splice 0 offset data ((Gateway.buffered ops).buf.getD []) = _
          rw [hbuf]
        · -- data after a flush of data is excluded
          obtain ⟨_, before, after, hops, hbefore⟩ := hlanded b hb
          have hlate : CarriesData (after ++ [.write offset data]) := by
            refine ⟨(offset, data), ?_, hdata⟩
            rw [writesOf_append]
            exact mem_append_right _ (mem_singleton.2 rfl)
          exact absurd hlate (h.once before _ (by rw [hops, append_assoc]; rfl) hbefore)

lemma Whole.landed {content : Bytes} (h : Whole content.length ops) :
    (Gateway.buffered (ops ++ [.flush])).landed.getD content =
      pwrites 0 (writesOf ops) content := by
  obtain ⟨hbuf, hlanded⟩ := h.toOrderly.buffered
  rw [buffered_append]
  by_cases hdata : CarriesData ops
  · rw [pwrites_of_covers (h.whole hdata)]
    cases hold : (Gateway.buffered ops).landed with
    | some b =>
      simp only [Buffered.step, hold, some_or, getD_some]
      exact (hlanded b hold).1
    | none =>
      have hlen : (pwrites 0 (writesOf ops) ([] : Bytes)).length = max 0 (reach (writesOf ops)) :=
        length_pwrites _
      have hpos := reach_pos hdata
      cases hsome : (Gateway.buffered ops).buf with
      | none =>
        rw [hsome, getD_none] at hbuf
        rw [← hbuf, length_nil] at hlen
        omega
      | some b =>
        rw [hsome, getD_some] at hbuf
        have hne : b ≠ [] := by
          rintro rfl
          rw [← hbuf, length_nil] at hlen
          omega
        simp only [Buffered.step, hold, hsome, none_or, filter_some,
          decide_eq_true hne, if_true, getD_some]
        exact hbuf
  · rw [pwrites_of_no_data hdata]
    rw [pwrites_of_no_data hdata] at hbuf
    have hnone : (Gateway.buffered ops).landed = none := by
      cases hold : (Gateway.buffered ops).landed with
      | none => rfl
      | some b =>
        obtain ⟨_, before, after, hops, w, hmem, hw⟩ := hlanded b hold
        refine absurd ⟨w, ?_, hw⟩ hdata
        rw [hops, writesOf_append]
        exact mem_append_left _ hmem
    have hfilter : (Gateway.buffered ops).buf.filter (fun buf => decide (buf ≠ [])) = none := by
      cases hsome : (Gateway.buffered ops).buf with
      | none => rfl
      | some b =>
        rw [hsome, getD_some] at hbuf
        subst hbuf
        rfl
    simp only [Buffered.step, hnone, hfilter, none_or, getD_none]

end

def Serves (deriveChunkId : Bytes → ChunkId) (S : Set Bytes) (gw : InMemoryGateway)
    (tenantId : OrgId) (id : CompositionId) (content : Bytes) : Prop :=
  ∃ comp obj, gw.compositions.find id = some comp ∧ comp.tenantId = tenantId ∧
    Layout deriveChunkId S gw comp obj ∧ obj.Regular ∧ obj.content = content

structure NfsContext.Ready (deriveChunkId : Bytes → ChunkId) (S : Set Bytes) (ctx : NfsContext)
    (name : String) : Prop where
  writable : ∃ ns, ctx.gateway.compositions.writable ctx.namespaceId = .ok ns ∧
    ns.tenantId = ctx.tenantId
  addressed : Addressed deriveChunkId S ctx.gateway.chunks ctx.gateway.inlined
  settled : ctx.gateway.compositions.pendingNames.byName.lookup (ctx.namespaceId, name) = none

structure NfsContext.Binds (deriveChunkId : Bytes → ChunkId) (S : Set Bytes) (ctx : NfsContext)
    (name : String) (id : CompositionId) (content : Bytes) : Prop where
  entry : ∃ size, ctx.dirIndex.byName.lookup name = some ⟨handleOf id, id, size⟩
  handle : ctx.handles.lookup (handleOf id) = some (.file ctx.namespaceId ctx.tenantId id)
  row : Serves deriveChunkId S ctx.gateway ctx.tenantId id content
  named : ctx.gateway.compositions.lookupByName (ctx.namespaceId, name) = some id

structure NfsContext.Fresh (ctx : NfsContext) (id : CompositionId) : Prop where
  row : ctx.gateway.compositions.find id = none
  buffer : ctx.writeBuffers.lookup (handleOf id) = none

section
variable {deriveChunkId : Bytes → ChunkId} {S : Set Bytes} {gw gw' : InMemoryGateway}
  {ctx ctx' : NfsContext} {id : CompositionId} {content : Bytes}

lemma handleOf_inj {x y : CompositionId} (h : handleOf x = handleOf y) : x = y := by
  have hbytes := Vector.append_inj_left h
  cases x
  cases y
  cases hbytes
  rfl

lemma Serves.read (h : Serves deriveChunkId S gw tenantId id content)
    (hinj : Set.InjOn deriveChunkId S) (offset count : Nat) :
    gw.read tenantId id offset count = .ok ⟨content.extract offset (offset + count),
      decide (content.length ≤ offset + count)⟩ := by
  obtain ⟨comp, obj, hrow, rfl, hlayout, hregular, rfl⟩ := h
  exact (hlayout.read_iff hinj hrow).2 hregular offset count

lemma Serves.keep (h : Serves deriveChunkId S gw tenantId id content)
    (hkeeps : gw.Keeps deriveChunkId S gw')
    (hrow : gw'.compositions.find id = gw.compositions.find id) :
    Serves deriveChunkId S gw' tenantId id content := by
  obtain ⟨comp, obj, hfind, htenant, hlayout, hregular, hcontent⟩ := h
  exact ⟨comp, obj, hrow.trans hfind, htenant, hlayout.keep hkeeps, hregular, hcontent⟩

lemma NfsContext.Binds.readByName (h : ctx.Binds deriveChunkId S name id content)
    (hinj : Set.InjOn deriveChunkId S)
    (hbuffer : ctx.writeBuffers.lookup (handleOf id) = none)
    (parseUuid : String → Option CompositionId) (offset count : Nat) :
    ctx.readByName parseUuid name offset count =
      some (.ok ⟨content.extract offset (offset + count),
        decide (content.length ≤ offset + count)⟩) := by
  obtain ⟨size, hentry⟩ := h.entry
  obtain ⟨comp, obj, hrow, htenant, _⟩ := h.row
  have hread := h.row.read hinj offset count
  have hdirectory : ctx.handles.isDirectory (handleOf id) = false := by
    rw [HandleRegistry.isDirectory, h.handle]
  have hsymlink : ctx.handles.isSymlink (handleOf id) = false := by
    rw [HandleRegistry.isSymlink, h.handle]
  simp only [NfsContext.readByName, NfsContext.lookupByName, DirectoryIndex.lookup, hentry,
    hdirectory, hsymlink, Bool.false_eq_true, if_false]
  by_cases hsize : size > 0
  · simp only [hsize, if_true, NfsContext.read, hbuffer, HandleRegistry.resolve, h.handle, hread]
  · have hlookup : ctx.gateway.lookupObjectByName ctx.tenantId (ctx.namespaceId, name) =
        some id := by
      simp only [InMemoryGateway.lookupObjectByName, h.named, get_eq_ok.2 hrow, htenant, if_true]
    simp only [hsize, if_false, NfsContext.lookupReplicated, hlookup, HandleRegistry.fileHandle,
      NfsContext.read, hbuffer, HandleRegistry.resolve, lookup_insert, hread]

def nfsRow (st : CompositionStore) (key : NameKey) (named : Bool) (comp : Composition) :
    CompositionStore :=
  if named then { st with storage := st.storage.putWithName comp key } else st.putRow comp

/-- With the name a write goes to a drawn id. -/
structure NfsContext.Wrote (deriveChunkId : Bytes → ChunkId) (S : Set Bytes) (ctx : NfsContext)
    (name : String) (named : Bool) (data : Bytes) (id : CompositionId) (gw : InMemoryGateway) :
    Prop where
  serves : Serves deriveChunkId S gw ctx.tenantId id data
  keeps : ctx.gateway.Keeps deriveChunkId S gw
  others : ∀ x, x ≠ id → gw.compositions.find x = ctx.gateway.compositions.find x
  ready : ∀ ctx' : NfsContext, ctx'.gateway = gw → ctx'.namespaceId = ctx.namespaceId →
    ctx'.tenantId = ctx.tenantId → ctx'.Ready deriveChunkId S name
  names : gw.compositions.lookupByName (ctx.namespaceId, name) =
    if named then some id else ctx.gateway.compositions.lookupByName (ctx.namespaceId, name)

lemma NfsContext.Ready.write (h : ctx.Ready deriveChunkId S name)
    (hinj : Set.InjOn deriveChunkId S) (hdata : ∀ piece ∈ rawPieces data, piece ∈ S)
    (draw : Draw) (hfresh : ctx.gateway.compositions.find draw.id = none) (named : Bool) :
    ∃ gw, Gateway.write deriveChunkId ctx.gateway (ctx.writeRequest data
        (if named then some name else none) (if named then none else some draw.id)) draw =
          .ok (gw, ⟨draw.id, data.length⟩) ∧
      ctx.Wrote deriveChunkId S name named data draw.id gw := by
  obtain ⟨ns, hns, htenant⟩ := h.writable
  have hwritable : (ctx.gateway.compositions.namespace? ctx.namespaceId).any Namespace.readOnly =
      false := by
    rw [writable_ok hns, any_some]
    simp only [CompositionStore.writable, CompositionStore.writable_ok hns] at hns
    split at hns
    · cases hns
    · rename_i hro
      exact Bool.eq_false_iff.2 hro
  let req := ctx.writeRequest data (if named then some name else none)
    (if named then none else some draw.id)
  have hcreate : ∀ chunkIds size, createRow ctx.gateway.compositions req draw chunkIds size =
      .ok (nfsRow ctx.gateway.compositions (ctx.namespaceId, name) named
        (.new ns draw.id chunkIds [] size), draw.id) := by
    intro chunkIds size
    cases named with
    | true =>
      simp only [req, createRow, NfsContext.writeRequest, createWithName, if_true, hns]
      rfl
    | false =>
      obtain ⟨_, hstorage⟩ := find_eq_none.1 hfresh
      simp only [req, createRow, NfsContext.writeRequest, createAt, Bool.false_eq_true, if_false,
        writable_ok hns, hstorage]
      rfl
  have hwrite : ∃ gw comp, Gateway.write deriveChunkId ctx.gateway req draw =
      .ok (gw, ⟨draw.id, data.length⟩) ∧ comp.id = draw.id ∧ gw.compositions =
        nfsRow ctx.gateway.compositions (ctx.namespaceId, name) named comp := by
    simp only [Gateway.write, prepareWrite, chainOnBase, hcreate]
    simp only [req, NfsContext.writeRequest, hwritable, Bool.false_eq_true, if_false]
    exact ⟨_, _, rfl, rfl, rfl⟩
  obtain ⟨gw, comp, hok, hid, hstore⟩ := hwrite
  obtain ⟨row, ns', hns', hrow, hrowTenant, hadds, hlayout⟩ :=
    write_layout hinj h.addressed hdata rfl hfresh hok
  obtain rfl := some.inj ((writable_ok hns).symm.trans hns')
  have hfind := hadds.2
  rw [hrow] at hfind
  have hkeeps := (write_stores hinj h.addressed hdata hok).1
  have hnamespaces : gw.compositions.namespaces = ctx.gateway.compositions.namespaces := by
    rw [hstore]
    cases named <;> rfl
  have hpending : gw.compositions.pendingNames = ctx.gateway.compositions.pendingNames := by
    rw [hstore]
    cases named <;> rfl
  refine ⟨gw, hok, ⟨row, _, hfind, hrowTenant.trans htenant, hlayout, pairwise_singleton _ _,
    flatten_singleton⟩, hkeeps, fun x hx => hadds.1.others x (hrow ▸ hx), ?_, ?_⟩
  · intro ctx' hgateway hnamespaceId htenantId
    refine ⟨⟨ns, ?_, htenant.trans htenantId.symm⟩, hgateway ▸ hkeeps.addressed, ?_⟩
    · rw [hgateway, hnamespaceId]
      simp only [CompositionStore.writable, CompositionStore.namespace?, hnamespaces]
      exact hns
    · rw [hgateway, hnamespaceId, hpending]
      exact h.settled
  · rw [CompositionStore.lookupByName, hpending, hstore]
    cases named with
    | true =>
      rw [h.settled, ← hid]
      exact Storage.nameLookup_nameInsert
    | false => rfl

/-- The name leads to the old content until the first flush. -/
structure After (deriveChunkId : Bytes → ChunkId) (S : Set Bytes) (fh : FileHandle) (name : String)
    (content : Bytes) (s : Buffered) (ctx : NfsContext) : Prop where
  ready : ctx.Ready deriveChunkId S name
  buffer : ctx.writeBuffers.lookup fh = s.buf
  own : ∃ id, fh = handleOf id ∧ ctx.gateway.compositions.find id ≠ none
  unlanded : s.landed = none → ∃ id, fh = handleOf id ∧ ctx.Binds deriveChunkId S name id content ∧
    ctx.dirIndex.nameFor fh = some name ∧ ctx.lastFlushedLen.lookup fh = none
  landed : ∀ b, s.landed = some b → ∃ id n, fh ≠ handleOf id ∧
    ctx.Binds deriveChunkId S name id b ∧ ctx.writeBuffers.lookup (handleOf id) = none ∧
    ctx.dirIndex.nameFor fh = none ∧ ctx.lastFlushedLen.lookup fh = some n ∧ 0 < n

lemma After.bufferWrite (h : After deriveChunkId S fh name content s ctx) (offset : Nat)
    (data : Bytes) :
    After deriveChunkId S fh name content (s.step (.write offset data))
      (ctx.bufferWrite fh offset data) := by
  refine ⟨⟨h.ready.writable, h.ready.addressed, h.ready.settled⟩, ?_, h.own, ?_, ?_⟩
  · simp only [NfsContext.bufferWrite, lookup_insert, h.buffer]
    rfl
  · intro hlanded
    obtain ⟨id, hfh, hbinds, hname, hlast⟩ := h.unlanded hlanded
    exact ⟨id, hfh, ⟨hbinds.entry, hbinds.handle, hbinds.row, hbinds.named⟩, hname, hlast⟩
  · intro b hlanded
    obtain ⟨id, n, hne, hbinds, hbuffer, hname, hlast⟩ := h.landed b hlanded
    refine ⟨id, n, hne, ⟨hbinds.entry, hbinds.handle, hbinds.row, hbinds.named⟩, ?_, hname, hlast⟩
    exact (lookup_insert_of_ne _ hne.symm).trans hbuffer

lemma lookup_repointFile_of_ne {handles : HandleRegistry} (h : x ≠ fh) :
    (handles.repointFile fh id).lookup x = handles.lookup x := by
  rw [HandleRegistry.repointFile]
  split
  · exact lookup_insert_of_ne _ h
  · rfl

lemma flushWrites_write (name : Option String) (target : Option CompositionId)
    (hbuf : ctx.writeBuffers.lookup fh = some buf)
    (hgrows : ¬(buf = [] ∨ buf.length ≤ (ctx.lastFlushedLen.lookup fh).getD 0))
    (hname : ctx.dirIndex.nameFor fh = name)
    (htarget : NfsContext.flushTarget fh ((ctx.lastFlushedLen.lookup fh).getD 0) draw.id name =
      target)
    (hwrite : write deriveChunkId ctx.gateway (ctx.writeRequest buf name target) draw =
      .ok (gw, resp)) :
    ctx.flushWrites deriveChunkId fh draw = .ok ({ ctx with
        gateway := gw
        handles := HandleRegistry.repointFile (ctx.handles.insert (handleOf resp.compositionId)
          (.file ctx.namespaceId ctx.tenantId resp.compositionId)) fh resp.compositionId
        dirIndex := match name with
          | some name => ctx.dirIndex.insert name (handleOf resp.compositionId)
              resp.compositionId (resp.bytesWritten % 2 ^ 32)
          | none => ctx.dirIndex
        lastFlushedLen := ctx.lastFlushedLen.insert fh buf.length },
      some (handleOf resp.compositionId,
        ⟨resp.bytesWritten % 2 ^ 32, resp.compositionId⟩)) := by
  cases name <;> simp only [NfsContext.flushWrites, hbuf, hgrows, if_false, hname, htarget,
    NfsContext.writeWithOptionalId, hwrite, HandleRegistry.fileHandle]

lemma After.flush_named (h : After deriveChunkId S fh name content s ctx)
    (hinj : Set.InjOn deriveChunkId S) (hbuf : s.buf = some buf) (hne : buf ≠ [])
    (hlanded : s.landed = none) (hfresh : ctx.Fresh draw.id)
    (hdata : ∀ piece ∈ rawPieces buf, piece ∈ S) :
    ∃ ctx' newFh resp, ctx.flushWrites deriveChunkId fh draw = .ok (ctx', some (newFh, resp)) ∧
      After deriveChunkId S fh name content ⟨some buf, some buf⟩ ctx' := by
  obtain ⟨id, hfh, hbinds, hname, hlast⟩ := h.unlanded hlanded
  obtain ⟨gw, hwrite, hwrote⟩ := h.ready.write hinj hdata draw hfresh.row true
  have hbuffer := h.buffer.trans hbuf
  have hgrows : ¬(buf = [] ∨ buf.length ≤ (ctx.lastFlushedLen.lookup fh).getD 0) := by
    rw [hlast, getD_none, le_zero, length_eq_zero_iff, or_self_iff]
    exact hne
  have hflush := flushWrites_write (some name) none hbuffer hgrows hname rfl hwrite
  have hne' : draw.id ≠ id := by
    rintro rfl
    obtain ⟨_, _, hrow, _⟩ := hbinds.row
    rw [hfresh.row] at hrow
    cases hrow
  have hhandle : handleOf draw.id ≠ fh := fun heq => hne' (handleOf_inj (heq.trans hfh))
  refine ⟨_, _, _, hflush, ?_, hbuffer, ?_, nofun, ?_⟩
  · exact hwrote.ready _ rfl rfl rfl
  · refine ⟨id, hfh, ?_⟩
    change gw.compositions.find id ≠ none
    obtain ⟨row, _, hrow, _⟩ := hbinds.row
    rw [hwrote.others id hne'.symm, hrow]
    exact nofun
  · rintro _ ⟨⟩
    refine ⟨draw.id, buf.length, hhandle.symm, ⟨?_, ?_, hwrote.serves, hwrote.names⟩, hfresh.buffer,
      ?_,
      lookup_insert _, length_pos_iff.2 hne⟩
    · exact ⟨_, lookup_insert _⟩
    · exact (lookup_repointFile_of_ne hhandle).trans (lookup_insert _)
    · obtain ⟨size, hentry⟩ := hbinds.entry
      simp only [DirectoryIndex.nameFor, DirectoryIndex.insert, hentry]
      rw [lookup_insert_of_ne _ hhandle.symm, if_neg fun heq => hhandle (heq.symm.trans
        hfh.symm), hfh, lookup_erase]

lemma After.flush_unnamed (h : After deriveChunkId S fh name content s ctx)
    (hinj : Set.InjOn deriveChunkId S) (hbuf : s.buf = some buf) (hlanded : s.landed = some b)
    (hgrows : ¬(buf = [] ∨ buf.length ≤ (ctx.lastFlushedLen.lookup fh).getD 0))
    (hfresh : ctx.Fresh draw.id) (hdata : ∀ piece ∈ rawPieces buf, piece ∈ S) :
    ∃ ctx' newFh resp, ctx.flushWrites deriveChunkId fh draw = .ok (ctx', some (newFh, resp)) ∧
      After deriveChunkId S fh name content s ctx' := by
  obtain ⟨id, n, hne, hbinds, hbuffer, hname, hlast, hpos⟩ := h.landed b hlanded
  obtain ⟨gw, hwrite, hwrote⟩ := h.ready.write hinj hdata draw hfresh.row false
  have htarget : NfsContext.flushTarget fh ((ctx.lastFlushedLen.lookup fh).getD 0) draw.id none =
      some draw.id := by
    rw [NfsContext.flushTarget, hlast, getD_some, if_neg (ne_of_gt hpos)]
  have hflush := flushWrites_write none (some draw.id) (h.buffer.trans hbuf) hgrows hname htarget
    hwrite
  have hdrawn : ∀ {x}, ctx.gateway.compositions.find x ≠ none → draw.id ≠ x := by
    rintro x hx rfl
    exact hx hfresh.row
  obtain ⟨row, obj, hrow, hrest⟩ := hbinds.row
  have hid : draw.id ≠ id := hdrawn (by rw [hrow]; exact nofun)
  refine ⟨_, _, _, hflush, ?_, h.buffer, ?_, ?_, ?_⟩
  · exact hwrote.ready _ rfl rfl rfl
  · obtain ⟨own, hfh, hown⟩ := h.own
    refine ⟨own, hfh, ?_⟩
    change gw.compositions.find own ≠ none
    rw [hwrote.others own (hdrawn hown).symm]
    exact hown
  · intro hnone
    rw [hlanded] at hnone
    cases hnone
  · intro b' hb'
    obtain rfl := some.inj (hlanded.symm.trans hb')
    refine ⟨id, buf.length, hne, ⟨hbinds.entry, ?_, ?_, ?_⟩, hbuffer, hname, lookup_insert _, ?_⟩
    · rw [lookup_repointFile_of_ne hne.symm, lookup_insert_of_ne _ fun heq =>
        hid (handleOf_inj heq).symm]
      exact hbinds.handle
    · exact hbinds.row.keep hwrote.keeps (hwrote.others id hid.symm)
    · exact hwrote.names.trans hbinds.named
    · by_contra hzero
      exact hgrows (.inl (length_eq_zero_iff.1 (Nat.eq_zero_of_not_pos hzero)))

lemma flushWrites_skip (h : ∀ buf, ctx.writeBuffers.lookup fh = some buf →
      buf = [] ∨ buf.length ≤ (ctx.lastFlushedLen.lookup fh).getD 0) (draw : Draw) :
    ctx.flushWrites deriveChunkId fh draw = .ok (ctx, none) := by
  simp only [NfsContext.flushWrites]
  cases hbuf : ctx.writeBuffers.lookup fh with
  | none => rfl
  | some buf => exact if_pos (h buf hbuf)

lemma After.flush (h : After deriveChunkId S fh name content s ctx)
    (hinj : Set.InjOn deriveChunkId S) (hfresh : ctx.Fresh draw.id)
    (hdata : ∀ buf, ctx.writeBuffers.lookup fh = some buf → ∀ piece ∈ rawPieces buf, piece ∈ S) :
    ctx.flushWrites deriveChunkId fh draw = .ok (ctx, none) ∧
        After deriveChunkId S fh name content (s.step .flush) ctx ∨
      ∃ ctx' newFh resp, ctx.flushWrites deriveChunkId fh draw = .ok (ctx', some (newFh, resp)) ∧
        After deriveChunkId S fh name content (s.step .flush) ctx' ∧
        ∃ b, (s.step .flush).landed = some b := by
  rw [h.buffer] at hdata
  cases hlanded : s.landed with
  | none =>
    have hlast : ctx.lastFlushedLen.lookup fh = none := by
      obtain ⟨_, _, _, _, hlast⟩ := h.unlanded hlanded
      exact hlast
    by_cases hempty : ∀ buf, s.buf = some buf → buf = []
    · left
      have hfilter : s.buf.filter (fun buf => decide (buf ≠ [])) = none := by
        cases hbuf : s.buf with
        | none => rfl
        | some buf =>
          rw [hempty buf hbuf]
          rfl
      have hsame : s.step .flush = s := by
        simp only [Buffered.step, hfilter, or_none]
      rw [hsame]
      exact ⟨flushWrites_skip (fun buf hbuf => .inl (hempty buf (h.buffer.symm.trans hbuf))) draw,
        h⟩
    · right
      push Not at hempty
      obtain ⟨buf, hbuf, hne⟩ := hempty
      have hstep : s.step .flush = ⟨some buf, some buf⟩ := by
        simp only [Buffered.step, hlanded, hbuf, none_or, filter_some,
          decide_eq_true hne, if_true]
      obtain ⟨ctx', newFh, resp, hflush, hafter⟩ :=
        h.flush_named hinj hbuf hne hlanded hfresh (hdata buf hbuf)
      rw [hstep]
      exact ⟨ctx', newFh, resp, hflush, hafter, buf, rfl⟩
  | some b =>
    have hsame : s.step .flush = s := by
      simp only [Buffered.step, hlanded, some_or]
      rw [← hlanded]
    rw [hsame]
    by_cases hskip : ∀ buf, ctx.writeBuffers.lookup fh = some buf →
        buf = [] ∨ buf.length ≤ (ctx.lastFlushedLen.lookup fh).getD 0
    · exact .inl ⟨flushWrites_skip hskip draw, h⟩
    · right
      push Not at hskip
      obtain ⟨buf, hbuf, hgrows⟩ := hskip
      have hbuf' := h.buffer.symm.trans hbuf
      have hgrows' : ¬(buf = [] ∨ buf.length ≤ (ctx.lastFlushedLen.lookup fh).getD 0) := by
        rw [not_or, not_le]
        exact hgrows
      obtain ⟨ctx', newFh, resp, hflush, hafter⟩ :=
        h.flush_unnamed hinj hbuf' hlanded hgrows' hfresh (hdata buf hbuf')
      exact ⟨ctx', newFh, resp, hflush, hafter, b, hlanded⟩

end

section
variable (deriveChunkId : Bytes → ChunkId) (S : Set Bytes)

structure Committed (ctx : NfsContext) (name : String) (fh : FileHandle) (content : Bytes) :
    Prop where
  ready : ctx.Ready deriveChunkId S name
  binds : ∃ id, fh = handleOf id ∧ ctx.Binds deriveChunkId S name id content
  named : ctx.dirIndex.nameFor fh = some name
  buffer : ctx.writeBuffers.lookup fh = none
  flushed : ctx.lastFlushedLen.lookup fh = none

structure FlushesTo (fh : FileHandle) (ctx : NfsContext) (draw : Draw) : Prop where
  fresh : ctx.Fresh draw.id
  data : ∀ buf, ctx.writeBuffers.lookup fh = some buf → ∀ piece ∈ rawPieces buf, piece ∈ S

inductive Cycle (fh : FileHandle) (ctx : NfsContext) : List NfsOp → NfsContext → Prop where
  | start : Cycle fh ctx [] ctx
  | write (h : Cycle fh ctx ops ctx') :
      Cycle fh ctx (ops ++ [.write offset data]) (ctx'.bufferWrite fh offset data)
  | flush (h : Cycle fh ctx ops ctx') (hflush : FlushesTo S fh ctx' draw) :
      Cycle fh ctx (ops ++ [.flush]) (ctx'.afterFlush deriveChunkId fh draw)

inductive Closes (fh : FileHandle) (ctx : NfsContext) : NfsContext → Prop where
  | close (hflush : FlushesTo S fh ctx draw) : Closes fh ctx (ctx.opClose deriveChunkId fh draw)
  | commit (hflush : FlushesTo S fh ctx draw) :
      Closes fh ctx (ctx.replyCommit deriveChunkId fh draw)

end

section
variable {deriveChunkId : Bytes → ChunkId} {S : Set Bytes} {ctx ctx' ctx'' : NfsContext}
  {content : Bytes}

lemma Committed.after (h : Committed deriveChunkId S ctx name fh content) :
    After deriveChunkId S fh name content (buffered []) ctx := by
  obtain ⟨id, hfh, hbinds⟩ := h.binds
  refine ⟨h.ready, h.buffer, ⟨id, hfh, ?_⟩, fun _ => ⟨id, hfh, hbinds, h.named, h.flushed⟩, nofun⟩
  obtain ⟨_, _, hrow, _⟩ := hbinds.row
  rw [hrow]
  exact nofun

lemma Cycle.after (h : Cycle deriveChunkId S fh ctx ops ctx') (hinj : Set.InjOn deriveChunkId S)
    (hstart : Committed deriveChunkId S ctx name fh content) :
    After deriveChunkId S fh name content (buffered ops) ctx' := by
  induction h with
  | start => exact hstart.after
  | write _ ih =>
    rw [buffered_append]
    exact ih.bufferWrite _ _
  | flush _ hflush ih =>
    rw [buffered_append, NfsContext.afterFlush]
    rcases ih.flush hinj hflush.fresh hflush.data with ⟨hskip, hafter⟩ | ⟨_, _, _, hok, hafter, _⟩
    · rw [hskip]
      exact hafter
    · rw [hok]
      exact hafter

lemma After.readByName (h : After deriveChunkId S fh name content s ctx)
    (hinj : Set.InjOn deriveChunkId S) (released : FileHandle)
    (hreleased : s.landed = none → released = fh) (parseUuid : String → Option CompositionId)
    (offset count : Nat) :
    (ctx.releaseBuffer released).readByName parseUuid name offset count =
      some (.ok ⟨(s.landed.getD content).extract offset (offset + count),
        decide ((s.landed.getD content).length ≤ offset + count)⟩) := by
  cases hlanded : s.landed with
  | none =>
    obtain ⟨id, hfh, hbinds, _, _⟩ := h.unlanded hlanded
    have hbinds' : (ctx.releaseBuffer released).Binds deriveChunkId S name id content :=
      ⟨hbinds.entry, hbinds.handle, hbinds.row, hbinds.named⟩
    apply hbinds'.readByName hinj
    rw [hreleased hlanded, ← hfh]
    exact lookup_erase _ _
  | some b =>
    obtain ⟨id, _, _, hbinds, hbuffer, _⟩ := h.landed b hlanded
    have hbinds' : (ctx.releaseBuffer released).Binds deriveChunkId S name id b :=
      ⟨hbinds.entry, hbinds.handle, hbinds.row, hbinds.named⟩
    apply hbinds'.readByName hinj
    by_cases hid : handleOf id = released
    · rw [hid]
      exact lookup_erase _ _
    · exact (lookup_erase_ne hid).trans hbuffer

lemma Closes.readByName (h : Closes deriveChunkId S fh ctx' ctx'')
    (hinj : Set.InjOn deriveChunkId S) (hstart : Committed deriveChunkId S ctx name fh content)
    (hcycle : Cycle deriveChunkId S fh ctx ops ctx') (parseUuid : String → Option CompositionId)
    (offset count : Nat) :
    ctx''.readByName parseUuid name offset count =
      some (.ok ⟨((buffered (ops ++ [.flush])).landed.getD content).extract offset (offset + count),
        decide (((buffered (ops ++ [.flush])).landed.getD content).length ≤ offset + count)⟩) := by
  have hafter := hcycle.after hinj hstart
  rw [buffered_append]
  cases h with
  | close hflush =>
    rw [NfsContext.opClose]
    rcases hafter.flush hinj hflush.fresh hflush.data with
      ⟨hskip, hdone⟩ | ⟨_, newFh, _, hok, hdone, b, hlanded⟩
    · rw [hskip]
      exact hdone.readByName hinj fh (fun _ => rfl) parseUuid offset count
    · rw [hok]
      apply hdone.readByName hinj newFh
      intro hnone
      rw [hlanded] at hnone
      cases hnone
  | commit hflush =>
    rw [NfsContext.replyCommit]
    rcases hafter.flush hinj hflush.fresh hflush.data with
      ⟨hskip, hdone⟩ | ⟨_, _, _, hok, hdone, _⟩
    · rw [hskip]
      exact hdone.readByName hinj fh (fun _ => rfl) parseUuid offset count
    · rw [hok]
      exact hdone.readByName hinj fh (fun _ => rfl) parseUuid offset count

lemma NfsContext.Ready.writeNamed (h : ctx.Ready deriveChunkId S name)
    (hinj : Set.InjOn deriveChunkId S) (hdata : ∀ piece ∈ rawPieces content, piece ∈ S)
    (hfresh : ctx.Fresh draw.id) (hflushed : ctx.lastFlushedLen.lookup (handleOf draw.id) = none) :
    ∃ ctx' resp, ctx.writeNamed deriveChunkId name content draw =
        .ok (ctx', handleOf draw.id, resp) ∧
      Committed deriveChunkId S ctx' name (handleOf draw.id) content := by
  obtain ⟨gw, hwrite, hwrote⟩ := h.write hinj hdata draw hfresh.row true
  let ctx' : NfsContext := { ctx with
    gateway := gw
    handles := ctx.handles.insert (handleOf draw.id) (.file ctx.namespaceId ctx.tenantId draw.id)
    dirIndex := ctx.dirIndex.insert name (handleOf draw.id) draw.id (content.length % 2 ^ 32) }
  refine ⟨ctx', ⟨content.length % 2 ^ 32, draw.id⟩, ?_, ?_⟩
  · simp only [if_true] at hwrite
    simp only [NfsContext.writeNamed, NfsContext.writeWithOptionalId, hwrite]
    rfl
  · exact ⟨hwrote.ready _ rfl rfl rfl, ⟨draw.id, rfl, ⟨_, lookup_insert _⟩, lookup_insert _,
      hwrote.serves, hwrote.names⟩, lookup_insert _, hfresh.buffer, hflushed⟩

end

def emptyExport : NfsContext where
  gateway := emptyGateway
  handles := ∅
  dirIndex := ⟨∅, ∅⟩
  tenantId := ⟨.replicate 16 1⟩
  namespaceId := ⟨.replicate 16 2⟩
  writeBuffers := ∅
  lastFlushedLen := ∅

def exportedFile : NfsContext :=
  match emptyExport.writeNamed plainDerive "f" [97, 98, 99] (plainDraw 9) with
  | .ok (ctx, _) => ctx
  | .error _ => emptyExport

def fileHandleF : FileHandle := handleOf ⟨.replicate 16 9⟩

def buffering (data : Bytes) : NfsContext := exportedFile.bufferWrite fileHandleF 0 data

def closed (data : Bytes) : NfsContext :=
  (buffering data).opClose plainDerive fileHandleF (plainDraw 10)

end Kiseki.Gateway
