import Kiseki.Composition.Hydration
import Kiseki.Gateway.Write

namespace Kiseki.Gateway
open Compositions Intent Log Function CompositionStore List

structure Node where
  hydrator : CompositionHydrator
  store : CompositionStore

structure Cluster (N : Type) where
  nodes : N → Node
  log : List DeltaOp

/-- An operation that makes a row, with its intent's delta. -/
inductive Ingress (id : CompositionId) (st : CompositionStore) :
    DeltaOp → CompositionStore → Prop where
  | write {req : WriteRequest} {draw : Draw} (hasync : req.surface.isAsyncAckEligible = true)
      (hrow : createRow st req draw chunkIds size = .ok (st', id)) :
      Ingress id st
        (.create id req.namespaceId size req.name (some []) (some draw.seq) chunkIds) st'
  | completeMultipart {gw gw' : InMemoryGateway} {comp : Composition} (seq : PerspectiveSeq)
      (hst : gw.compositions = st)
      (hcomplete : completeMultipart gw uploadId name id = .ok gw')
      (hcomp : gw'.compositions.get id = .ok comp) :
      Ingress id st
        (.create id comp.namespaceId comp.size name (some comp.chunkPlaintextLens) (some seq)
          comp.chunks) gw'.compositions

def Cluster.append {N : Type} (c : Cluster N) (op : DeltaOp) : Cluster N :=
  { c with log := c.log ++ [op] }

def Cluster.window {N : Type} (c : Cluster N) (first count : Nat) : List DeltaOp :=
  (c.log.drop first).take count

section
variable {N : Type} [DecidableEq N]

def Cluster.setNode (c : Cluster N) (k : N) (node : Node) : Cluster N :=
  { c with nodes := update c.nodes k node }

def Cluster.setStore (c : Cluster N) (k : N) (st : CompositionStore) : Cluster N :=
  c.setNode k ⟨(c.nodes k).hydrator, st⟩

def Cluster.poll (c : Cluster N) (k : N) (first count : Nat) (earliestVisible : Option Nat) :
    Cluster N :=
  let (h, st, _) := (c.nodes k).hydrator.poll (c.nodes k).store
    (numbered first (c.window first count)) earliestVisible
  c.setNode k ⟨h, st⟩

/-- Polls, other appends, and work on other compositions. -/
inductive Background (id : CompositionId) (Foreign : DeltaOp → Prop)
    (Readable : List DeltaOp → Prop) (c : Cluster N) : Cluster N → Prop where
  | poll (k : N) (first count : Nat) (earliestVisible : Option Nat)
      (hfirst : (c.nodes k).hydrator.lastAppliedCache ≤ first)
      (hwindow : first + count ≤
        (c.nodes k).hydrator.lastAppliedCache + (c.nodes k).hydrator.batchWindow)
      (hreadable : Readable (c.window first count)) :
      Background id Foreign Readable c (c.poll k first count earliestVisible)
  | append (op : DeltaOp) (hforeign : Foreign op) : Background id Foreign Readable c (c.append op)
  | other (k : N) {x : CompositionId} {key : Option NameKey} {st : CompositionStore}
      (hx : id ≠ x) (htouches : Touches x key (c.nodes k).store st) :
      Background id Foreign Readable c (c.setStore k st)

end

def nameKey (op : DeltaOp) : Option NameKey := op.bound.map Prod.fst

section
variable {st st' : CompositionStore} {id : CompositionId} {name : Option NameKey}

lemma createAt_cases (h : st.createAt id nsId chunks size = .ok st') :
    st' = st ∨ ∃ ns, st' = st.putRow (.new ns id chunks [] size) := by
  simp only [createAt] at h
  split at h
  · split at h
    · exact .inl (Except.ok.inj h).symm
    · exact .inr ⟨_, (Except.ok.inj h).symm⟩
  · cases h

lemma createRow_touches {req : WriteRequest} {draw : Draw}
    (h : createRow st req draw chunkIds size = .ok (st', id)) :
    Touches id (req.name.map (req.namespaceId, ·)) st st' := by
  simp only [createRow] at h
  split at h
  · obtain ⟨hcreate, rfl⟩ := map_pair_ok h
    rcases createAt_cases hcreate with rfl | ⟨ns, rfl⟩
    · exact .refl
    · exact .single (.row _ rfl)
  · rename_i name _ hname
    rw [hname]
    split at h
    · obtain ⟨hcreate, rfl⟩ := map_pair_ok h
      obtain ⟨ns, _, rfl | rfl⟩ := createWithNameVolatile_ok hcreate
      · exact .tail (.tail (.single (.row (.new ns draw.id chunkIds [] size) rfl))
          (.bindName (req.namespaceId, name) rfl)) (.freeName (req.namespaceId, name))
      · exact .tail (.single (.overlayRow (.new ns draw.id chunkIds [] size) rfl))
          (.overlayName (req.namespaceId, name) (some draw.seq))
    · obtain ⟨hcreate, rfl⟩ := map_pair_ok h
      obtain ⟨ns, _, rfl⟩ := createWithName_ok hcreate
      exact .tail (.single (.row (.new ns draw.id chunkIds [] size) rfl))
        (.bindName (req.namespaceId, name) rfl)
  · split at h
    · obtain ⟨hcreate, rfl⟩ := map_pair_ok h
      obtain ⟨ns, _, rfl | rfl⟩ := createVolatile_ok hcreate
      · exact .single (.row _ rfl)
      · exact .single (.overlayRow _ rfl)
    · obtain ⟨hcreate, rfl⟩ := map_pair_ok h
      obtain ⟨ns, _, rfl⟩ := createWithLens_ok hcreate
      exact .single (.row _ rfl)

lemma completeMultipart_touches {gw gw' : InMemoryGateway} {comp : Composition}
    {name : Option String} (h : completeMultipart gw uploadId name id = .ok gw')
    (hcomp : gw'.compositions.get id = .ok comp) :
    Touches id (name.map (comp.namespaceId, ·)) gw.compositions gw'.compositions := by
  simp only [completeMultipart] at h
  cases hfinal : gw.compositions.finalizeMultipart uploadId id with
  | error e =>
    rw [hfinal] at h
    cases h
  | ok st =>
    rw [hfinal] at h
    have hrow : Touches id (name.map (comp.namespaceId, ·)) gw.compositions st := by
      simp only [finalizeMultipart] at hfinal
      split at hfinal
      · split at hfinal
        · obtain ⟨ns, _, rfl⟩ := createWithLens_ok hfinal
          exact .tail (.single (.uploads _)) (.row _ rfl)
        · cases hfinal
      · cases hfinal
    dsimp only at h
    split at h
    · cases h
    · cases h
      exact hrow
    · rename_i row name hget
      cases h
      have hfind : find { st with
          storage := st.storage.nameInsert (row.namespaceId, name) id } id = st.find id := by
        rw [find, find, Storage.get, Storage.nameInsert, Storage.compositions_bind]
        rfl
      have hsame := get_eq_ok.1 hcomp
      rw [hfind, get_eq_ok.1 hget] at hsame
      obtain rfl := Option.some.inj hsame
      exact .tail hrow (.bindName _ rfl)

lemma nameKey_create (name : Option String) :
    nameKey (.create id nsId size name lens seq chunkIds) = name.map (nsId, ·) := by
  cases name <;> rfl

lemma Ingress.touches (h : Ingress id st op st') : Touches id (nameKey op) st st' := by
  cases h with
  | write hasync hrow =>
    rw [nameKey_create]
    exact createRow_touches hrow
  | completeMultipart seq hst hcomplete hcomp =>
    rw [nameKey_create, ← hst]
    exact completeMultipart_touches hcomplete hcomp

end

section
variable {N : Type} [DecidableEq N] {c : Cluster N} {k : N} {node : Node}

@[simp] lemma Cluster.nodes_setNode_self : (c.setNode k node).nodes k = node := by
  simp only [setNode, update_self]

lemma Cluster.nodes_setNode_of_ne {j : N} (h : j ≠ k) :
    (c.setNode k node).nodes j = c.nodes j := by
  simp only [setNode, update_of_ne h]

lemma Cluster.forall_setNode (P : N → Node → Prop) {node : Node} (hk : P k node)
    (hothers : ∀ j, j ≠ k → P j (c.nodes j)) : ∀ j, P j ((c.setNode k node).nodes j) := by
  intro j
  by_cases hj : j = k
  · subst hj
    rw [nodes_setNode_self]
    exact hk
  · rw [nodes_setNode_of_ne hj]
    exact hothers j hj

lemma Cluster.poll_cases (c : Cluster N) (count : Nat) (earliestVisible : Option Nat)
    (hfirst : (c.nodes k).hydrator.lastAppliedCache ≤ first) :
    ∃ ops h st, c.poll k first count earliestVisible = c.setNode k ⟨h, st⟩ ∧
      h.lastAppliedCache = (c.nodes k).hydrator.lastAppliedCache + ops.length ∧
      Hydrates (c.nodes k).store ops st ∧
      ops <+: c.log.drop (c.nodes k).hydrator.lastAppliedCache ∧
      ∀ op ∈ ops, op ∈ c.window first count := by
  obtain ⟨n, hn, hsame, hlast, hhydrates⟩ := poll_hydrates (c.nodes k).hydrator (c.nodes k).store
    (c.window first count) earliestVisible hfirst
  let polled := (c.nodes k).hydrator.poll (c.nodes k).store (numbered first (c.window first count))
    earliestVisible
  refine ⟨(c.window first count).take n, polled.1, polled.2.1, rfl, ?_, hhydrates, ?_,
    fun op hop => mem_of_mem_take hop⟩
  · rw [hlast, length_take, Nat.min_eq_left hn]
  · cases n with
    | zero => exact nil_prefix
    | succ n =>
      obtain rfl := hsame (Nat.succ_pos n)
      apply IsPrefix.trans <;> apply take_prefix

end

end Kiseki.Gateway
