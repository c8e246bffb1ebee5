import Kiseki.Gateway.Cluster
import Kiseki.Gateway.Read

namespace Kiseki.Gateway
open Compositions Intent Log Relation List

def Uninvolved (id : CompositionId) (op : DeltaOp) : Prop :=
  op.created ≠ some id ∧ op ≠ .delete id

/-- Made on a node, incorporated with the delta `op`, and deleted by a gateway. -/
inductive Lifecycle {N : Type} [DecidableEq N] (id : CompositionId) (op : DeltaOp)
    (Incorporable Readable : List DeltaOp → Prop) (c : Cluster N) : Cluster N → Prop where
  | ingress (k : N) {st : CompositionStore} (hfresh : ∀ d ∈ c.log, Uninvolved id d)
      (hingress : Ingress id (c.nodes k).store op st) :
      Lifecycle id op Incorporable Readable c (c.setStore k st)
  | incorporate (hincorporable : Incorporable c.log) :
      Lifecycle id op Incorporable Readable c (c.append op)
  | emitDelete (k : N) {comp : Composition} (hget : (c.nodes k).store.get id = .ok comp) :
      Lifecycle id op Incorporable Readable c (c.append (.delete id))
  | deleteRow (k : N) {st : CompositionStore} {result : DeleteResult}
      (hemitted : .delete id ∈ c.log) (hdelete : (c.nodes k).store.delete id = .ok (st, result)) :
      Lifecycle id op Incorporable Readable c (c.setStore k st)
  | background (hbackground : Background id (Uninvolved id) Readable c c') :
      Lifecycle id op Incorporable Readable c c'

def Undeleted (id : CompositionId) (log : List DeltaOp) : Prop := .delete id ∉ log

def Apart (id : CompositionId) (window : List DeltaOp) : Prop :=
  .delete id ∈ window → ∀ op ∈ window, ∀ b, op.bound = some b → b.2.1 ≠ id

/-- Nothing is left of the composition if the delete is consumed. -/
structure Node.Final (id : CompositionId) (name : Option NameKey) (log : List DeltaOp)
    (node : Node) : Prop where
  consumed : node.hydrator.lastAppliedCache ≤ log.length
  tidy : Tidy name id node.store
  gone : .delete id ∈ log.take node.hydrator.lastAppliedCache → Gone id node.store

structure Cluster.Final {N : Type} (id : CompositionId) (name : Option NameKey) (c : Cluster N) :
    Prop where
  named : Named name id c.log
  ordered : c.log.Pairwise fun a b => a = .delete id → b.created ≠ some id
  nodes : ∀ k, (c.nodes k).Final id name c.log

structure Cluster.Blank {N : Type} (id : CompositionId) (name : Option NameKey) (c : Cluster N) :
    Prop where
  log : ∀ op ∈ c.log, Uninvolved id op
  consumed : ∀ k, (c.nodes k).hydrator.lastAppliedCache ≤ c.log.length
  tidy : ∀ k, Tidy name id (c.nodes k).store
  gone : ∀ k, Gone id (c.nodes k).store

section
variable {N : Type} {c c' : Cluster N} {id : CompositionId} {op : DeltaOp}
  {name : Option NameKey}

lemma Cluster.Blank.final (h : c.Blank id name) : c.Final id name := by
  refine ⟨?_, ?_, fun k => ⟨h.consumed k, h.tidy k, fun _ => h.gone k⟩⟩
  · rintro op hop b hbound rfl
    exact absurd (DeltaOp.created_of_bound hbound) (h.log op hop).1
  · exact pairwise_of_forall_mem_list fun a _ b hb _ => (h.log b hb).1

lemma Cluster.Final.append (h : c.Final id name)
    (hnamed : ∀ b, op.bound = some b → b.2.1 = id → name = some b.1)
    (hordered : op.created = some id → .delete id ∉ c.log) : (c.append op).Final id name := by
  refine ⟨?_, ?_, ?_⟩
  · exact forall_mem_append.2 ⟨h.named, forall_mem_singleton.2 hnamed⟩
  · refine pairwise_append.2 ⟨h.ordered, pairwise_singleton _ _, ?_⟩
    rintro a ha b hb rfl hcreated
    obtain rfl := mem_singleton.1 hb
    exact hordered hcreated ha
  · intro k
    obtain ⟨hconsumed, htidy, hgone⟩ := h.nodes k
    refine ⟨?_, htidy, ?_⟩
    · rw [Cluster.append, length_append]
      exact Nat.le_add_right_of_le hconsumed
    · intro hdelete
      rw [Cluster.append, take_append_of_le_length hconsumed] at hdelete
      exact hgone hdelete

variable [DecidableEq N]

lemma Cluster.Final.setNode (h : c.Final id name) (k : N) {node : Node}
    (hnode : node.Final id name c.log) : (c.setNode k node).Final id name :=
  ⟨h.named, h.ordered, forall_setNode (fun _ node => node.Final id name c.log) hnode
    fun j _ => h.nodes j⟩

lemma Cluster.Final.setStore (h : c.Final id name) (k : N) {st : CompositionStore}
    (htidy : Tidy name id st)
    (hgone : .delete id ∈ c.log.take (c.nodes k).hydrator.lastAppliedCache → Gone id st) :
    (c.setStore k st).Final id name :=
  h.setNode k ⟨(h.nodes k).consumed, htidy, hgone⟩

lemma Cluster.Final.poll (h : c.Final id name) (k : N) (count : Nat)
    (earliestVisible : Option Nat) (hfirst : (c.nodes k).hydrator.lastAppliedCache ≤ first)
    (hapart : Apart id (c.window first count)) :
    (c.poll k first count earliestVisible).Final id name := by
  obtain ⟨ops, hydrator, st, heq, hlast, hhydrates, ⟨rest, hrest⟩, hwindow⟩ :=
    c.poll_cases count earliestVisible hfirst
  obtain ⟨hconsumed, htidy, hgone⟩ := h.nodes k
  have hlog : c.log = c.log.take (c.nodes k).hydrator.lastAppliedCache ++ (ops ++ rest) := by
    rw [hrest, take_append_drop]
  have hordered := h.ordered
  rw [hlog, pairwise_append, pairwise_append] at hordered
  rw [heq]
  apply h.setNode k
  refine ⟨?_, ?_, ?_⟩
  · have hlen := congrArg length hlog
    rw [length_append, length_append, length_take, Nat.min_eq_left hconsumed] at hlen
    dsimp only
    omega
  · apply htidy.hydrates hhydrates
    intro op hop
    exact h.named op (mem_of_mem_drop (hrest ▸ mem_append_left rest hop))
  · intro hdelete
    rw [hlast, take_add, ← hrest, take_left, mem_append] at hdelete
    rcases hdelete with hbefore | hnow
    · apply (hgone hbefore).hydrates htidy hhydrates
      intro op hop
      exact hordered.2.2 _ hbefore op (mem_append_left rest hop) rfl
    · obtain ⟨before, after, hops⟩ := append_of_mem hnow
      apply htidy.hydrates_delete hhydrates hops
      · intro op hop
        have hpair := hordered.2.1.1
        rw [hops, pairwise_append, pairwise_cons] at hpair
        exact hpair.2.1.1 op hop rfl
      · intro op hop
        exact hapart (hwindow _ hnow) op (hwindow op hop)

lemma Lifecycle.final (hstep : Lifecycle id op (Undeleted id) (Apart id) c c')
    (h : c.Final id (nameKey op)) : c'.Final id (nameKey op) := by
  cases hstep with
  | ingress k hfresh hingress =>
    apply h.setStore k ((h.nodes k).tidy.touches hingress.touches fun _ => rfl)
    intro hdelete
    exact absurd rfl (hfresh _ (mem_of_mem_take hdelete)).2
  | incorporate hincorporable =>
    apply h.append
    · intro b hbound _
      rw [nameKey, hbound]
      rfl
    · exact fun _ => hincorporable
  | emitDelete k hget => exact h.append nofun nofun
  | deleteRow k hemitted hdelete =>
    have htouches : Touches id (nameKey op) _ _ := delete_touches (h.nodes k).tidy hdelete
    apply h.setStore k ((h.nodes k).tidy.touches htouches fun _ => rfl)
    intro hconsumed
    rw [((h.nodes k).gone hconsumed).delete] at hdelete
    cases hdelete
  | background hbackground =>
    cases hbackground with
    | poll k first count earliestVisible hfirst hwindow hreadable =>
      exact h.poll k count earliestVisible hfirst hreadable
    | append d hforeign =>
      apply h.append
      · rintro b hbound rfl
        exact absurd (DeltaOp.created_of_bound hbound) hforeign.1
      · exact fun hcreated => absurd hcreated hforeign.1
    | other k hx htouches =>
      apply h.setStore k ((h.nodes k).tidy.touches htouches fun heq => absurd heq.symm hx)
      intro hconsumed
      have hgone := (h.nodes k).gone hconsumed
      exact ⟨hgone.toUndurable.touches htouches hx, hgone.toUnpending.touches htouches hx⟩

lemma final_of_run (hrun : ReflTransGen (Lifecycle id op (Undeleted id) (Apart id)) c c')
    (h : c.Final id (nameKey op)) : c'.Final id (nameKey op) := by
  induction hrun with
  | refl => exact h
  | tail _ hstep ih => exact hstep.final ih

/-- Under two conditions on incorporation and windows an acked delete is final. -/
theorem acked_delete_is_final (hblank : c.Blank id (nameKey op))
    (hrun : ReflTransGen (Lifecycle id op (Undeleted id) (Apart id)) c c')
    (hdelete : .delete id ∈ c'.log)
    (hconsumed : ∀ k, (c'.nodes k).hydrator.lastAppliedCache = c'.log.length) (k : N) :
    (c'.nodes k).store.find id = none ∧
      ∀ key, (c'.nodes k).store.lookupByName key ≠ some id := by
  have hfinal := final_of_run hrun hblank.final
  have hgone : Gone id (c'.nodes k).store := by
    apply (hfinal.nodes k).gone
    rw [hconsumed k, take_length]
    exact hdelete
  exact ⟨hgone.find, hgone.lookupByName⟩

end

def twoNodes : Cluster Bool where
  nodes _ := ⟨⟨⟨.replicate 16 1⟩, 0, false, 3, 16⟩, emptyGateway.compositions⟩
  log := []

def objectId : CompositionId := ⟨.replicate 16 9⟩

def objectCreate : DeltaOp :=
  .create objectId ⟨.replicate 16 2⟩ 1 none (some []) (some ⟨0, 0, 0⟩) [plainDerive [120]]

lemma twoNodes_blank : twoNodes.Blank objectId (nameKey objectCreate) := by
  have hempty : ∀ (key : NameKey), (∅ : Finmap fun _ : NameKey => CompositionId).lookup key ≠
      some objectId := fun _ => nofun
  refine ⟨nofun, fun _ => Nat.le_refl 0, fun _ => ?_, fun _ => ?_⟩
  · exact ⟨nofun, nofun, fun key hkey => absurd hkey (hempty key), nofun⟩
  · exact ⟨⟨rfl, hempty⟩, ⟨rfl, nofun⟩⟩

def withObject (st : CompositionStore) : CompositionStore :=
  match createRow st (plainWrite [120]) (plainDraw 9) [plainDerive [120]] 1 with
  | .ok (st, _) => st
  | .error _ => st

def withoutObject (st : CompositionStore) : CompositionStore :=
  match st.delete objectId with
  | .ok (st, _) => st
  | .error _ => st

def pollBoth (c : Cluster Bool) (first : Nat) : Cluster Bool :=
  (c.poll true first 2 none).poll false first 2 none

def objectPut : Cluster Bool := twoNodes.setStore true (withObject emptyGateway.compositions)

lemma ingress_objectPut {Incorporable Readable : List DeltaOp → Prop} :
    Lifecycle objectId objectCreate Incorporable Readable twoNodes objectPut := by
  have hrow : createRow emptyGateway.compositions (plainWrite [120]) (plainDraw 9)
      [plainDerive [120]] 1 = .ok (withObject emptyGateway.compositions, objectId) := rfl
  exact .ingress true nofun (.write rfl hrow)

lemma pollBoth_background {Foreign : DeltaOp → Prop} {Readable : List DeltaOp → Prop}
    {c : Cluster Bool} {first : Nat}
    (h : ∀ k, (c.nodes k).hydrator.lastAppliedCache = first ∧
      (c.nodes k).hydrator.batchWindow = 16)
    (hreadable : Readable (c.window first 2)) :
    Background objectId Foreign Readable c (c.poll true first 2 none) ∧
      Background objectId Foreign Readable (c.poll true first 2 none) (pollBoth c first) := by
  have hother : (c.poll true first 2 none).nodes false = c.nodes false :=
    Cluster.nodes_setNode_of_ne (by decide)
  refine ⟨.poll true first 2 none (by rw [(h true).1]) ?_ hreadable,
    .poll false first 2 none ?_ ?_ hreadable⟩
  · rw [(h true).1, (h true).2]
    omega
  · rw [hother, (h false).1]
  · rw [hother, (h false).1, (h false).2]
    omega

lemma run_pollBoth {Incorporable Readable : List DeltaOp → Prop} {c : Cluster Bool} {first : Nat}
    (h : ∀ k, (c.nodes k).hydrator.lastAppliedCache = first ∧
      (c.nodes k).hydrator.batchWindow = 16)
    (hreadable : Readable (c.window first 2)) :
    ReflTransGen (Lifecycle objectId objectCreate Incorporable Readable) c
      (pollBoth c first) := by
  obtain ⟨hfirst, hsecond⟩ := pollBoth_background h hreadable
  exact .tail (.single (.background hfirst)) (.background hsecond)

def incorporatedFirst : Cluster Bool := pollBoth (objectPut.append objectCreate) 0

def thenDeleted : Cluster Bool :=
  pollBoth ((incorporatedFirst.append (.delete objectId)).setStore true
    (withoutObject (incorporatedFirst.nodes true).store)) 1

lemma run_thenDeleted :
    ReflTransGen (Lifecycle objectId objectCreate (Undeleted objectId) (Apart objectId))
      twoNodes thenDeleted := by
  have hincorporable : Undeleted objectId objectPut.log := not_mem_nil
  have hcreate : Apart objectId ((objectPut.append objectCreate).window 0 2) :=
    fun hmem => absurd hmem (by decide)
  have hdelete : (incorporatedFirst.nodes true).store.delete objectId =
      .ok (withoutObject (incorporatedFirst.nodes true).store, .removed [plainDerive [120]]) := rfl
  have hget : (incorporatedFirst.nodes true).store.get objectId = .ok _ := rfl
  refine .trans (.tail (.single ingress_objectPut) (.incorporate hincorporable)) ?_
  refine .trans (run_pollBoth (by decide) hcreate) ?_
  refine .head (.emitDelete true hget) (.head (.deleteRow true ?_ hdelete) ?_)
  · exact mem_append_right _ (mem_singleton_self _)
  · apply run_pollBoth (by decide)
    intro _ op hop
    obtain rfl := mem_singleton.1 hop
    exact nofun

theorem acked_delete_is_final_in_order :
    .delete objectId ∈ thenDeleted.log ∧ (thenDeleted.nodes false).store.find objectId = none :=
  ⟨by decide, (acked_delete_is_final twoNodes_blank run_thenDeleted (by decide)
    (fun k => by cases k <;> rfl) false).1⟩

def deletedFirst : Cluster Bool :=
  pollBoth (((objectPut.append (.delete objectId)).setStore true
    (withoutObject (withObject emptyGateway.compositions))).append objectCreate) 0

/-- A delete acked before its create is incorporated is undone. -/
theorem deleted_object_returns :
    twoNodes.Blank objectId (nameKey objectCreate) ∧
      ReflTransGen (Lifecycle objectId objectCreate (fun _ => True) fun _ => True)
        twoNodes deletedFirst ∧
      objectCreate ∈ deletedFirst.log ∧ .delete objectId ∈ deletedFirst.log ∧
      (∀ k, (deletedFirst.nodes k).hydrator.lastAppliedCache = deletedFirst.log.length) ∧
      ∀ k, ((deletedFirst.nodes k).store.find objectId).isSome = true := by
  have hget : (objectPut.nodes true).store.get objectId = .ok _ := rfl
  have hdelete : (objectPut.nodes true).store.delete objectId =
      .ok (withoutObject (withObject emptyGateway.compositions), .removed [plainDerive [120]]) :=
        rfl
  refine ⟨twoNodes_blank, ?_, by decide, by decide, fun k => ?_, fun k => ?_⟩
  · refine .head ingress_objectPut (.head (.emitDelete true hget) ?_)
    refine .head (.deleteRow true (mem_singleton_self _) hdelete) ?_
    exact .head (.incorporate trivial) (run_pollBoth (by decide) trivial)
  · cases k <;> rfl
  · cases k <;> rfl

end Kiseki.Gateway
