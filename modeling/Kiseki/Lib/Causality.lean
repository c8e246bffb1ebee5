import Mathlib.Logic.Relation
import Mathlib.Order.Basic

namespace Causality

open List

/-- A receipt names the event whose message it takes in. -/
structure Event (N S : Type) where
  node : N
  stamp : S
  received : Option Nat

variable {N S : Type}

structure Direct (es : List (Event N S)) (i j : Nat) : Prop where
  lt : i < j
  edge : ∃ a b, es[i]? = some a ∧ es[j]? = some b ∧ (a.node = b.node ∨ b.received = some i)

def HappenedBefore (es : List (Event N S)) : Nat → Nat → Prop :=
  Relation.TransGen (Direct es)

section
variable [Preorder S]

/-- A new stamp is above its node's and the received one. -/
structure Above (es : List (Event N S)) (e : Event N S) : Prop where
  own : ∀ a ∈ es, a.node = e.node → a.stamp < e.stamp
  received : ∀ i, e.received = some i → ∃ a, es[i]? = some a ∧ a.stamp < e.stamp

/-- Runs whose events are stamped one after the other by that rule. -/
inductive Rising : List (Event N S) → Prop
  | nil : Rising []
  | snoc (h : Rising es) (he : Above es e) : Rising (es ++ [e])

variable {es : List (Event N S)} {a b : Event N S} {i j : Nat}

lemma Rising.above (h : Rising es) (hj : es[j]? = some b) : Above (es.take j) b := by
  induction h with
  | nil => cases hj
  | @snoc es e _ he ih =>
    rcases Nat.lt_or_ge j es.length with hlt | hge
    · rw [getElem?_append_left hlt] at hj
      rw [take_append_of_le_length (Nat.le_of_lt hlt)]
      exact ih hj
    · obtain ⟨hin, _⟩ := List.getElem?_eq_some_iff.1 hj
      rw [length_append, length_singleton] at hin
      obtain rfl : j = es.length := by omega
      rw [getElem?_concat_length] at hj
      obtain rfl := Option.some.inj hj
      rw [take_left]
      exact he

lemma Rising.own (h : Rising es) (hlt : i < j) (hi : es[i]? = some a) (hj : es[j]? = some b)
    (hnode : a.node = b.node) : a.stamp < b.stamp := by
  have htake : (es.take j)[i]? = some a := by
    rw [getElem?_take_of_lt hlt]
    exact hi
  exact (h.above hj).own a (mem_of_getElem? htake) hnode

lemma Rising.direct (h : Rising es) (hdirect : Direct es i j) (hi : es[i]? = some a)
    (hj : es[j]? = some b) : a.stamp < b.stamp := by
  obtain ⟨hlt, a', b', hi', hj', hedge⟩ := hdirect
  obtain rfl := Option.some.inj (hi.symm.trans hi')
  obtain rfl := Option.some.inj (hj.symm.trans hj')
  rcases hedge with hnode | hreceived
  · exact h.own hlt hi hj hnode
  · obtain ⟨a', ha', hstamp⟩ := (h.above hj).received i hreceived
    rw [getElem?_take_of_lt hlt] at ha'
    obtain rfl := Option.some.inj (hi.symm.trans ha')
    exact hstamp

lemma Rising.happenedBefore (h : Rising es) (hbefore : HappenedBefore es i j)
    (hi : es[i]? = some a) (hj : es[j]? = some b) : a.stamp < b.stamp := by
  induction hbefore generalizing b with
  | single hdirect => exact h.direct hdirect hi hj
  | tail _ hdirect ih =>
    obtain ⟨mid, _, hmid, _⟩ := hdirect.edge
    exact (ih hmid).trans (h.direct hdirect hmid hj)

lemma Rising.stamp_ne (h : Rising es)
    (hnodes : ∀ a ∈ es, ∀ b ∈ es, a.stamp = b.stamp → a.node = b.node) (hne : i ≠ j)
    (hi : es[i]? = some a) (hj : es[j]? = some b) : a.stamp ≠ b.stamp := by
  intro hstamp
  have hnode := hnodes a (mem_of_getElem? hi) b (mem_of_getElem? hj) hstamp
  rcases Nat.lt_or_gt_of_ne hne with hlt | hgt
  · exact (h.own hlt hi hj hnode).ne hstamp
  · exact (h.own hgt hj hi hnode.symm).ne hstamp.symm

end

end Causality
