import Kiseki.Gateway.Read
import Mathlib.Data.List.Sort

namespace Kiseki.Gateway
open Intent Compositions List MultipartPart

/-- The parts so far, in the order of their arrival. -/
inductive Arrived (uploadId : String) (nsId : NamespaceId) :
    CompositionStore → List MultipartPart → Prop
  | start {st st' : CompositionStore} (h : st.startMultipart uploadId nsId = .ok st') :
      Arrived uploadId nsId st' []
  | part (h : Arrived uploadId nsId st parts) (hpart : st.uploadPart uploadId part = .ok st') :
      Arrived uploadId nsId st' (parts ++ [part])
  | other (h : Arrived uploadId nsId st parts)
      (hsame : st'.multiparts.lookup uploadId = st.multiparts.lookup uploadId) :
      Arrived uploadId nsId st' parts

def latestParts : List MultipartPart → List MultipartPart
  | [] => []
  | part :: parts =>
    if part.partNumber ∈ parts.map partNumber then latestParts parts
    else part :: latestParts parts

def byNumber (parts : List MultipartPart) : List MultipartPart :=
  parts.insertionSort fun p q => p.partNumber ≤ q.partNumber

structure ListsParts (comp : Composition) (parts : List MultipartPart) : Prop where
  chunks : comp.chunks = (byNumber (latestParts parts)).map chunkId
  lens : comp.chunkPlaintextLens = (byNumber (latestParts parts)).map size
  size : comp.size = ((byNumber (latestParts parts)).map size).sum

structure InPartOrder (parts : List MultipartPart) : Prop where
  nodup : (parts.map partNumber).Nodup
  chunks : (byNumber parts).map chunkId = parts.map chunkId
  sizes : (byNumber parts).map size = parts.map size

section
variable {parts : List MultipartPart} {uploadId : String} {nsId : NamespaceId}
  {st : CompositionStore}

lemma Arrived.lookup (h : Arrived uploadId nsId st parts) :
    st.multiparts.lookup uploadId = some (⟨uploadId, .inProgress, parts⟩, nsId) := by
  induction h with
  | start h =>
    rw [CompositionStore.startMultipart] at h
    split at h
    · cases h
      exact Finmap.lookup_insert _
    · cases h
  | part _ hpart ih =>
    rw [CompositionStore.uploadPart, ih] at hpart
    cases hpart
    exact Finmap.lookup_insert _
  | other _ hsame ih => exact hsame.trans ih

lemma latestParts_sublist (parts : List MultipartPart) : (latestParts parts).Sublist parts := by
  induction parts with
  | nil => exact .slnil
  | cons part parts ih =>
    rw [latestParts]
    split
    · exact ih.cons part
    · exact ih.cons_cons part

lemma latestParts_eq_self_iff :
    latestParts parts = parts ↔ (parts.map partNumber).Nodup := by
  induction parts with
  | nil => simp [latestParts]
  | cons part parts ih =>
    rw [latestParts, map_cons, nodup_cons, ← ih]
    split
    · rename_i hagain
      refine iff_of_false ?_ fun h => h.1 hagain
      intro heq
      have hlength := (latestParts_sublist parts).length_le
      rw [heq, length_cons] at hlength
      omega
    · rename_i honce
      rw [cons_inj_right]
      exact ⟨fun h => ⟨honce, h⟩, And.right⟩

lemma latestParts_eq_self_of_length (h : (byNumber (latestParts parts)).length = parts.length) :
    latestParts parts = parts := by
  rw [byNumber, length_insertionSort] at h
  exact (latestParts_sublist parts).eq_of_length h

lemma map_capped_eq_iff :
    (parts.map fun part => min part.size CompositionStore.u32Max) = parts.map size ↔
      ∀ part ∈ parts, part.size ≤ CompositionStore.u32Max := by
  rw [map_inj_left]
  exact forall₂_congr fun part _ => min_eq_left_iff

/-- An upload lists its parts in order exactly if they arrived so, once. -/
theorem complete_multipart_lists_parts_iff {gw gw' : InMemoryGateway} {name : Option String}
    {id : CompositionId} {comp : Composition}
    (harrived : Arrived uploadId nsId gw.compositions parts)
    (hfresh : gw.compositions.find id = none)
    (hcomplete : completeMultipart gw uploadId name id = .ok gw')
    (hcomp : gw'.compositions.find id = some comp) :
    ListsParts comp parts ↔
      InPartOrder parts ∧ ∀ part ∈ parts, part.size ≤ CompositionStore.u32Max := by
  obtain ⟨_, _, ns, _, _, hrow⟩ := completeMultipart_addsRow harrived.lookup hfresh hcomplete
  obtain rfl := Option.some.inj (hcomp.symm.trans hrow)
  constructor
  · intro h
    have hlength := congrArg length h.chunks
    have hlatest : latestParts parts = parts := latestParts_eq_self_of_length (by
      simpa [Composition.new] using hlength.symm)
    obtain ⟨hchunks, hlens, hsize⟩ := h
    rw [hlatest] at hchunks hlens
    have hcapped : ∀ part ∈ parts, part.size ≤ CompositionStore.u32Max := by
      intro part hpart
      have hmem : part.size ∈ (byNumber parts).map size :=
        mem_map_of_mem ((mem_insertionSort _).2 hpart)
      rw [← hlens] at hmem
      obtain ⟨part', _, hsize'⟩ := mem_map.1 hmem
      exact hsize' ▸ min_le_right ..
    exact ⟨⟨latestParts_eq_self_iff.1 hlatest, hchunks.symm,
      hlens.symm.trans (map_capped_eq_iff.2 hcapped)⟩, hcapped⟩
  · rintro ⟨⟨hnodup, hchunks, hsizes⟩, hcapped⟩
    rw [← latestParts_eq_self_iff] at hnodup
    constructor
    · rw [hnodup, hchunks]
      rfl
    · rw [hnodup, hsizes]
      exact map_capped_eq_iff.2 hcapped
    · rw [hnodup, hsizes]
      rfl

end

def sizedPart (n : Nat) : MultipartPart := ⟨n, ⟨Vector.replicate 32 n.toUInt8⟩, n, true⟩

def completedId : CompositionId := ⟨.replicate 16 1⟩

theorem complete_multipart_lists_parts_ascending :
    ∃ (gw gw' : InMemoryGateway) (comp : Composition),
    Arrived "u" ⟨.replicate 16 2⟩ gw.compositions [sizedPart 1, sizedPart 2] ∧
      completeMultipart gw "u" none completedId = .ok gw' ∧
      gw'.compositions.find completedId = some comp ∧
      ListsParts comp [sizedPart 1, sizedPart 2] := by
  have hrun : ∃ (gw gw' : InMemoryGateway) (comp : Composition),
      Arrived "u" ⟨.replicate 16 2⟩ gw.compositions [sizedPart 1, sizedPart 2] ∧
        gw.compositions.find completedId = none ∧
        completeMultipart gw "u" none completedId = .ok gw' ∧
        gw'.compositions.find completedId = some comp :=
    ⟨{ emptyGateway with compositions := _ }, _, _,
      .part (.part (@Arrived.start _ _ emptyGateway.compositions _ rfl) rfl) rfl, rfl, rfl, rfl⟩
  obtain ⟨gw, gw', comp, harrived, hfresh, hcomplete, hcomp⟩ := hrun
  have hlists := (complete_multipart_lists_parts_iff harrived hfresh hcomplete hcomp).2
    ⟨⟨by decide, by decide, by decide⟩, by decide⟩
  exact ⟨gw, gw', comp, harrived, hcomplete, hcomp, hlists⟩

/-- Parts in another order, or uploaded again, stay as they came. -/
theorem complete_multipart_keeps_arrival : ∃ (gw gw' : InMemoryGateway) (comp : Composition),
    Arrived "u" ⟨.replicate 16 2⟩ gw.compositions [sizedPart 2, sizedPart 1, sizedPart 2] ∧
      completeMultipart gw "u" none completedId = .ok gw' ∧
      gw'.compositions.find completedId = some comp ∧
      comp.chunks = [(sizedPart 2).chunkId, (sizedPart 1).chunkId, (sizedPart 2).chunkId] ∧
      comp.size = 5 ∧ ¬ListsParts comp [sizedPart 2, sizedPart 1, sizedPart 2] := by
  refine ⟨{ emptyGateway with compositions := _ }, _, _, .part (.part (.part
    (@Arrived.start _ _ emptyGateway.compositions _ rfl) rfl) rfl) rfl, rfl, rfl, rfl, rfl, ?_⟩
  intro h
  exact absurd h.size (by decide)

end Kiseki.Gateway
