import Kiseki.Chunk.Store
import Kiseki.Lib.Erasure

namespace Kiseki.Fabric

open Erasure Kiseki.Chunk List Nat

section Shards

def shardSize (len data : Nat) : Nat := (len + data - 1) / data

/-- `ec::encode`. Its fragments are the data shards and then the parity shards. -/
def encode (rs : Coder UInt8) (data : Bytes) (dataShards parityShards : Nat) :
    Except ChunkError (List Bytes) :=
  if dataShards = 0 ∨ parityShards = 0 then .error .ecInvalidConfig
  else if data.length = 0 then .ok (List.replicate (dataShards + parityShards) [])
  else if rs.accepts dataShards parityShards then
    let parts := shards 0 (shardSize data.length dataShards) dataShards data
    match rs.parity dataShards parityShards parts with
    | none => .error .ecEncodeFailed
    | some extra => .ok (parts ++ extra)
  else .error .ecInvalidConfig

def decode (rs : Coder UInt8) (slots : List (Option Bytes)) (dataShards parityShards : Nat)
    (originalLen : Nat) : Except ChunkError Bytes :=
  if slots.length ≠ dataShards + parityShards then .error .ecInvalidConfig
  else if originalLen = 0 then .ok []
  else if slots.countP Option.isSome < dataShards then .error .chunkLost
  else if rs.accepts dataShards parityShards then
    match rs.reconstruct dataShards parityShards slots with
    | none => .error .chunkLost
    | some full => .ok (((full.take dataShards).filterMap id).flatten.take originalLen)
  else .error .ecInvalidConfig

variable {rs : Coder UInt8} {k m : Nat} {data : Bytes} {fragments : List Bytes}

lemma length_le_shardSize (hk : 0 < k) (len : Nat) : len ≤ k * shardSize len k := by
  have hdiv := div_add_mod (len + k - 1) k
  have hmod := mod_lt (len + k - 1) hk
  rw [shardSize]
  omega

def padded (data : Bytes) (k : Nat) : Bytes :=
  data ++ List.replicate (k * shardSize data.length k - data.length) 0

inductive Encoded (rs : Coder UInt8) (data : Bytes) (k m : Nat) : List Bytes → Prop
  | empty : data = [] → Encoded rs data k m (List.replicate (k + m) [])
  | coded : data ≠ [] → rs.accepts k m → rs.parity k m (shards 0 (shardSize data.length k) k data) =
      some extra → Encoded rs data k m (shards 0 (shardSize data.length k) k data ++ extra)

lemma encode_ok (h : encode rs data k m = .ok fragments) :
    0 < k ∧ 0 < m ∧ Encoded rs data k m fragments := by
  rw [encode] at h
  split at h
  · cases h
  · have hpos : 0 < k ∧ 0 < m := by omega
    split at h
    · rename_i hempty
      cases h
      exact ⟨hpos.1, hpos.2, .empty (length_eq_zero_iff.1 hempty)⟩
    · rename_i hempty
      split at h
      · rename_i haccepts
        dsimp only at h
        split at h
        · cases h
        · rename_i hparity
          cases h
          exact ⟨hpos.1, hpos.2, .coded (fun heq => hempty (heq ▸ rfl)) haccepts hparity⟩
      · cases h

lemma Encoded.length (h : Encoded rs data k m fragments) (hrs : rs.Lawful) :
    fragments.length = k + m := by
  cases h with
  | empty => exact length_replicate
  | coded _ _ hparity =>
    rw [length_append, length_shards, hrs.parity_length hparity]

lemma Encoded.size (h : Encoded rs data k m fragments) (hrs : rs.Lawful) (hk : 0 < k)
    (hbytes : bytes ∈ fragments) : bytes.length = shardSize data.length k := by
  cases h with
  | empty hempty =>
    rw [eq_of_mem_replicate hbytes, hempty, shardSize]
    exact (div_eq_of_lt (by simp only [length_nil]; omega)).symm
  | coded _ _ hparity =>
    rcases mem_append.1 hbytes with hmem | hmem
    · exact length_of_mem_shards hmem
    · exact hrs.parity_size (fun part hpart => length_of_mem_shards hpart) hparity bytes hmem

lemma shardSize_pos (hk : 0 < k) (hlen : 0 < len) : 0 < shardSize len k := by
  rw [shardSize]
  exact div_pos (by omega) hk

lemma Encoded.decode (h : Encoded rs data k m fragments) (hrs : rs.Lawful) (hk : 0 < k)
    (hagrees : Agrees slots fragments) (hlen : data = [] → len = 0) :
    Fabric.decode rs slots k m len =
      if len = 0 ∨ k ≤ slots.countP Option.isSome then .ok ((padded data k).take len)
      else .error .chunkLost := by
  have htotal : slots.length = k + m := hagrees.length.trans (h.length hrs)
  rw [Fabric.decode, if_neg (not_not.2 htotal)]
  by_cases hzero : len = 0
  · rw [if_pos hzero, if_pos (Or.inl hzero), hzero, take_zero]
  · rw [if_neg hzero]
    by_cases hfew : slots.countP Option.isSome < k
    · rw [if_pos hfew, if_neg]
      omega
    · rw [if_neg hfew, if_pos (Or.inr (Nat.le_of_not_lt hfew))]
      cases h with
      | empty hempty => exact absurd (hlen hempty) hzero
      | @coded extra hne haccepts hparity =>
        have hpos := shardSize_pos hk (length_pos_iff.2 hne)
        rw [if_pos haccepts, hrs.reconstruct haccepts (length_shards _) hpos
          (fun part hpart => length_of_mem_shards hpart) hparity hagrees (Nat.le_of_not_lt hfew)]
        have htake : (shards 0 (shardSize data.length k) k data ++ extra).take k =
            shards 0 (shardSize data.length k) k data := take_left' (length_shards _)
        simp only [← map_take, htake, filterMap_map, Function.id_comp, filterMap_some]
        rw [flatten_shards (length_le_shardSize hk data.length), padded]

end Shards

inductive EcStrategy where
  | replication (copies : Nat)
  | ec (data parity : Nat)
deriving DecidableEq, Repr

namespace EcStrategy

def totalFragments : EcStrategy → Nat
  | replication copies => copies
  | ec data parity => data + parity

def minFragmentsForRead : EcStrategy → Nat
  | replication _ => 1
  | ec data _ => data

end EcStrategy

structure FragmentRoute where
  peerId : NodeId
  fragmentIndex : Nat
  bytes : Bytes
deriving DecidableEq, Repr

structure FragmentResponse where
  fragmentIndex : Nat
  bytes : Bytes
deriving DecidableEq, Repr

inductive EcDistributionError where
  | placementSizeMismatch (placement expected : Nat)
  | chunk (err : ChunkError)
deriving DecidableEq, Repr

def shardRoutes (placement : List NodeId) (fragments : List Bytes) : List FragmentRoute :=
  (placement.zip fragments).mapIdx fun i x => ⟨x.1, i, x.2⟩

def encodeForPlacement (rs : Coder UInt8) (strategy : EcStrategy) (ciphertext : Bytes)
    (placement : List NodeId) : Except EcDistributionError (List FragmentRoute) :=
  if placement.length ≠ strategy.totalFragments then
    .error (.placementSizeMismatch placement.length strategy.totalFragments)
  else
    match strategy with
    | .replication _ => .ok (placement.map fun peerId => ⟨peerId, 0, ciphertext⟩)
    | .ec data parity =>
      match encode rs ciphertext data parity with
      | .error err => .error (.chunk err)
      | .ok fragments => .ok (shardRoutes placement fragments)

def slotsOf (total : Nat) (responses : List FragmentResponse) : List (Option Bytes) :=
  fill (List.replicate total none) (responses.map fun r => (r.fragmentIndex, r.bytes))

def decodeFromResponses (rs : Coder UInt8) (strategy : EcStrategy)
    (responses : List FragmentResponse) (originalLen : Nat) : Except EcDistributionError Bytes :=
  if responses.length < strategy.minFragmentsForRead then .error (.chunk .chunkLost)
  else
    match strategy with
    | .replication _ =>
      match responses with
      | [] => .error (.chunk .chunkLost)
      | first :: _ => .ok first.bytes
    | .ec data parity =>
      (decode rs (slotsOf (data + parity) responses) data parity originalLen).mapError .chunk

lemma decodeFromResponses_replication (rs : Coder UInt8) (n : Nat) (first : FragmentResponse)
    (rest : List FragmentResponse) (len : Nat) :
    decodeFromResponses rs (.replication n) (first :: rest) len = .ok first.bytes :=
  if_neg (not_lt.2 (succ_pos _))

section Routes
variable {rs : Coder UInt8} {k m : Nat} {ciphertext : Bytes} {placement : List NodeId}
  {routes : List FragmentRoute} {fragments : List Bytes}

lemma encodeForPlacement_replication
    (h : encodeForPlacement rs (.replication n) ciphertext placement = .ok routes) :
    placement.length = n ∧ routes = placement.map fun p => ⟨p, 0, ciphertext⟩ := by
  rw [encodeForPlacement] at h
  split at h
  · cases h
  · rename_i hlength
    cases h
    exact ⟨not_not.1 hlength, rfl⟩

lemma encodeForPlacement_ec
    (h : encodeForPlacement rs (.ec k m) ciphertext placement = .ok routes) :
    ∃ fragments, encode rs ciphertext k m = .ok fragments ∧ placement.length = k + m ∧
      routes = shardRoutes placement fragments := by
  rw [encodeForPlacement] at h
  split at h
  · cases h
  · rename_i hlength
    split at h
    · cases h
    · rename_i fragments hencode
      cases h
      exact ⟨fragments, hencode, not_not.1 hlength, rfl⟩

lemma encodeForPlacement_of_encode (h : encode rs ciphertext k m = .ok fragments)
    (hlength : placement.length = k + m) :
    encodeForPlacement rs (.ec k m) ciphertext placement =
      .ok (shardRoutes placement fragments) := by
  rw [encodeForPlacement, EcStrategy.totalFragments, if_neg (not_not.2 hlength), h]

lemma getElem?_shardRoutes {r : FragmentRoute} : (shardRoutes placement fragments)[i]? = some r ↔
    placement[i]? = some r.peerId ∧ r.fragmentIndex = i ∧ fragments[i]? = some r.bytes := by
  rw [shardRoutes, getElem?_mapIdx, Option.map_eq_some_iff]
  constructor
  · intro h
    obtain ⟨x, hx, rfl⟩ := h
    obtain ⟨hpeer, hbytes⟩ := getElem?_zip_eq_some.1 hx
    exact ⟨hpeer, rfl, hbytes⟩
  · intro h
    obtain ⟨hpeer, rfl, hbytes⟩ := h
    exact ⟨(r.peerId, r.bytes), getElem?_zip_eq_some.2 ⟨hpeer, hbytes⟩, rfl⟩

lemma find_shardRoutes (h : (shardRoutes placement fragments)[i]? = some r) :
    (shardRoutes placement fragments).find? (fun r => r.fragmentIndex = i) = some r := by
  obtain ⟨hi, hr⟩ := List.getElem?_eq_some_iff.1 h
  rw [find?_eq_some_iff_getElem]
  refine ⟨decide_eq_true (getElem?_shardRoutes.1 h).2.1, i, hi, hr, ?_⟩
  intro j hj
  have hindex := (getElem?_shardRoutes.1 (getElem?_eq_getElem (lt_trans hj hi))).2.1
  rw [Bool.not_eq_true', decide_eq_false_iff_not, hindex]
  exact Nat.ne_of_lt hj

section Responses
variable {responses : List FragmentResponse}

lemma agrees_slotsOf (hrs : rs.Lawful) (h : Encoded rs ciphertext k m fragments)
    (hresponses : ∀ r ∈ responses, fragments[r.fragmentIndex]? = some r.bytes) :
    Agrees (slotsOf (k + m) responses) fragments := by
  rw [slotsOf, ← h.length hrs]
  apply (agrees_replicate).fill
  intro x hx
  obtain ⟨r, hr, rfl⟩ := mem_map.1 hx
  exact hresponses r hr

lemma decodeFromResponses_sound (hrs : rs.Lawful)
    (hencode : encode rs ciphertext k m = .ok fragments)
    (hresponses : ∀ r ∈ responses, fragments[r.fragmentIndex]? = some r.bytes)
    (hlen : ciphertext = [] → len = 0)
    (h : decodeFromResponses rs (.ec k m) responses len = .ok bytes) :
    bytes = (padded ciphertext k).take len := by
  obtain ⟨hk, _, hencoded⟩ := encode_ok hencode
  rw [decodeFromResponses] at h
  split at h
  · cases h
  · rw [hencoded.decode hrs hk (agrees_slotsOf hrs hencoded hresponses) hlen] at h
    split at h
    · cases h
      rfl
    · cases h

lemma decodeFromResponses_ec (hrs : rs.Lawful)
    (hencode : encode rs ciphertext k m = .ok fragments)
    (hresponses : ∀ r ∈ responses, fragments[r.fragmentIndex]? = some r.bytes)
    (hnodup : (responses.map FragmentResponse.fragmentIndex).Nodup)
    (henough : k ≤ responses.length) (hlen : ciphertext = [] → len = 0) :
    decodeFromResponses rs (.ec k m) responses len = .ok ((padded ciphertext k).take len) := by
  obtain ⟨hk, _, hencoded⟩ := encode_ok hencode
  have hcount : (slotsOf (k + m) responses).countP Option.isSome = responses.length := by
    rw [slotsOf, countP_fill]
    · simp
    · rw [map_map]
      exact hnodup
    · intro x hx
      obtain ⟨r, hr, rfl⟩ := mem_map.1 hx
      obtain ⟨hlt, _⟩ := List.getElem?_eq_some_iff.1 (hresponses r hr)
      rw [getElem?_replicate, if_pos (hencoded.length hrs ▸ hlt)]
  rw [decodeFromResponses, EcStrategy.minFragmentsForRead, if_neg (not_lt.2 henough)]
  rw [hencoded.decode hrs hk (agrees_slotsOf hrs hencoded hresponses) hlen, hcount,
    if_pos (Or.inr henough)]
  rfl

lemma take_padded : (padded ciphertext k).take ciphertext.length = ciphertext := by
  rw [padded, take_left]

end Responses

end Routes

section RoundTrip
variable {rs : Coder UInt8} {k m : Nat}

lemma encode_total (hcodes : rs.Codes k m) (hk : 0 < k) (hm : 0 < m) (data : Bytes) :
    ∃ fragments, encode rs data k m = .ok fragments := by
  rw [encode, if_neg (by omega)]
  by_cases hempty : data.length = 0
  · exact ⟨_, if_pos hempty⟩
  · obtain ⟨extra, hextra⟩ := hcodes.parity (length_shards 0)
      (shardSize_pos hk (Nat.pos_of_ne_zero hempty)) (fun _ hpart => length_of_mem_shards hpart)
    rw [if_neg hempty, if_pos hcodes.accepts]
    dsimp only
    rw [hextra]
    exact ⟨_, rfl⟩

/-- Any `k` fragments give the data back; fewer are a lost chunk. -/
theorem ec_round_trip (hrs : rs.Lawful) (hcodes : 0 < k → 0 < m → k + m ≤ 256 → rs.Codes k m)
    (hk : 0 < k) (hm : 0 < m) (htotal : k + m ≤ 256) (data : Bytes) :
    ∃ fragments, encode rs data k m = .ok fragments ∧ fragments.length = k + m ∧
      (∀ slots, Agrees slots fragments → decode rs slots k m data.length =
        if data = [] ∨ k ≤ slots.countP Option.isSome then .ok data else .error .chunkLost) ∧
      ∀ placement, placement.length = k + m → ∃ routes,
        encodeForPlacement rs (.ec k m) data placement = .ok routes ∧
        ∀ responses : List FragmentResponse,
          (∀ r ∈ responses, ∃ route ∈ routes,
            route.fragmentIndex = r.fragmentIndex ∧ route.bytes = r.bytes) →
          (responses.map FragmentResponse.fragmentIndex).Nodup →
          decodeFromResponses rs (.ec k m) responses data.length =
            if k ≤ responses.length then .ok data else .error (.chunk .chunkLost) := by
  obtain ⟨fragments, hencode⟩ := encode_total (hcodes hk hm htotal) hk hm data
  obtain ⟨_, _, hencoded⟩ := encode_ok hencode
  have hlen : data = [] → data.length = 0 := congrArg length
  refine ⟨fragments, hencode, hencoded.length hrs, ?_, ?_⟩
  · intro slots hagrees
    rw [hencoded.decode hrs hk hagrees hlen, take_padded]
    simp only [length_eq_zero_iff]
  · intro placement hlength
    refine ⟨_, encodeForPlacement_of_encode hencode hlength, ?_⟩
    intro responses hresponses hnodup
    split
    · rename_i henough
      rw [decodeFromResponses_ec hrs hencode _ hnodup henough hlen, take_padded]
      intro r hr
      obtain ⟨route, hroute, hindex, hbytes⟩ := hresponses r hr
      obtain ⟨i, hi⟩ := mem_iff_getElem?.1 hroute
      obtain ⟨_, rfl, hfragment⟩ := getElem?_shardRoutes.1 hi
      rw [← hindex, ← hbytes]
      exact hfragment
    · rename_i hfew
      exact if_pos (Nat.lt_of_not_le hfew)

theorem ec_round_trip_mirror : ∃ fragments, encode (mirror UInt8) [7, 8] 1 2 = .ok fragments ∧
    ∀ slots, Agrees slots fragments → 1 ≤ slots.countP Option.isSome →
      decode (mirror UInt8) slots 1 2 2 = .ok [7, 8] := by
  obtain ⟨fragments, hencode, _, hdecode, _⟩ := ec_round_trip mirror_lawful
    (fun _ hm _ => mirror_codes UInt8 hm) (by decide) (by decide : 0 < 2) (by decide) [7, 8]
  refine ⟨fragments, hencode, fun slots hagrees henough => ?_⟩
  exact (hdecode slots hagrees).trans (if_pos (.inr henough))

/-- Data without bytes comes back from no fragment at all. -/
theorem empty_decoded_from_nothing : encode (mirror UInt8) [] 1 1 = .ok [[], []] ∧
    decode (mirror UInt8) [none, none] 1 1 0 = .ok [] := by
  decide

end RoundTrip

end Kiseki.Fabric
