import Kiseki.Intent.Store

namespace Kiseki.Compositions
open Intent

structure CompositionId where
  uuid : Uuid
deriving DecidableEq, Repr

structure NamespaceId where
  uuid : Uuid
deriving DecidableEq, Repr

inductive ChunkRefLocation where
  | hot (poolName : String)
  | cold (poolName : String) (slabId : Uuid) (offsetInSlab length : Nat)
deriving DecidableEq, Repr

def ChunkRefLocation.poolName : ChunkRefLocation → String
  | .hot poolName => poolName
  | .cold poolName _ _ _ => poolName

structure Namespace where
  id : NamespaceId
  tenantId : OrgId
  shardId : ShardId
  readOnly : Bool
  versioningEnabled : Bool
deriving DecidableEq, Repr

abbrev NameKey := NamespaceId × String

def inlineDataThreshold : Nat := 4096

structure Composition where
  id : CompositionId
  tenantId : OrgId
  namespaceId : NamespaceId
  shardId : ShardId
  chunks : List ChunkId
  version : Nat
  size : Nat
  hasInlineData : Bool
  contentType : Option String
  chunkPlaintextLens : List Nat
  chunkLocations : List ChunkRefLocation
deriving DecidableEq, Repr

def isInlineData (chunks : List ChunkId) (size : Nat) : Bool :=
  chunks.isEmpty && decide (0 < size) && decide (size ≤ inlineDataThreshold)

def Composition.new (ns : Namespace) (id : CompositionId) (chunks : List ChunkId)
    (chunkPlaintextLens : List Nat) (size : Nat) : Composition where
  id := id
  tenantId := ns.tenantId
  namespaceId := ns.id
  shardId := ns.shardId
  chunks := chunks
  version := 1
  size := size
  hasInlineData := isInlineData chunks size
  contentType := none
  chunkPlaintextLens := chunkPlaintextLens
  chunkLocations := []

inductive CompositionError where
  | namespaceNotFound (id : NamespaceId)
  | compositionNotFound (id : CompositionId)
  | readOnlyNamespace (id : NamespaceId)
  | multipartNotFound (uploadId : String)
  | multipartNotFinalized (uploadId : String)
  | preconditionFailed (reason : String)
deriving DecidableEq, Repr

inductive DeleteResult where
  | removed (chunks : List ChunkId)
  | deleteMarker
deriving DecidableEq, Repr

inductive MultipartState where
  | inProgress
  | finalized
  | aborted
deriving DecidableEq, Repr

structure MultipartPart where
  partNumber : Nat
  chunkId : ChunkId
  size : Nat
  wasNew : Bool
deriving DecidableEq, Repr

structure MultipartUpload where
  uploadId : String
  state : MultipartState := .inProgress
  parts : List MultipartPart := []
deriving DecidableEq, Repr

section
variable (u : MultipartUpload)

/-- A part goes behind the parts that arrived before it, whatever its number. -/
def MultipartUpload.addPart (part : MultipartPart) : Option MultipartUpload :=
  if u.state = .inProgress then some { u with parts := u.parts ++ [part] } else none

def MultipartUpload.finalize : Option MultipartUpload :=
  if u.state = .inProgress then some { u with state := .finalized } else none

def MultipartUpload.totalSize : Nat := (u.parts.map MultipartPart.size).sum

end

end Kiseki.Compositions
