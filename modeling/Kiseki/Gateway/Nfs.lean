import Kiseki.Gateway.Read
import Kiseki.Lib.Overlay

namespace Kiseki.Gateway
open Compositions Overlay

abbrev FileHandle := Vector UInt8 32

def handleOf (id : CompositionId) : FileHandle :=
  (id.uuid ++ (Vector.replicate 16 0 : Uuid) : Vector UInt8 (16 + 16))

def placeholderId (fh : FileHandle) : CompositionId := ⟨(fh.take 16).cast (by decide)⟩

inductive HandleEntry where
  | pseudoRoot
  | root (namespaceId : NamespaceId) (tenantId : OrgId)
  | directory (namespaceId : NamespaceId) (tenantId : OrgId)
  | file (namespaceId : NamespaceId) (tenantId : OrgId) (compositionId : CompositionId)
  | symlink (namespaceId : NamespaceId) (tenantId : OrgId) (compositionId : CompositionId)
deriving DecidableEq, Repr

abbrev HandleRegistry := Finmap fun _ : FileHandle => HandleEntry

namespace HandleRegistry

section
variable (handles : HandleRegistry)

def fileHandle (namespaceId : NamespaceId) (tenantId : OrgId)
    (id : CompositionId) : HandleRegistry × FileHandle :=
  (handles.insert (handleOf id) (.file namespaceId tenantId id), handleOf id)

def resolve (fh : FileHandle) :
    Option (NamespaceId × OrgId × Option CompositionId) :=
  match handles.lookup fh with
  | some (.root ns tenant) | some (.directory ns tenant) => some (ns, tenant, none)
  | some (.file ns tenant id) | some (.symlink ns tenant id) => some (ns, tenant, some id)
  | some .pseudoRoot | none => none

def isDirectory (fh : FileHandle) : Bool :=
  match handles.lookup fh with
  | some (.root _ _) | some (.directory _ _) | some .pseudoRoot => true
  | _ => false

def isSymlink (fh : FileHandle) : Bool :=
  match handles.lookup fh with
  | some (.symlink _ _ _) => true
  | _ => false

def repointFile (fh : FileHandle) (id : CompositionId) :
    HandleRegistry :=
  match handles.lookup fh with
  | some (.file ns tenant _) => handles.insert fh (.file ns tenant id)
  | _ => handles

end

end HandleRegistry

structure DirEntry where
  fileHandle : FileHandle
  compositionId : CompositionId
  size : Nat
deriving DecidableEq, Repr

structure DirectoryIndex where
  byName : Finmap fun _ : String => DirEntry
  byHandle : Finmap fun _ : FileHandle => String

namespace DirectoryIndex

/-- An older entry's handle no longer leads to the name. -/
def insert (dir : DirectoryIndex) (name : String) (fh : FileHandle) (id : CompositionId)
    (size : Nat) : DirectoryIndex :=
  let byHandle := match dir.byName.lookup name with
    | some prev => if prev.fileHandle = fh then dir.byHandle else dir.byHandle.erase prev.fileHandle
    | none => dir.byHandle
  ⟨dir.byName.insert name ⟨fh, id, size⟩, byHandle.insert fh name⟩

def nameFor (dir : DirectoryIndex) (fh : FileHandle) : Option String := dir.byHandle.lookup fh

def lookup (dir : DirectoryIndex) (name : String) : Option DirEntry := dir.byName.lookup name

end DirectoryIndex

inductive FileType where
  | regular
  | directory
  | symlink
deriving DecidableEq, Repr

structure NfsWriteResponse where
  count : Nat
  compositionId : CompositionId
deriving DecidableEq, Repr

structure NfsContext where
  gateway : InMemoryGateway
  handles : HandleRegistry
  dirIndex : DirectoryIndex
  tenantId : OrgId
  namespaceId : NamespaceId
  writeBuffers : Finmap fun _ : FileHandle => Bytes
  lastFlushedLen : Finmap fun _ : FileHandle => Nat

def InMemoryGateway.lookupObjectByName (gw : InMemoryGateway) (tenantId : OrgId) (key : NameKey) :
    Option CompositionId :=
  match gw.compositions.lookupByName key with
  | some id =>
    match gw.compositions.get id with
    | .ok comp => if comp.tenantId = tenantId then some id else none
    | .error _ => some id
  | none => none

def InMemoryGateway.listedSize (gw : InMemoryGateway) (tenantId : OrgId)
    (namespaceId : NamespaceId) (id : CompositionId) : Option Nat :=
  match gw.compositions.find id with
  | some comp =>
    if comp.namespaceId = namespaceId ∧ comp.tenantId = tenantId then some comp.size else none
  | none => none

namespace NfsContext

/-- A buffer comes first; an unregistered handle names a composition. -/
def read (ctx : NfsContext) (fh : FileHandle) (offset count : Nat) :
    Except GatewayError ReadResponse :=
  match ctx.writeBuffers.lookup fh with
  | some buf =>
    let stop := min (offset + count) buf.length
    .ok ⟨if offset < buf.length then buf.extract offset stop else [], decide (buf.length ≤ stop)⟩
  | none =>
    match ctx.handles.resolve fh with
    | some (_, tenantId, some id) => ctx.gateway.read tenantId id offset count
    | some (_, _, none) => .error (.protocolError "cannot read a directory")
    | none =>
      if fh = handleOf (placeholderId fh) then
        ctx.gateway.read ctx.tenantId (placeholderId fh) offset count
      else .error (.protocolError "stale file handle")

def bufferWrite (ctx : NfsContext) (fh : FileHandle) (offset : Nat) (data : Bytes) : NfsContext :=
  { ctx with
    writeBuffers := ctx.writeBuffers.insert fh
      (splice 0 offset data ((ctx.writeBuffers.lookup fh).getD [])) }

section
variable (deriveChunkId : Bytes → ChunkId)

section
variable (ctx : NfsContext)

def writeRequest (data : Bytes) (name : Option String)
    (compIdOverride : Option CompositionId) : WriteRequest where
  tenantId := ctx.tenantId
  namespaceId := ctx.namespaceId
  data := data
  name := name
  compIdOverride := compIdOverride
  surface := .nfs

def writeWithOptionalId (data : Bytes) (name : Option String)
    (compIdOverride : Option CompositionId) (draw : Draw) :
    Except GatewayError (NfsContext × FileHandle × NfsWriteResponse) :=
  match write deriveChunkId ctx.gateway (ctx.writeRequest data name compIdOverride) draw with
  | .error e => .error e
  | .ok (gw, resp) =>
    let (handles, fh) :=
      ctx.handles.fileHandle ctx.namespaceId ctx.tenantId resp.compositionId
    .ok ({ ctx with gateway := gw, handles := handles }, fh,
      ⟨resp.bytesWritten % 2 ^ 32, resp.compositionId⟩)

/-- With a name the id is open, else the flush asks for one. -/
def flushTarget (fh : FileHandle) (lastLen : Nat) (fresh : CompositionId) :
    Option String → Option CompositionId
  | some _ => none
  | none => some (if lastLen = 0 then placeholderId fh else fresh)

/-- A buffer that did not grow since the last flush is not written. -/
def flushWrites (fh : FileHandle) (draw : Draw) :
    Except GatewayError (NfsContext × Option (FileHandle × NfsWriteResponse)) :=
  match ctx.writeBuffers.lookup fh with
  | none => .ok (ctx, none)
  | some buf =>
    let lastLen := (ctx.lastFlushedLen.lookup fh).getD 0
    if buf = [] ∨ buf.length ≤ lastLen then .ok (ctx, none)
    else
      let name := ctx.dirIndex.nameFor fh
      let target := flushTarget fh lastLen draw.id name
      match ctx.writeWithOptionalId deriveChunkId buf name target draw with
      | .error e => .error e
      | .ok (ctx, newFh, resp) =>
        .ok ({ ctx with
          dirIndex := match name with
            | some name => ctx.dirIndex.insert name newFh resp.compositionId resp.count
            | none => ctx.dirIndex
          handles := ctx.handles.repointFile fh resp.compositionId
          lastFlushedLen := ctx.lastFlushedLen.insert fh buf.length }, some (newFh, resp))

def releaseBuffer (fh : FileHandle) : NfsContext :=
  { ctx with
    writeBuffers := ctx.writeBuffers.erase fh
    lastFlushedLen := ctx.lastFlushedLen.erase fh }

def writeNamed (name : String) (data : Bytes) (draw : Draw) :
    Except GatewayError (NfsContext × FileHandle × NfsWriteResponse) :=
  match ctx.writeWithOptionalId deriveChunkId data (some name) none draw with
  | .error e => .error e
  | .ok (ctx, fh, resp) =>
    .ok ({ ctx with dirIndex := ctx.dirIndex.insert name fh resp.compositionId resp.count },
      fh, resp)

/-- An error of the flush is ignored; the new handle is released. -/
def opClose (fh : FileHandle) (draw : Draw) : NfsContext :=
  match ctx.flushWrites deriveChunkId fh draw with
  | .ok (ctx, some (newFh, _)) => ctx.releaseBuffer newFh
  | .ok (ctx, none) => ctx.releaseBuffer fh
  | .error _ => ctx.releaseBuffer fh

def replyCommit (fh : FileHandle) (draw : Draw) : NfsContext :=
  match ctx.flushWrites deriveChunkId fh draw with
  | .ok (ctx, _) => ctx.releaseBuffer fh
  | .error _ => ctx

def afterFlush (fh : FileHandle) (draw : Draw) : NfsContext :=
  match ctx.flushWrites deriveChunkId fh draw with
  | .ok (ctx, _) => ctx
  | .error _ => ctx

end

end

section
variable (parseUuid : String → Option CompositionId)

/-- The name index, then a name that is an id, then an empty file. -/
def lookupReplicated (ctx : NfsContext) (name : String) (pendingPlaceholder : Option FileHandle) :
    NfsContext × Option (FileHandle × FileType × Nat) :=
  match ctx.gateway.lookupObjectByName ctx.tenantId (ctx.namespaceId, name) with
  | some id =>
    let size := (ctx.gateway.listedSize ctx.tenantId ctx.namespaceId id).getD 0
    let (handles, fh) := ctx.handles.fileHandle ctx.namespaceId ctx.tenantId id
    ({ ctx with handles := handles, dirIndex := ctx.dirIndex.insert name fh id size },
      some (fh, .regular, size))
  | none =>
    match (parseUuid name).bind fun id =>
      (ctx.gateway.listedSize ctx.tenantId ctx.namespaceId id).map (id, ·) with
    | some (id, size) =>
      let (handles, fh) := ctx.handles.fileHandle ctx.namespaceId ctx.tenantId id
      ({ ctx with handles := handles }, some (fh, .regular, size))
    | none => (ctx, pendingPlaceholder.map (·, .regular, 0))

/-- A directory entry is the answer, unless its size is zero. -/
def lookupByName (ctx : NfsContext) (name : String) :
    NfsContext × Option (FileHandle × FileType × Nat) :=
  match ctx.dirIndex.lookup name with
  | some entry =>
    if ctx.handles.isDirectory entry.fileHandle then
      (ctx, some (entry.fileHandle, .directory, 4096))
    else if ctx.handles.isSymlink entry.fileHandle then
      (ctx, some (entry.fileHandle, .symlink, entry.size))
    else if entry.size > 0 then (ctx, some (entry.fileHandle, .regular, entry.size))
    else ctx.lookupReplicated parseUuid name (some entry.fileHandle)
  | none => ctx.lookupReplicated parseUuid name none

def readByName (ctx : NfsContext) (name : String) (offset count : Nat) :
    Option (Except GatewayError ReadResponse) :=
  match ctx.lookupByName parseUuid name with
  | (ctx, some (fh, _)) => some (ctx.read fh offset count)
  | (_, none) => none

end

end NfsContext

end Kiseki.Gateway
