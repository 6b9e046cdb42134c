import AvrKernel.Vfs.Parse

/-!
# Open files

The operations of `vfs_file.c` on descriptors. A descriptor of a file on a device
carries a file handle; one of a kernel node works on the memory of the node.
-/

namespace AvrKernel.Vfs

open BaseFS Kernel Effect

/-- Whether `flags` has a bit of `mask`. -/
def hasOpenFlag (flags mask : UInt16) : Bool := flags &&& mask != 0

/-- The value -1 of a signed word. -/
def minusOne : UInt32 := 0xFFFFFFFF

namespace VfsM

/-! ## The table -/

/-- The first open file with an id. -/
def vfsFileFindOpen (id : UInt32) : VfsM (Option OpenFileDescriptor) :=
  if id = vfsInvalidFile then return none
  else do
    let table ← openFiles
    return table.files.find? fun desc => desc.id = id

/-- Replace the first open file with an id. -/
def replaceFirst (desc : OpenFileDescriptor) :
    List OpenFileDescriptor → List OpenFileDescriptor
  | [] => []
  | file :: files => if file.id = desc.id then desc :: files else file :: replaceFirst desc files

/-- Store an open file that was found by its id. -/
def updateOpen (desc : OpenFileDescriptor) : VfsM Unit := do
  let table ← openFiles
  setOpenFiles { table with files := replaceFirst desc table.files }

/-- The next id; 0 is skipped when the counter wraps. -/
def takeId : VfsM UInt32 := do
  let table ← openFiles
  if table.nextUniqueId = vfsInvalidFile then do
    setOpenFiles { table with nextUniqueId := table.nextUniqueId + 2 }
    return table.nextUniqueId + 1
  else do
    setOpenFiles { table with nextUniqueId := table.nextUniqueId + 1 }
    return table.nextUniqueId

/-! ## Opening and closing -/

/-- The mode of the handle of a file with these permissions. -/
def targetMode (flags : UInt16) (perm : UInt8) : UInt8 :=
  let read := if hasOpenFlag flags vfsOpenRead && hasFlag perm fsPermissionRead
    then fsFileModeRead else 0
  let write := if hasOpenFlag flags vfsOpenWrite && hasFlag perm fsPermissionWrite
    then fsFileModeWrite else 0
  if read ||| write = 0 then fsFileModeRead else read ||| write

/-- Whether a walk ended on something that can be opened. -/
def canOpen (walk : PathWalk) : VfsM Bool :=
  if walk.inFileSystem = true then device walk.ctx (FS.fsFileCheck walk.fsNode)
  else do
    let kFlags ← kernel (KernelM.kmallocGetFlags walk.knode)
    return kFlags &&& kmallocFlagDirectory = 0

/-- The handle of a new descriptor; that of a kernel node is not used. -/
def openHandle (walk : PathWalk) (flags : UInt16) : VfsM (Option FileHandle) :=
  if walk.inFileSystem = true then do
    let perm ← device walk.ctx (FS.fsFileGetPermissions walk.fsNode)
    device walk.ctx (FS.fsFileOpen walk.ctx walk.fsNode (targetMode flags perm))
  else return some FS.fsFileClose

/-- Append a descriptor to the table. -/
def appendOpen (desc : OpenFileDescriptor) : VfsM UInt32 := do
  if ← malloc then do
    let table ← openFiles
    setOpenFiles { table with files := table.files ++ [desc] }
    return desc.id
  else return vfsInvalidFile

def doOpen (path : List UInt8) (flags : UInt16) : VfsM UInt32 :=
  if path = [] then return vfsInvalidFile
  else do
    match ← vfsParsePath path flags with
    | none => return vfsInvalidFile
    | some walk => do
      if ← canOpen walk then do
        if ← malloc then do
          let id ← takeId
          match ← openHandle walk flags with
          | none => return vfsInvalidFile
          | some handle =>
              appendOpen
                { id, address := walk.node, inFileSystem := walk.inFileSystem, offset := 0
                  handle, flags, ctx := walk.ctx }
        else return vfsInvalidFile
      else return vfsInvalidFile

/-- Remove the first open file with an id. -/
def removeFirst (id : UInt32) : List OpenFileDescriptor → List OpenFileDescriptor
  | [] => []
  | file :: files => if file.id = id then files else file :: removeFirst id files

def doClose (file : UInt32) : VfsM Unit := do
  match ← vfsFileFindOpen file with
  | none => return ()
  | some desc => do
      let table ← openFiles
      setOpenFiles { table with files := removeFirst desc.id table.files }

/-! ## Transfers -/

/-- The part of a transfer that lies in a kernel node of `nodeSize` bytes. -/
def clipped (offset size nodeSize : UInt32) : UInt32 :=
  if offset + size > nodeSize then nodeSize - offset else size

/-- The bytes read and their number, or -1. -/
def doRead (file : UInt32) (size : UInt32) : VfsM (UInt32 × List UInt8) := do
  match ← vfsFileFindOpen file with
  | none => return (minusOne, [])
  | some desc =>
    if desc.inFileSystem = true then do
      let parentPerm ← device desc.ctx (FS.fsFileGetPermissions desc.address)
      if !hasFlag parentPerm fsPermissionRead then return (minusOne, [])
      else do
        let (count, bytes, handle) ← device desc.handle.ctx (FS.fsFileRead desc.handle size)
        updateOpen { desc with handle }
        return (count, bytes)
    else do
      let parentPerm ← kernel (KernelM.kmallocGetPermissions desc.address)
      if !hasFlag parentPerm kmallocPermissionRead then return (minusOne, [])
      else do
        let nodeSize ← kernel (KernelM.kmallocGetSize desc.address)
        if desc.offset ≥ nodeSize then return (0, [])
        else do
          let count := clipped desc.offset size nodeSize
          let bytes ← kernel (KernelM.kmemRead (desc.address + desc.offset) count)
          updateOpen { desc with offset := desc.offset + count }
          return (count, bytes)

/-- The number of bytes written, or -1. -/
def doWrite (file : UInt32) (buffer : List UInt8) (size : UInt32) : VfsM UInt32 := do
  match ← vfsFileFindOpen file with
  | none => return minusOne
  | some desc =>
    if desc.inFileSystem = true then do
      let parentPerm ← device desc.ctx (FS.fsFileGetPermissions desc.address)
      if !hasFlag parentPerm fsPermissionWrite then return minusOne
      else do
        let (count, handle) ← device desc.handle.ctx (FS.fsFileWrite desc.handle buffer size)
        updateOpen { desc with handle }
        return count
    else do
      let parentPerm ← kernel (KernelM.kmallocGetPermissions desc.address)
      if !hasFlag parentPerm kmallocPermissionWrite then return minusOne
      else do
        let nodeSize ← kernel (KernelM.kmallocGetSize desc.address)
        if desc.offset ≥ nodeSize then return minusOne
        else do
          let count := clipped desc.offset size nodeSize
          kernel (KernelM.kmemWrite (desc.address + desc.offset) (buffer.take count.toNat))
          updateOpen { desc with offset := desc.offset + count }
          return count

def doSeek (file position : UInt32) : VfsM UInt32 := do
  match ← vfsFileFindOpen file with
  | none => return vfsInvalidFile
  | some desc =>
    if desc.inFileSystem = true then do
      let (_, handle) ← device desc.handle.ctx (FS.fsFileSeek desc.handle position)
      updateOpen { desc with handle, offset := position }
      return position
    else do
      updateOpen { desc with offset := position }
      return position

def doTell (file : UInt32) : VfsM UInt32 := do
  match ← vfsFileFindOpen file with
  | none => return vfsInvalidFile
  | some desc => return desc.offset

def doGetSize (file : UInt32) : VfsM UInt32 := do
  match ← vfsFileFindOpen file with
  | none => return 0
  | some desc =>
    if desc.inFileSystem = true then device desc.ctx (FS.fsFileGetSize desc.address)
    else kernel (KernelM.kmallocGetSize desc.address)

end VfsM

end AvrKernel.Vfs
