import AvrKernel.Vfs.OpenFile

/-!
# Operations on paths

The operations of `vfs_file.c`, `vfs.c`, `vfs_metadata.c` and `vfs_device.c` that take
paths. Each resolves its path to an address and, in a second walk, to a device,
and then decides whether the address is one of that device or of the kernel.
-/

namespace AvrKernel.Vfs

open BaseFS Kernel Effect

structure FSFileStats where
  size : UInt32
  permissions : UInt8
  certificate : UInt32
  deriving DecidableEq

def space : UInt8 := 0x20

/-- Names of 1 to 15 characters that do not start with a space and are one segment. -/
def vfsNameIsValid (name : List UInt8) : Bool :=
  name ≠ [] ∧ name.head? ≠ some space ∧ name.length ≤ vfsNameMax ∧ slash ∉ name ∧
    name ≠ dot ∧ name ≠ dotDot

/-- The bits of `mask` that `flags` has. -/
def flagOf (flags mask : UInt8) : UInt8 := if hasFlag flags mask then mask else 0

/-- Whether a resolved address is none. -/
def isNowhere (address : UInt32) : Bool := address = 0xFFFFFFFF ∨ address = 0

namespace VfsM

/-! ## Files and directories -/

def doExists (path : List UInt8) : VfsM Bool :=
  if path = [] then return false
  else do
    let address ← resolvePathToAddress path
    if isNowhere address then return false
    else do
      let ctx ← vfsDeviceGetContext path
      if ctx ≠ 0 then
        if ← device ctx (FS.fsFileCheck address) then return true
        else device ctx (FS.fsCheckDirectoryValid address)
      else kernel (KernelM.kmallocIsValid address)

/-- The path of the parent of a directory to be made, and its name; the buffer of the path has
256 bytes. -/
def mkdirPaths (path : List UInt8) : Option (List UInt8 × List UInt8) :=
  match strrchr path slash with
  | none => none
  | some 0 => some ([slash], path.drop 1)
  | some parentLen =>
      if parentLen ≥ 256 then none else some (path.take parentLen, path.drop (parentLen + 1))

/-- Whether a directory of a device is at `address`. -/
def onDevice (ctx address : UInt32) : VfsM Bool :=
  if ctx ≠ 0 then device ctx (FS.fsCheckDirectoryValid address) else return false

def doMkdir (path : List UInt8) : VfsM Bool :=
  if path = [] then return false
  else match mkdirPaths path with
    | none => return false
    | some (parentPath, targetName) =>
      if !vfsNameIsValid targetName then return false
      else do
        let parent ← resolvePathToAddress parentPath
        if isNowhere parent then return false
        else do
          let ctx ← vfsDeviceGetContext parentPath
          if ← onDevice ctx parent then do
            let parentPerm ← device ctx (FS.fsFileGetPermissions parent)
            if !hasFlag parentPerm fsPermissionRead || !hasFlag parentPerm fsPermissionWrite then
              return false
            else do
              let _address ← device ctx
                (FS.fsDirectoryCreate targetName (fsPermissionRead ||| fsPermissionWrite) parent)
              return true
          else if ← kernel (KernelM.knodeCheckIsValid parent) then do
            let parentPerm ← kernel (KernelM.kmallocGetPermissions parent)
            if !hasFlag parentPerm kmallocPermissionRead ||
                !hasFlag parentPerm kmallocPermissionWrite then
              return false
            else do
              let _address ← kernel (KernelM.createKnode targetName parent)
              return true
          else return false

/-- Remove a file or a directory with everything in it from a directory of a device. -/
def removeOnDevice (ctx address parent : UInt32) : VfsM Bool := do
  let itemPerm ← device ctx (FS.fsFileGetPermissions address)
  let parentPerm ← device ctx (FS.fsFileGetPermissions parent)
  if !hasFlag itemPerm fsPermissionWrite || !hasFlag parentPerm fsPermissionRead ||
      !hasFlag parentPerm fsPermissionWrite then
    return false
  else if ← device ctx (FS.fsFileCheck address) then do
    let _status ← device ctx (FS.fsDirectoryRemoveReference parent address)
    device ctx (FS.fsFileDelete address)
  else if ← device ctx (FS.fsCheckDirectoryValid address) then
    device ctx (FS.fsDirectoryDeleteRecursive address parent)
  else return false

def removeKnode (address parent : UInt32) : VfsM Bool := do
  let itemPerm ← kernel (KernelM.kmallocGetPermissions address)
  let parentPerm ← kernel (KernelM.kmallocGetPermissions parent)
  if !hasFlag itemPerm kmallocPermissionWrite || !hasFlag parentPerm kmallocPermissionRead ||
      !hasFlag parentPerm kmallocPermissionWrite then
    return false
  else kernel (KernelM.destroyKnode address parent)

def doRemove (path : List UInt8) : VfsM Bool :=
  if path = [] then return false
  else do
    let address ← resolvePathToAddress path
    if isNowhere address then return false
    else do
      let parent ← resolveParentPathToAddress path
      if isNowhere parent then return false
      else do
        let ctx ← vfsDeviceGetContext path
        if ← onDevice ctx parent then removeOnDevice ctx address parent
        else removeKnode address parent

def doRename (path name : List UInt8) : VfsM Bool :=
  if path = [] ∨ path.head? = some space then return false
  else if !vfsNameIsValid name then return false
  else do
    let address ← resolvePathToAddress path
    if isNowhere address then return false
    else do
      let parentAddress ← resolveParentPathToAddress path
      if isNowhere parentAddress then return false
      else do
        let ctx ← vfsDeviceGetContext path
        if ← onDevice ctx parentAddress then do
          let existing ← device ctx (FS.fsDirectoryFind parentAddress name)
          if existing ≠ fsNull then return false
          else device ctx (FS.fsFileSetName address name)
        else do
          kernel (KernelM.knodeSetName address name)
          return true

def doTruncate (path : List UInt8) (newSize : UInt32) : VfsM Bool :=
  if path = [] ∨ path.head? = some space then return false
  else do
    let address ← resolvePathToAddress path
    if isNowhere address then return false
    else do
      let ctx ← vfsDeviceGetContext path
      if ctx ≠ 0 then do
        let _resized ← device ctx (FS.fsFileResize address newSize)
        return true
      else return false

/-- Whether a file or directory of a device is at `address`; `fileFirst` is the order of the
two checks. -/
def nodeOnDevice (fileFirst : Bool) (ctx address : UInt32) : VfsM Bool :=
  if ctx = 0 then return false
  else if fileFirst then do
    if ← device ctx (FS.fsFileCheck address) then return true
    else device ctx (FS.fsCheckDirectoryValid address)
  else do
    if ← device ctx (FS.fsCheckDirectoryValid address) then return true
    else device ctx (FS.fsFileCheck address)

def doStat (path : List UInt8) : VfsM (Option FSFileStats) :=
  if path = [] then return none
  else do
    let address ← resolvePathToAddress path
    if isNowhere address then return none
    else do
      let ctx ← vfsDeviceGetContext path
      if ← nodeOnDevice true ctx address then do
        let fsPerm ← device ctx (FS.fsFileGetPermissions address)
        let size ← device ctx (FS.fsFileGetSize address)
        let certificate ← device ctx (FS.fsFileGetCertificate address)
        return some
          { size, permissions := flagOf fsPerm vfsPermissionRead |||
            flagOf fsPerm vfsPermissionWrite
            certificate }
      else if ← kernel (KernelM.knodeCheckIsValid address) then do
        let kPerm ← kernel (KernelM.kmallocGetPermissions address)
        let size ← kernel (KernelM.kmallocGetSize address)
        return some
          { size, permissions := flagOf kPerm vfsPermissionRead ||| flagOf kPerm vfsPermissionWrite
            certificate := 0 }
      else return none

/-! ## Permissions -/

/-- The permission bits have the same values for files, kernel nodes and the VFS. -/
def allFlags (perm : UInt8) : UInt8 :=
  flagOf perm vfsPermissionExecute ||| flagOf perm vfsPermissionRead |||
    flagOf perm vfsPermissionWrite

def doSetPermissions (path : List UInt8) (perm : UInt8) : VfsM Bool :=
  if path = [] then return false
  else do
    let address ← resolvePathToAddress path
    if isNowhere address then return false
    else do
      let ctx ← vfsDeviceGetContext path
      if ← nodeOnDevice false ctx address then do
        let _set ← device ctx (FS.fsFileSetPermissions address (allFlags perm))
        return true
      else if ← kernel (KernelM.kmallocIsValid address) then do
        kernel (KernelM.kmallocSetPermissions address (allFlags perm))
        return true
      else return false

def doGetPermissions (path : List UInt8) : VfsM (Option UInt8) :=
  if path = [] then return none
  else do
    let address ← resolvePathToAddress path
    if isNowhere address then return none
    else do
      let ctx ← vfsDeviceGetContext path
      if ← nodeOnDevice false ctx address then do
        let permissions ← device ctx (FS.fsFileGetPermissions address)
        return some (allFlags permissions)
      else if ← kernel (KernelM.kmallocIsValid address) then do
        let permissions ← kernel (KernelM.kmallocGetPermissions address)
        return some (allFlags permissions)
      else return none

/-! ## Directories -/

/-- Whether a valid block of the kernel heap has one of the flags. -/
def hasKernelFlag (address : UInt32) (mask : UInt8) : VfsM Bool := do
  if ← kernel (KernelM.kmallocIsValid address) then do
    let kFlags ← kernel (KernelM.kmallocGetFlags address)
    return kFlags &&& mask != 0
  else return false

def doDirectoryCheckMounted (path : List UInt8) : VfsM Bool :=
  if path = [] then return false
  else do
    let address ← resolvePathToAddress path
    if address = knodeNull ∨ address = fsNull then return false
    else if ← hasKernelFlag address kmallocFlagMount then return true
    else do
      let ctx ← vfsDeviceGetContext path
      if ← onDevice ctx address then do
        let parent ← device ctx (FS.fsDirectoryGetParent address)
        return parent = address ∨ parent = fsNull
      else return false

def doDirectoryCheck (path : List UInt8) : VfsM Bool :=
  if path = [] then return false
  else do
    if ← doDirectoryCheckMounted path then return true
    else do
      let address ← resolvePathToAddress path
      if address = knodeNull ∨ address = fsNull then return false
      else if ← hasKernelFlag address (kmallocFlagMount ||| kmallocFlagDirectory) then return true
      else do
        let ctx ← vfsDeviceGetContext path
        onDevice ctx address

def doDirectoryGetItemCount (path : List UInt8) : VfsM UInt32 :=
  if path = [] then return 0
  else do
    let address ← resolvePathToAddress path
    if address = knodeNull ∨ address = fsNull then return 0
    else do
      let ctx ← vfsDeviceGetContext path
      if ← onDevice ctx address then device ctx (FS.fsDirectoryGetReferenceCount address)
      else kernel (KernelM.knodeGetReferenceCount address)

/-- The name of an item. -/
def doDirectoryGetItem (path : List UInt8) (index : UInt32) : VfsM (Option (List UInt8)) :=
  if path = [] then return none
  else do
    let address ← resolvePathToAddress path
    if address = knodeNull ∨ address = fsNull then return none
    else do
      let ctx ← vfsDeviceGetContext path
      if ← onDevice ctx address then do
        let itemAddress ← device ctx (FS.fsDirectoryGetReference address index)
        let name ← device ctx (FS.fsFileGetName itemAddress)
        return some (name.getD [])
      else do
        let itemAddress ← kernel (KernelM.knodeGetReference address index)
        let name ← kernel (KernelM.knodeGetName itemAddress)
        return some name

/-! ## Flushing -/

/-- Flush the device mounted at a node; nodes without an open device are flushed already. -/
def syncMount (mount : UInt32) : VfsM Bool :=
  if isNowhere mount then return true
  else do
    let flags ← kernel (KernelM.kmallocGetFlags mount)
    if flags &&& kmallocFlagMount = 0 then return true
    else do
      let ctxRef ← kernel (KernelM.knodeGetReference mount 1)
      if isNowhere ctxRef then return true
      else do
        let geometry ← device ctxRef FS.context
        if geometry.isOpen = false then return true
        else deviceSync ctxRef

/-- Flush what is mounted at the `remaining` nodes from `index` on. -/
def syncMounts (mnt : UInt32) : Nat → UInt32 → Bool → VfsM Bool
  | 0, _, ok => return ok
  | remaining + 1, index, ok => do
      let mount ← kernel (KernelM.knodeGetReference mnt index)
      let synced ← syncMount mount
      syncMounts mnt remaining (index + 1) (ok && synced)

def doSyncAll : VfsM Bool := do
  let root ← kernel KernelM.knodeGetRoot
  let mnt ← kernel (KernelM.knodeFindByName root [0x6D, 0x6E, 0x74])
  if mnt = knodeNull ∨ mnt = 0 then return true
  else do
    let count ← kernel (KernelM.knodeGetReferenceCount mnt)
    syncMounts mnt count.toNat 0 true

end VfsM

end AvrKernel.Vfs
