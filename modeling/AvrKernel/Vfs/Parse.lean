import AvrKernel.Util.Tok
import AvrKernel.Vfs.State

/-!
# Paths

`vfs_parse.c` and the device lookup of `vfs_device.c`. A path is resolved by
walking its tokens, through kernel nodes and, behind a mount, through the
directories of a device. The same walk is written out in three functions.
-/

namespace AvrKernel.Vfs

open BaseFS Kernel Effect Util

def slash : UInt8 := 0x2F
def dot : List UInt8 := [0x2E]
def dotDot : List UInt8 := [0x2E, 0x2E]

/-- Where a walk stands: the last kernel node, and the node behind it on the device with the
context `ctx` if it is in a file system. -/
structure PathWalk where
  knode : UInt32
  fsNode : UInt32
  inFileSystem : Bool
  ctx : UInt32
  deriving DecidableEq

namespace PathWalk

def start (root : UInt32) : PathWalk := ⟨root, 0, false, 0⟩

/-- The node that a walk stands on. -/
def node (walk : PathWalk) : UInt32 := if walk.inFileSystem then walk.fsNode else walk.knode

/-- Enter the file system of a partition. -/
def enter (walk : PathWalk) (ctx rootDirectory : UInt32) : PathWalk :=
  { walk with fsNode := rootDirectory, ctx, inFileSystem := true }

end PathWalk

/-- The tokens of the copy of the path that is cut to 255 characters. -/
def pathTokens (path : List UInt8) : List (List UInt8) := tokens [slash] (path.take 255)

/-- The place of the last occurrence of a character. -/
def strrchr (str : List UInt8) (character : UInt8) : Option Nat :=
  if character ∈ str then some (str.length - 1 - str.reverse.idxOf character) else none

namespace VfsM

/-- The loop over the references of a directory, from `index` on: the first one with the name,
or 0. -/
def findReference (ctx directory : UInt32) (token : List UInt8) : Nat → UInt32 → VfsM UInt32
  | 0, _ => return 0
  | remaining + 1, index => do
      let reference ← device ctx (FS.fsDirectoryGetReference directory index)
      if reference = fsNull then findReference ctx directory token remaining (index + 1)
      else do
        let itemName ← device ctx (FS.fsFileGetName reference)
        if itemName.getD [] = token then return reference
        else findReference ctx directory token remaining (index + 1)

/-- The kernel node that a token leads to, if there is one. -/
def nextKnode (knode : UInt32) (token : List UInt8) : VfsM (Option UInt32) :=
  if token = dotDot then do
    let parent ← kernel (KernelM.knodeGetParent knode)
    return some parent
  else do
    let nextNode ← kernel (KernelM.knodeFindByName knode token)
    return if nextNode = knodeNull ∨ nextNode = 0 then none else some nextNode

/-! ## Resolving to an address -/

/-- Enter what is mounted at the current node; `none` is a bad partition. -/
def resolveMount (walk : PathWalk) : VfsM (Option PathWalk) := do
  let flags ← kernel (KernelM.kmallocGetFlags walk.knode)
  if flags &&& kmallocFlagMount ≠ 0 then do
    let deviceAddress ← kernel (KernelM.knodeGetReference walk.knode 0)
    let deviceContext ← kernel (KernelM.knodeGetReference walk.knode 1)
    if deviceContext ≠ kmallocNull ∧ deviceContext ≠ 0 then
      if deviceAddress ≠ kmallocNull ∧ deviceAddress ≠ 0 then do
        let partition ← device deviceContext FS.fsDeviceGetPartition
        if partition.1 ≠ 0 then return none
        else do
          let geometry ← device deviceContext FS.context
          if geometry.isOpen = true then
            return some (walk.enter deviceContext partition.2.rootDirectory)
          else return some walk
      else return some walk
    else return some walk
  else return some walk

/-- Follow a token other than `.`. -/
def resolveToken (walk : PathWalk) (token : List UInt8) : VfsM (Option PathWalk) :=
  if walk.inFileSystem = false then do
    match ← nextKnode walk.knode token with
    | none => return none
    | some knode => resolveMount { walk with knode }
  else
    if token = dotDot then do
      let parent ← device walk.ctx (FS.fsDirectoryGetParent walk.fsNode)
      let partition ← device walk.ctx FS.fsDeviceGetPartition
      if walk.fsNode = partition.2.rootDirectory then do
        let up ← kernel (KernelM.knodeGetParent walk.knode)
        return some (PathWalk.start up)
      else return some { walk with fsNode := parent }
    else do
      let refCount ← device walk.ctx (FS.fsDirectoryGetReferenceCount walk.fsNode)
      let foundRef ← findReference walk.ctx walk.fsNode token refCount.toNat 0
      if foundRef = 0 ∨ foundRef = fsNull then return none
      else return some { walk with fsNode := foundRef }

def resolveTokens : List (List UInt8) → PathWalk → VfsM (Option PathWalk)
  | [], walk => return some walk
  | token :: rest, walk =>
      if token = dot then resolveTokens rest walk
      else do
        match ← resolveToken walk token with
        | none => return none
        | some walk' => resolveTokens rest walk'

/-- The walk of `resolve_path_to_address`. -/
def resolveWalk (path : List UInt8) : VfsM (Option PathWalk) := do
  let root ← kernel KernelM.knodeGetRoot
  resolveTokens (pathTokens path) (PathWalk.start root)

def resolvePathToAddress (path : List UInt8) : VfsM UInt32 :=
  if path = [] then return 0xFFFFFFFF
  else do
    match ← resolveWalk path with
    | none => return 0xFFFFFFFF
    | some walk => return walk.node

/-! ## Resolving to a mount point -/

/-- The first mount that the walk meets, or the last node. -/
def mountTokens : List (List UInt8) → UInt32 → VfsM UInt32
  | [], knode => return knode
  | token :: rest, knode =>
      if token = dot then mountTokens rest knode
      else do
        match ← nextKnode knode token with
        | none => return 0xFFFFFFFF
        | some next => do
            let flags ← kernel (KernelM.kmallocGetFlags next)
            if flags &&& kmallocFlagMount ≠ 0 then return next else mountTokens rest next

def resolvePathToMountPoint (path : List UInt8) : VfsM UInt32 :=
  if path = [] then return 0xFFFFFFFF
  else do
    let root ← kernel KernelM.knodeGetRoot
    let flags ← kernel (KernelM.kmallocGetFlags root)
    if flags &&& kmallocFlagMount ≠ 0 then return root
    else mountTokens (pathTokens path) root

/-- The context of the device that a path leads to, or 0. -/
def vfsDeviceGetContext (path : List UInt8) : VfsM UInt32 := do
  let address ← resolvePathToMountPoint path
  if address = 0xFFFFFFFF ∨ address = 0 then return 0
  else if ← kernel (KernelM.knodeCheckIsValid address) then do
    let flags ← kernel (KernelM.kmallocGetFlags address)
    if flags &&& kmallocFlagMount = 0 then return 0
    else kernel (KernelM.knodeGetReference address 1)
  else return 0

/-! ## Resolving the parent -/

/-- The path in front of the last slash; `none` if it does not fit its buffer. -/
def parentPath (path : List UInt8) : Option (List UInt8) :=
  match strrchr path slash with
  | none => some dot
  | some 0 => some [slash]
  | some parentLen => if parentLen ≥ 256 then none else some (path.take parentLen)

def resolveParentPathToAddress (path : List UInt8) : VfsM UInt32 :=
  if path = [] then return 0xFFFFFFFF
  else match parentPath path with
    | none => return 0xFFFFFFFF
    | some parent => resolvePathToAddress parent

/-! ## Resolving to be opened -/

def parseMount (walk : PathWalk) : VfsM (Option PathWalk) := do
  let kFlags ← kernel (KernelM.kmallocGetFlags walk.knode)
  if kFlags &&& kmallocFlagMount ≠ 0 then do
    let deviceAddress ← kernel (KernelM.knodeGetReference walk.knode 0)
    let deviceContext ← kernel (KernelM.knodeGetReference walk.knode 1)
    if deviceContext ≠ 0 ∧ deviceContext ≠ kmallocNull ∧ deviceAddress ≠ knodeNull ∧
        deviceAddress ≠ 0 then do
      let partition ← device deviceContext FS.fsDeviceGetPartition
      if partition.1 ≠ 0 then return none
      else do
        let geometry ← device deviceContext FS.context
        if geometry.isOpen = true then
          return some (walk.enter deviceContext partition.2.rootDirectory)
        else return some walk
    else return some walk
  else return some walk

/-- Create the file that the last token names. -/
def parseCreate (walk : PathWalk) (token : List UInt8) : VfsM (Option PathWalk) :=
  if token.length > vfsNameMax ∨ token.length ≥ 32 then return none
  else do
    let newFileAddress ← device walk.ctx
      (FS.fsFileCreate (token.take 31) (fsPermissionRead ||| fsPermissionWrite) 0 walk.fsNode)
    if newFileAddress = fsNull then return none
    else return some { walk with fsNode := newFileAddress }

def parseTokens (flags : UInt16) : List (List UInt8) → PathWalk → VfsM (Option PathWalk)
  | [], walk => return some walk
  | token :: rest, walk =>
      if token = dot then parseTokens flags rest walk
      else if walk.inFileSystem = false then do
        match ← nextKnode walk.knode token with
        | none => return none
        | some knode => do
            match ← parseMount { walk with knode } with
            | none => return none
            | some walk' => parseTokens flags rest walk'
      else
        if token = dotDot then do
          let parent ← device walk.ctx (FS.fsDirectoryGetParent walk.fsNode)
          let partition ← device walk.ctx FS.fsDeviceGetPartition
          if walk.fsNode = partition.2.rootDirectory then do
            let up ← kernel (KernelM.knodeGetParent walk.knode)
            parseTokens flags rest { knode := up, fsNode := 0, inFileSystem := false, ctx := 0 }
          else parseTokens flags rest { walk with fsNode := parent }
        else do
          let refCount ← device walk.ctx (FS.fsDirectoryGetReferenceCount walk.fsNode)
          let foundRef ← findReference walk.ctx walk.fsNode token refCount.toNat 0
          if foundRef = 0 ∨ foundRef = fsNull then
            if rest = [] ∧ flags &&& vfsOpenCreate ≠ 0 then parseCreate walk token
            else return none
          else parseTokens flags rest { walk with fsNode := foundRef }

/-- `none` is a failure; otherwise the walk has the outputs. -/
def vfsParsePath (path : List UInt8) (flags : UInt16) : VfsM (Option PathWalk) := do
  let root ← kernel KernelM.knodeGetRoot
  parseTokens flags (pathTokens path) (PathWalk.start root)

end VfsM

end AvrKernel.Vfs
