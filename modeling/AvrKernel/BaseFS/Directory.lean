import AvrKernel.BaseFS.File

/-!
# Directories

`directory.c` as programs over calls on a device, and the creation of files. A
directory is a header with some references to its entries behind it, followed
by a chain of extents with more references.
-/

namespace AvrKernel.BaseFS

open Bytes Effect

namespace FS

def fsFileAllocHeaderRead (payloadAddress : UInt32) : FS (Option FSAllocHeader) :=
  if payloadAddress = fsNull then return none
  else if payloadAddress < 4 then return none
  else do
    let header ← readStruct FSAllocHeader.layout (payloadAddress - 4)
    return if header.size = 0 then none else some header

/-- The bound on the length of a chain walk. -/
def fsDirectoryWalkLimit : FS UInt32 := do
  let ctx ← context
  return if ctx.blockCount = 0 then 0xFFFF else ctx.blockCount

/-- How many references fit an allocation behind a structure of `size` bytes. -/
def maxRefs (size address : UInt32) : FS UInt32 := do
  match ← fsFileAllocHeaderRead address with
  | none => return 0
  | some header => return if header.size ≤ size then 0 else (header.size - size) / 4

def fsDirectoryHeaderMaxRefs (directoryAddress : UInt32) : FS UInt32 := maxRefs 48 directoryAddress

def fsDirectoryExtentMaxRefs (extentAddress : UInt32) : FS UInt32 := maxRefs 12 extentAddress

def fsDirectoryHeaderRead (directoryAddress : UInt32) : FS (Option FSDirectoryHeader) := do
  match ← fsFileAllocHeaderRead directoryAddress with
  | none => return none
  | some header =>
    if header.size < 48 then return none
    else do
      let directory ← readStruct FSDirectoryHeader.layout directoryAddress
      return some directory

def fsDirectoryHeaderWrite (directoryAddress : UInt32) (directory : FSDirectoryHeader) : FS Unit :=
  writeStruct FSDirectoryHeader.layout directoryAddress directory

def fsDirectoryExtentRead (extentAddress : UInt32) : FS (Option FSDirectoryExtent) := do
  match ← fsFileAllocHeaderRead extentAddress with
  | none => return none
  | some header =>
    if header.size < 12 then return none
    else do
      let extent ← readStruct FSDirectoryExtent.layout extentAddress
      return some extent

def fsDirectoryExtentWrite (extentAddress : UInt32) (extent : FSDirectoryExtent) : FS Unit :=
  writeStruct FSDirectoryExtent.layout extentAddress extent

def fsDirectoryExtentCreate (prevAddress initialCapacity : UInt32) : FS UInt32 := do
  let extentAddress ← alloc (12 + initialCapacity * 4)
  if extentAddress = fsNull then return fsNull
  else do
    fsDirectoryExtentWrite extentAddress
      { extent := { next := fsNull, prev := prevAddress }, referenceCount := 0 }
    return extentAddress

/-- Let the extent at `address`, if it can be read, point to `next`. -/
def relinkNext (address next : UInt32) : FS Unit := do
  match ← fsDirectoryExtentRead address with
  | none => return ()
  | some prevExtent =>
      fsDirectoryExtentWrite address { prevExtent with extent.next := next }

/-- Let the extent at `address`, if it can be read, point back to `prev`. -/
def relinkPrev (address prev : UInt32) : FS Unit := do
  match ← fsDirectoryExtentRead address with
  | none => return ()
  | some nextExtent =>
      fsDirectoryExtentWrite address { nextExtent with extent.prev := prev }

/-- Let what precedes an extent, the directory or another extent, point to what follows it. -/
def bypassNext (directoryAddress : UInt32) (directory : FSDirectoryHeader) (extent : FSExtent) :
    FS Unit :=
  if extent.prev = directoryAddress then
    fsDirectoryHeaderWrite directoryAddress { directory with extent.next := extent.next }
  else if extent.prev ≠ fsNull then relinkNext extent.prev extent.next
  else return ()

/-- Let what follows an extent point back to what precedes it. -/
def bypassPrev (extent : FSExtent) : FS Unit :=
  if extent.next ≠ fsNull then relinkPrev extent.next extent.prev
  else return ()

def fsDirectoryExtentUnlinkAndFree (directoryAddress extentAddress : UInt32) : FS Unit := do
  match ← fsDirectoryHeaderRead directoryAddress with
  | none => return ()
  | some directory => do
    match ← fsDirectoryExtentRead extentAddress with
    | none => return ()
    | some extent => do
      bypassNext directoryAddress directory extent.extent
      bypassPrev extent.extent
      free extentAddress

def fsDirectoryDelete (address : UInt32) : FS Bool := do
  match ← fsDirectoryHeaderRead address with
  | none => return false
  | some directory => do
      let walkGuard ← fsDirectoryWalkLimit
      freeChain walkGuard.toNat directory.extent.next
      free address
      return true
where
  /-- Free at most `guard` extents. -/
  freeChain : Nat → UInt32 → FS Unit
    | 0, _ => return ()
    | walkGuard + 1, extentAddress =>
        if extentAddress = fsNull then return ()
        else do
          match ← fsDirectoryExtentRead extentAddress with
          | none => return ()
          | some extent => do
              free extentAddress
              freeChain walkGuard extent.extent.next

/-! ## References -/

/-- The index of a reference among the `remaining` ones from `index` on that are stored at
`refs`. -/
def findReference (refs reference : UInt32) : Nat → UInt32 → FS (Option UInt32)
  | 0, _ => return none
  | remaining + 1, index => do
      let currentRef ← readWord (refs + index * 4)
      if currentRef = reference then return some index
      else findReference refs reference remaining (index + 1)

/-- Add a reference to the extents from `extentAddress` on: the status, or the extent at which
the walk ended without a free slot. -/
def addToExtents (reference : UInt32) : Nat → UInt32 → FS (UInt8 ⊕ UInt32)
  | 0, extentAddress => return .inr extentAddress
  | walkGuard + 1, extentAddress =>
      if extentAddress = fsNull then return .inr extentAddress
      else do
        match ← fsDirectoryExtentRead extentAddress with
        | none => return .inl 3
        | some extent => do
            let extMaxRefs ← fsDirectoryExtentMaxRefs extentAddress
            match ← findReference (extentAddress + 12) reference extent.referenceCount.toNat 0 with
            | some _ => return .inl 0
            | none =>
                if extent.referenceCount < extMaxRefs then do
                  writeWord (extentAddress + 12 + extent.referenceCount * 4) reference
                  fsDirectoryExtentWrite extentAddress
                    { extent with referenceCount := extent.referenceCount + 1 }
                  return .inl 0
                else if extent.extent.next = fsNull then return .inr extentAddress
                else addToExtents reference walkGuard extent.extent.next

/-- Store the first reference of a new extent. -/
def addFirst (newExtentAddress reference : UInt32) (unreadable : UInt8) : FS UInt8 := do
  match ← fsDirectoryExtentRead newExtentAddress with
  | none => return unreadable
  | some extent => do
      writeWord (newExtentAddress + 12) reference
      fsDirectoryExtentWrite newExtentAddress { extent with referenceCount := 1 }
      return 0

/-- Add a reference to a new extent behind the last one, at `tailAddress`. -/
def addExtent (directoryAddress reference tailAddress : UInt32) (directory : FSDirectoryHeader) :
    FS UInt8 :=
  if directory.extent.next = fsNull then do
    let newExtentAddress ← fsDirectoryExtentCreate directoryAddress 12
    if newExtentAddress = fsNull then return 4
    else do
      fsDirectoryHeaderWrite directoryAddress { directory with extent.next := newExtentAddress }
      addFirst newExtentAddress reference 5
  else do
    match ← fsDirectoryExtentRead tailAddress with
    | none => return 6
    | some tailExtent => do
        let newExtentAddress ← fsDirectoryExtentCreate tailAddress 12
        if newExtentAddress = fsNull then return 7
        else do
          fsDirectoryExtentWrite tailAddress { tailExtent with extent.next := newExtentAddress }
          addFirst newExtentAddress reference 8

/-- Returns 0 if the reference is in the directory afterwards. -/
def fsDirectoryAddReference (directoryAddress reference : UInt32) : FS UInt8 :=
  if reference = fsNull then return 1
  else do
    match ← fsDirectoryHeaderRead directoryAddress with
    | none => return 2
    | some directory => do
      let dirMaxRefs ← fsDirectoryHeaderMaxRefs directoryAddress
      match ← findReference (directoryAddress + 48) reference directory.referenceCount.toNat 0 with
      | some _ => return 0
      | none =>
        if directory.referenceCount < dirMaxRefs then do
          writeWord (directoryAddress + 48 + directory.referenceCount * 4) reference
          fsDirectoryHeaderWrite directoryAddress
            { directory with referenceCount := directory.referenceCount + 1 }
          return 0
        else do
          let walkGuard ← fsDirectoryWalkLimit
          match ← addToExtents reference walkGuard.toNat directory.extent.next with
          | .inl status => return status
          | .inr tailAddress => addExtent directoryAddress reference tailAddress directory

/-- Move the `remaining` references behind `index` one slot to the front. -/
def shiftReferences (refs : UInt32) : Nat → UInt32 → FS Unit
  | 0, _ => return ()
  | remaining + 1, index => do
      let nextRef ← readWord (refs + (index + 1) * 4)
      writeWord (refs + index * 4) nextRef
      shiftReferences refs remaining (index + 1)

/-- Remove a reference from the `count` ones stored at `refs`: whether it was there. -/
def removeFrom (refs reference count : UInt32) : FS Bool := do
  match ← findReference refs reference count.toNat 0 with
  | none => return false
  | some index => do
      shiftReferences refs (count.toNat - (index.toNat + 1)) index
      writeWord (refs + (count - 1) * 4) fsNull
      return true

/-- Remove a reference from the extents from `extentAddress` on. -/
def removeFromExtents (directoryAddress reference : UInt32) : Nat → UInt32 → FS UInt8
  | 0, _ => return 4
  | walkGuard + 1, extentAddress =>
      if extentAddress = fsNull then return 4
      else do
        match ← fsDirectoryExtentRead extentAddress with
        | none => return 3
        | some extent => do
            if ← removeFrom (extentAddress + 12) reference extent.referenceCount then do
              if extent.referenceCount - 1 = 0 then
                fsDirectoryExtentUnlinkAndFree directoryAddress extentAddress
              else
                fsDirectoryExtentWrite extentAddress
                  { extent with referenceCount := extent.referenceCount - 1 }
              return 0
            else removeFromExtents directoryAddress reference walkGuard extent.extent.next

/-- Returns 0 if the reference was found. -/
def fsDirectoryRemoveReference (directoryAddress reference : UInt32) : FS UInt8 :=
  if reference = fsNull then return 1
  else do
    match ← fsDirectoryHeaderRead directoryAddress with
    | none => return 2
    | some directory => do
      if ← removeFrom (directoryAddress + 48) reference directory.referenceCount then do
        fsDirectoryHeaderWrite directoryAddress
          { directory with referenceCount := directory.referenceCount - 1 }
        return 0
      else do
        let walkGuard ← fsDirectoryWalkLimit
        removeFromExtents directoryAddress reference walkGuard.toNat directory.extent.next

/-! ## Looking up -/

/-- The reference at `index` of the extents from `extentAddress` on. -/
def referenceInExtents : Nat → UInt32 → UInt32 → FS UInt32
  | 0, _, _ => return fsNull
  | walkGuard + 1, extentAddress, index =>
      if extentAddress = fsNull then return fsNull
      else do
        match ← fsDirectoryExtentRead extentAddress with
        | none => return fsNull
        | some extent =>
            if index < extent.referenceCount then readWord (extentAddress + 12 + index * 4)
            else referenceInExtents walkGuard extent.extent.next (index - extent.referenceCount)

def fsDirectoryGetReference (directoryAddress index : UInt32) : FS UInt32 := do
  match ← fsDirectoryHeaderRead directoryAddress with
  | none => return fsNull
  | some directory =>
    if index < directory.referenceCount then readWord (directoryAddress + 48 + index * 4)
    else do
      let walkGuard ← fsDirectoryWalkLimit
      referenceInExtents walkGuard.toNat directory.extent.next (index - directory.referenceCount)

/-- `totalCount` and the references in the extents from `extentAddress` on. -/
def countInExtents : Nat → UInt32 → UInt32 → FS UInt32
  | 0, _, totalCount => return totalCount
  | walkGuard + 1, extentAddress, totalCount =>
      if extentAddress = fsNull then return totalCount
      else do
        match ← fsDirectoryExtentRead extentAddress with
        | none => return totalCount
        | some extent =>
            countInExtents walkGuard extent.extent.next (totalCount + extent.referenceCount)

def fsDirectoryGetReferenceCount (directoryAddress : UInt32) : FS UInt32 := do
  match ← fsDirectoryHeaderRead directoryAddress with
  | none => return 0
  | some directory => do
      let walkGuard ← fsDirectoryWalkLimit
      countInExtents walkGuard.toNat directory.extent.next directory.referenceCount

def fsDirectoryGetParent (directoryAddress : UInt32) : FS UInt32 := do
  match ← fsDirectoryHeaderRead directoryAddress with
  | none => return fsNull
  | some directory => return directory.parent

def fsDirectoryNameMatches (address : UInt32) (name : List UInt8) : FS Bool := do
  match ← fsFileGetName address with
  | none => return false
  | some stored => return stored = name

/-- The first of the `remaining` references from `index` on with the name. -/
def findNamed (refs : UInt32) (name : List UInt8) : Nat → UInt32 → FS (Option UInt32)
  | 0, _ => return none
  | remaining + 1, index => do
      let reference ← readWord (refs + index * 4)
      if reference = fsNull then findNamed refs name remaining (index + 1)
      else if ← fsDirectoryNameMatches reference name then return some reference
      else findNamed refs name remaining (index + 1)

/-- The first reference with the name in the extents from `extentAddress` on. -/
def findInExtents (name : List UInt8) : Nat → UInt32 → FS UInt32
  | 0, _ => return fsNull
  | walkGuard + 1, extentAddress =>
      if extentAddress = fsNull then return fsNull
      else do
        match ← fsDirectoryExtentRead extentAddress with
        | none => return fsNull
        | some extent => do
            match ← findNamed (extentAddress + 12) name extent.referenceCount.toNat 0 with
            | some reference => return reference
            | none => findInExtents name walkGuard extent.extent.next

def fsDirectoryFind (directoryAddress : UInt32) (name : List UInt8) : FS UInt32 := do
  match ← fsDirectoryHeaderRead directoryAddress with
  | none => return fsNull
  | some directory => do
    match ← findNamed (directoryAddress + 48) name directory.referenceCount.toNat 0 with
    | some reference => return reference
    | none => do
        let walkGuard ← fsDirectoryWalkLimit
        findInExtents name walkGuard.toNat directory.extent.next

/-! ## Creating -/

/-- The characters of a name that `strncpy` copies, the last byte left to the terminator. -/
def nameField (name : List UInt8) : Vector UInt8 16 :=
  Device.charArray 16 (name.take (fsNameLengthMax - 1))

/-- The block header of a new file or directory. -/
def newBlock (name : List UInt8) (attributes permissions : UInt8) : FSBlockHeader where
  name := nameField name
  attributes
  permissions
  padding := Device.charArray 6 []
  security := 0
  certificate := 0

/-- The status of adding the reference is ignored. -/
def addToParent (parentDirectory address : UInt32) : FS Unit :=
  if parentDirectory ≠ fsNull then do
    let _status ← fsDirectoryAddReference parentDirectory address
    return ()
  else return ()

def fsFileCreate (name : List UInt8) (permissions : UInt8) (size parentDirectory : UInt32) :
    FS UInt32 := do
  let address ← alloc 44
  if address = fsNull then return fsNull
  else do
    addToParent parentDirectory address
    writeFile address
      { block := newBlock name 0 permissions
        totalLogicalSize := 0
        extent := { next := fsNull, prev := fsNull } }
    if size > 0 then do
      if ← fsFileResize address size then return address
      else do
        free address
        return fsNull
    else return address

def fsDirectoryCreate (name : List UInt8) (permissions : UInt8) (parentDirectory : UInt32) :
    FS UInt32 := do
  let address ← alloc (48 + 24 * 4)
  if address = fsNull then return fsNull
  else do
    addToParent parentDirectory address
    fsDirectoryHeaderWrite address
      { block := newBlock name fsAttributeDirectory permissions
        parent := parentDirectory
        extent := { next := fsNull, prev := fsNull }
        referenceCount := 0 }
    return address

/-! ## Deleting -/

def fsDirectoryIsDirectory (address : UInt32) : FS Bool := do
  match ← fsDirectoryHeaderRead address with
  | none => return false
  | some directory => return hasFlag directory.block.attributes fsAttributeDirectory

/-- One step of the deletion of everything below `address`: the next directory to work on, or
the result. -/
def deleteStep (address current : UInt32) : FS (UInt32 ⊕ Bool) := do
  let count ← fsDirectoryGetReferenceCount current
  if count = 0 then
    if current = address then do
      let _deleted ← fsDirectoryDelete current
      return .inr true
    else do
      let up ← fsDirectoryGetParent current
      if up = fsNull then return .inr false
      else do
        let status ← fsDirectoryRemoveReference up current
        if status ≠ 0 then return .inr false
        else do
          let _deleted ← fsDirectoryDelete current
          return .inl up
  else do
    let child ← fsDirectoryGetReference current (count - 1)
    if ← ownedBy child then return .inl child
    else do
      let status ← fsDirectoryRemoveReference current child
      if status ≠ 0 then return .inr false
      else do
        if child ≠ fsNull then do
          if ← fsFileCheck child then do
            let _deleted ← fsFileDelete child
            return .inl current
          else return .inl current
        else return .inl current
where
  /-- The entry is a directory whose parent is the current one. -/
  ownedBy (child : UInt32) : FS Bool :=
    if child ≠ fsNull ∧ child ≠ address ∧ child ≠ current then do
      if ← fsDirectoryIsDirectory child then do
        let parent ← fsDirectoryGetParent child
        return parent = current
      else return false
    else return false

def deleteSteps (address : UInt32) : Nat → UInt32 → FS Bool
  | 0, _ => return false
  | steps + 1, current => do
      match ← deleteStep address current with
      | .inl next => deleteSteps address steps next
      | .inr result => return result

/-- The status of removing the reference is ignored. -/
def removeFromParent (parentDirectory address : UInt32) : FS Unit :=
  if parentDirectory ≠ fsNull then do
    let _status ← fsDirectoryRemoveReference parentDirectory address
    return ()
  else return ()

def fsDirectoryDeleteRecursive (address parentDirectory : UInt32) : FS Bool :=
  if address = fsNull then return false
  else do
    if ← fsDirectoryIsDirectory address then do
      let partition ← fsDeviceGetPartition
      if partition.1 ≠ 0 then return false
      else if address = partition.2.rootDirectory then return false
      else do
        removeFromParent parentDirectory address
        let limit ← fsDirectoryWalkLimit
        deleteSteps address (limit * 4).toNat address
    else return false

def fsFileGetCertificate (address : UInt32) : FS UInt32 := do
  let header ← readFile address
  return header.block.certificate

def fsCheckDirectoryValid (address : UInt32) : FS Bool := do
  let header ← readFile address
  return hasFlag header.block.attributes fsAttributeDirectory

end FS

end AvrKernel.BaseFS
