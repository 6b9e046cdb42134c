import AvrKernel.Kernel.Heap

/-!
# Kernel nodes

`knode.c`: the directories of the kernel. A node lives on the kernel heap and
lists the addresses of other blocks, first in itself and then in a chain of
extents.
-/

namespace AvrKernel.Kernel

open Bytes Effect

def knodeNull : UInt32 := kmallocNull
def knodeNameLengthMax : Nat := 16

structure KernelDirectory where
  name : Vector UInt8 16
  parent : UInt32
  next : UInt32
  prev : UInt32
  size : UInt32
  reference : Vector UInt32 6
  deriving DecidableEq

structure KernelDirectoryExtent where
  next : UInt32
  prev : UInt32
  size : UInt32
  reference : Vector UInt32 11
  deriving DecidableEq

def KernelDirectory.layout : Layout KernelDirectory :=
  ((Layout.bytes 16).pair (Layout.u32.pair (Layout.u32.pair (Layout.u32.pair (Layout.u32.pair
    (Layout.u32.array 6)))))).iso
    (fun fields => ⟨fields.1, fields.2.1, fields.2.2.1, fields.2.2.2.1, fields.2.2.2.2.1,
      fields.2.2.2.2.2⟩)
    (fun directory => (directory.name, directory.parent, directory.next, directory.prev,
      directory.size, directory.reference)) fun _ => rfl

def KernelDirectoryExtent.layout : Layout KernelDirectoryExtent :=
  (Layout.u32.pair (Layout.u32.pair (Layout.u32.pair (Layout.u32.array 11)))).iso
    (fun fields => ⟨fields.1, fields.2.1, fields.2.2.1, fields.2.2.2⟩)
    (fun extent => (extent.next, extent.prev, extent.size, extent.reference)) fun _ => rfl

@[simp] theorem KernelDirectory.layout_size : KernelDirectory.layout.size = 56 := rfl
@[simp] theorem KernelDirectoryExtent.layout_size : KernelDirectoryExtent.layout.size = 56 := rfl

/-- The ends of a chain of extents. -/
def isEnd (address : UInt32) : Bool := address = 0 ∨ address = kmallocNull

namespace KernelM

def knodeGetRoot : KernelM UInt32 := Prog.perform KernelCall.root

def readDirectory (address : UInt32) : KernelM KernelDirectory :=
  readStruct KernelDirectory.layout address

def writeDirectory (address : UInt32) (directory : KernelDirectory) : KernelM Unit :=
  writeStruct KernelDirectory.layout address directory

def readExtent (address : UInt32) : KernelM KernelDirectoryExtent :=
  readStruct KernelDirectoryExtent.layout address

def writeExtent (address : UInt32) (extent : KernelDirectoryExtent) : KernelM Unit :=
  writeStruct KernelDirectoryExtent.layout address extent

/-- A directory that is not an extent. -/
def knodeIsValidAddress (directoryAddress : UInt32) : KernelM Bool :=
  if directoryAddress = kmallocNull ∨ directoryAddress = 0 then return false
  else do
    let flags ← kmallocGetFlags directoryAddress
    return flags &&& kmallocFlagDirectory != 0 && flags &&& kmallocFlagExtent == 0

def knodeCheckIsValid (address : UInt32) : KernelM Bool := knodeIsValidAddress address

/-! ## Slots -/

/-- The first of the `size` slots that holds a reference. A size behind the end of the array
is undefined. -/
def findSlot {n : Nat} (slots : Vector UInt32 n) (size reference : UInt32) :
    KernelM (Option Nat) :=
  let index := slots.toList.idxOf reference
  if index < n ∧ index < size.toNat then return some index
  else if size.toNat ≤ n then return none
  else Prog.halt

/-- The slots without the one at `index`: the later ones move up, and the last is cleared. -/
def removeSlot {n : Nat} (slots : Vector UInt32 n) (size index : Nat) : Vector UInt32 n :=
  Vector.ofFn fun j =>
    if (j : Nat) < index ∨ size ≤ j then slots[j]
    else if h : (j : Nat) + 1 < n then if (j : Nat) + 1 < size then slots[(j : Nat) + 1] else 0
    else 0

/-- The slot at `index`. -/
def getSlot {n : Nat} (slots : Vector UInt32 n) (index : UInt32) : KernelM UInt32 :=
  match slots[index.toNat]? with
  | some reference => return reference
  | none => Prog.halt

/-! ## References -/

def containsRound (reference : UInt32) (extentAddress : UInt32) : KernelM (UInt32 ⊕ Bool) :=
  if isEnd extentAddress then return .inr false
  else do
    let extent ← readExtent extentAddress
    match ← findSlot extent.reference extent.size reference with
    | some _ => return .inr true
    | none => return .inl extent.next

def knodeContainsReferenceAddress (directoryAddress reference : UInt32) : KernelM Bool := do
  if ← knodeIsValidAddress directoryAddress then
    if isEnd reference then return false
    else do
      let directory ← readDirectory directoryAddress
      match ← findSlot directory.reference directory.size reference with
      | some _ => return true
      | none => Prog.loop (containsRound reference) directory.next
  else return false

def createExtent : KernelM UInt32 := do
  let address ← kmalloc 56
  kmallocSetFlags address (kmallocFlagDirectory ||| kmallocFlagExtent)
  kmallocSetPermissions address (kmallocPermissionRead ||| kmallocPermissionWrite)
  writeExtent address { next := 0, prev := 0, size := 0, reference := Vector.replicate 11 0 }
  return address

def destroyExtent (address : UInt32) : KernelM Unit := kfree address

/-- Put a reference in the first extent with a free slot; otherwise the last extent looked at. -/
def addRound (reference : UInt32) (state : UInt32 × UInt32) :
    KernelM ((UInt32 × UInt32) ⊕ Option UInt32) :=
  let (current, previous) := state
  if isEnd current then return .inr (some previous)
  else do
    let extent ← readExtent current
    if extent.size < 11 then do
      writeExtent current { extent with
        reference := extent.reference.setIfInBounds extent.size.toNat reference
        size := extent.size + 1 }
      return .inr none
    else return .inl (extent.next, current)

/-- Put a reference in a new extent behind the `previous` one, 0 for the directory itself. -/
def addInExtent (directoryAddress : UInt32) (directory : KernelDirectory)
    (previous reference : UInt32) : KernelM Bool := do
  let newExtentAddress ← createExtent
  if newExtentAddress = kmallocNull then return false
  else do
    let newExtent ← readExtent newExtentAddress
    writeExtent newExtentAddress
      { prev := previous, next := 0, size := 1, reference := newExtent.reference.set 0 reference }
    if previous ≠ 0 then do
      let previousExtent ← readExtent previous
      writeExtent previous { previousExtent with next := newExtentAddress }
      writeDirectory directoryAddress { directory with prev := newExtentAddress }
      return true
    else do
      writeDirectory directoryAddress
        { directory with next := newExtentAddress, prev := newExtentAddress }
      return true

/-- Whether the reference was added. -/
def knodeAddReference (directoryAddress reference : UInt32) : KernelM Bool := do
  if ← knodeIsValidAddress directoryAddress then
    if isEnd reference then return false
    else if ← knodeContainsReferenceAddress directoryAddress reference then return false
    else do
      let directory ← readDirectory directoryAddress
      if directory.size < 6 then do
        writeDirectory directoryAddress { directory with
          reference := directory.reference.setIfInBounds directory.size.toNat reference
          size := directory.size + 1 }
        return true
      else do
        match ← Prog.loop (addRound reference) (directory.next, 0) with
        | none => return true
        | some previous => addInExtent directoryAddress directory previous reference
  else return false

/-- Take an extent without references out of its chain. -/
def unlinkExtent (directoryAddress : UInt32) (directory : KernelDirectory)
    (extentAddress : UInt32) (extent : KernelDirectoryExtent) : KernelM Unit := do
  let directory₁ ← unlinkNext
  let directory₂ ← unlinkPrev directory₁
  writeDirectory directoryAddress (if isEnd directory₂.next then { directory₂ with prev := 0 }
    else directory₂)
  destroyExtent extentAddress
where
  unlinkNext : KernelM KernelDirectory :=
    if isEnd extent.prev then return { directory with next := extent.next }
    else do
      let previousExtent ← readExtent extent.prev
      writeExtent extent.prev { previousExtent with next := extent.next }
      return directory
  unlinkPrev (directory : KernelDirectory) : KernelM KernelDirectory :=
    if isEnd extent.next then return { directory with prev := extent.prev }
    else do
      let nextExtent ← readExtent extent.next
      writeExtent extent.next { nextExtent with prev := extent.prev }
      return directory

def removeRound (directoryAddress : UInt32) (directory : KernelDirectory) (reference : UInt32)
    (extentAddress : UInt32) : KernelM (UInt32 ⊕ Bool) :=
  if isEnd extentAddress then return .inr false
  else do
    let extent ← readExtent extentAddress
    match ← findSlot extent.reference extent.size reference with
    | none => return .inl extent.next
    | some index =>
      if extent.size - 1 = 0 then do
        unlinkExtent directoryAddress directory extentAddress extent
        return .inr true
      else do
        writeExtent extentAddress { extent with
          reference := removeSlot extent.reference extent.size.toNat index
          size := extent.size - 1 }
        return .inr true

/-- Whether the reference was found. -/
def knodeRemoveReference (directoryAddress reference : UInt32) : KernelM Bool := do
  if ← knodeIsValidAddress directoryAddress then do
    let directory ← readDirectory directoryAddress
    match ← findSlot directory.reference directory.size reference with
    | some index => do
        writeDirectory directoryAddress { directory with
          reference := removeSlot directory.reference directory.size.toNat index
          size := directory.size - 1 }
        return true
    | none => Prog.loop (removeRound directoryAddress directory reference) directory.next
  else return false

def getRound (state : UInt32 × UInt32) : KernelM ((UInt32 × UInt32) ⊕ UInt32) :=
  let (extentAddress, index) := state
  if isEnd extentAddress then return .inr kmallocNull
  else do
    let extent ← readExtent extentAddress
    if index < extent.size then do
      let reference ← getSlot extent.reference index
      return .inr reference
    else return .inl (extent.next, index - extent.size)

def knodeGetReference (directoryAddress index : UInt32) : KernelM UInt32 := do
  if ← knodeIsValidAddress directoryAddress then do
    let directory ← readDirectory directoryAddress
    if index < directory.size then getSlot directory.reference index
    else Prog.loop getRound (directory.next, index - directory.size)
  else return kmallocNull

def countRound (state : UInt32 × UInt32) : KernelM ((UInt32 × UInt32) ⊕ UInt32) :=
  let (extentAddress, totalCount) := state
  if isEnd extentAddress then return .inr totalCount
  else do
    let extent ← readExtent extentAddress
    return .inl (extent.next, totalCount + extent.size)

def knodeGetReferenceCount (directoryAddress : UInt32) : KernelM UInt32 := do
  if ← knodeIsValidAddress directoryAddress then do
    let directory ← readDirectory directoryAddress
    Prog.loop countRound (directory.next, directory.size)
  else return kmallocNull

/-! ## Parents and names -/

/-- The parent, or the node itself if it has none. -/
def knodeGetParent (directoryAddress : UInt32) : KernelM UInt32 := do
  if ← knodeIsValidAddress directoryAddress then do
    let directory ← readDirectory directoryAddress
    if isEnd directory.parent then return directoryAddress
    else if ← knodeIsValidAddress directory.parent then return directory.parent
    else return directoryAddress
  else return kmallocNull

/-- The 16 bytes a block starts with, up to a terminator. -/
def readName (address : UInt32) : KernelM (List UInt8) := do
  let objectName ← kmemRead address 16
  return objectName.takeWhile (· ≠ 0)

def findRound (directoryAddress : UInt32) (name : List UInt8) (referenceIndex : UInt32) :
    KernelM (UInt32 ⊕ UInt32) := do
  let referenceAddress ← knodeGetReference directoryAddress referenceIndex
  if isEnd referenceAddress then return .inr knodeNull
  else do
    let objectName ← readName referenceAddress
    if objectName = name then return .inr referenceAddress
    else return .inl (referenceIndex + 1)

def knodeFindByName (directoryAddress : UInt32) (name : List UInt8) : KernelM UInt32 := do
  if ← knodeIsValidAddress directoryAddress then
    if name = [] then return knodeNull
    else Prog.loop (findRound directoryAddress name) 0
  else return knodeNull

/-- The characters of the name, at most 15 of them. -/
def knodeGetName (address : UInt32) : KernelM (List UInt8) := do
  let name ← readName address
  return name.take (knodeNameLengthMax - 1)

def knodeSetName (address : UInt32) (name : List UInt8) : KernelM Unit := do
  let permissions ← kmallocGetPermissions address
  if permissions &&& kmallocPermissionWrite = 0 then return ()
  else kmemWrite address ((name ++ [0]).take knodeNameLengthMax)

/-! ## Creating and destroying -/

/-- The characters of a name that `strncpy` copies, padded with zeros. -/
def nameField (name : List UInt8) : Vector UInt8 16 :=
  Vector.ofFn fun i => (name.take (knodeNameLengthMax - 1)).getD i 0

/-- The status of adding the reference is ignored. -/
def createKnode (name : List UInt8) (parentAddress : UInt32) : KernelM UInt32 := do
  let address ← kmalloc 56
  if address = kmallocNull then return kmallocNull
  else do
    kmallocSetFlags address kmallocFlagDirectory
    kmallocSetPermissions address (kmallocPermissionRead ||| kmallocPermissionWrite)
    writeDirectory address
      { name := nameField name, parent := parentAddress, next := 0, prev := 0, size := 0
        reference := Vector.replicate 6 0 }
    let _added ← knodeAddReference parentAddress address
    return address

def destroyKnode (address parentAddress : UInt32) : KernelM Bool := do
  if ← knodeIsValidAddress address then do
    let _removed ← knodeRemoveReference parentAddress address
    kfree address
    return true
  else return false

end KernelM

end AvrKernel.Kernel
