import AvrKernel.BaseFS.Calls

/-!
# Files

`file.c` as programs over calls on a device. A file is a header followed by a
chain of extents, each an allocation with its own header and some data.
-/

namespace AvrKernel.BaseFS

open Bytes Effect

/-- An open file; the context pointer of a closed one is 0. -/
structure FileHandle where
  address : UInt32
  position : UInt32
  mode : UInt8
  isOpen : Bool
  ctx : UInt32
  deriving DecidableEq

namespace FS

def fsFileCheck (address : UInt32) : FS Bool :=
  if address = fsNull then return false
  else do
    let alloc ← readStruct FSAllocHeader.layout (address - 4)
    if alloc.size < 44 then return false
    else do
      let file ← readStruct FSFileHeader.layout address
      return !hasFlag file.block.attributes fsAttributeDirectory

def fsFileStructIsValid (file : FileHandle) : FS Bool :=
  if file.ctx = 0 ∨ file.isOpen = false then return false
  else fsFileCheck file.address

def fsFileExtentRead (extentAddress : UInt32) : FS (Option FSFileExtent) :=
  if extentAddress = fsNull then return none
  else do
    let allocHeader ← readStruct FSAllocHeader.layout (extentAddress - 4)
    if allocHeader.size < 12 then return none
    else do
      let extent ← readStruct FSFileExtent.layout extentAddress
      return some extent

def fsFileExtentWrite (extentAddress : UInt32) (extent : FSFileExtent) : FS Unit :=
  writeStruct FSFileExtent.layout extentAddress extent

def readFile (address : UInt32) : FS FSFileHeader := readStruct FSFileHeader.layout address

def writeFile (address : UInt32) (file : FSFileHeader) : FS Unit :=
  writeStruct FSFileHeader.layout address file

/-! ## Deleting -/

/-- The loop of `fs_file_delete`: an extent that cannot be read ends it. -/
def deleteRound (extentAddress : UInt32) : FS (UInt32 ⊕ Unit) :=
  if extentAddress = fsNull then return .inr ()
  else do
    match ← fsFileExtentRead extentAddress with
    | none => return .inr ()
    | some extent => do
        free extentAddress
        return .inl extent.extent.next

def fsFileDelete (address : UInt32) : FS Bool := do
  if ← fsFileCheck address then do
    let file ← readFile address
    Prog.loop deleteRound file.extent.next
    free address
    return true
  else return false

/-! ## Attributes of a file -/

def fsFileGetSize (address : UInt32) : FS UInt32 := do
  if ← fsFileCheck address then do
    let file ← readFile address
    return file.totalLogicalSize
  else return 0

/-- The characters of the stored name, at most 15 of them. -/
def fsFileGetName (address : UInt32) : FS (Option (List UInt8)) :=
  if address = fsNull then return none
  else do
    let block ← readStruct FSBlockHeader.layout address
    return some ((block.name.toList.take (fsNameLengthMax - 1)).takeWhile (· ≠ 0))

def fsFileSetName (address : UInt32) (filename : List UInt8) : FS Bool :=
  if address = fsNull then return false
  else if filename.length = 0 ∨ filename.length > fsNameLengthMax - 1 then return false
  else do
    let header ← readFile address
    if !hasFlag header.block.permissions fsPermissionWrite then return false
    else do
      writeFile address { header with block.name := Device.charArray 16 filename }
      return true

def fsFileGetPermissions (address : UInt32) : FS UInt8 := do
  let header ← readFile address
  return header.block.permissions

def fsFileSetPermissions (address : UInt32) (permissions : UInt8) : FS Bool := do
  let header ← readFile address
  writeFile address { header with block.permissions := permissions }
  return true

/-! ## Resizing -/

/-- The loops of `fs_file_resize` that free a chain. They ignore whether an extent
could be read, and one that could not is used uninitialised. -/
def freeRound (freeAddr : UInt32) : FS (UInt32 ⊕ Unit) :=
  if freeAddr = fsNull then return .inr ()
  else do
    match ← fsFileExtentRead freeAddr with
    | none => Prog.halt
    | some extent => do
        free freeAddr
        return .inl extent.extent.next

/-- Where the search for the extent to cut stands. -/
structure ShrinkCursor where
  accumulated : UInt32
  current : UInt32
  previous : UInt32
  isFirst : Bool

/-- Cut the chain in front of the current extent. -/
def cutBefore (file : FSFileHeader) (cursor : ShrinkCursor) : FS FSFileHeader :=
  if cursor.isFirst then do
    Prog.loop freeRound cursor.current
    return { file with extent.next := fsNull }
  else do
    match ← fsFileExtentRead cursor.previous with
    | none => Prog.halt
    | some prevExt => do
        fsFileExtentWrite cursor.previous { prevExt with extent.next := fsNull }
        Prog.loop freeRound cursor.current
        return file

/-- Cut the chain behind the first `keepBytes` of the current extent. -/
def cutWithin (cursor : ShrinkCursor) (ext : FSFileExtent) (keepBytes : UInt32) : FS Unit := do
  fsFileExtentWrite cursor.current { ext with extent.next := fsNull, extentDataSize := keepBytes }
  Prog.loop freeRound ext.extent.next

/-- One round of the search; leaving it tells the header with its new `next` field. -/
def shrinkRound (file : FSFileHeader) (newSize : UInt32) (cursor : ShrinkCursor) :
    FS (ShrinkCursor ⊕ FSFileHeader) :=
  if cursor.current = fsNull then return .inr file
  else do
    match ← fsFileExtentRead cursor.current with
    | none => return .inr file
    | some ext =>
      if cursor.accumulated + ext.extentDataSize > newSize then
        let keepBytes := newSize - cursor.accumulated
        if keepBytes = 0 then do
          let file' ← cutBefore file cursor
          return .inr file'
        else do
          cutWithin cursor ext keepBytes
          return .inr file
      else
        return .inl
          { accumulated := cursor.accumulated + ext.extentDataSize
            current := ext.extent.next
            previous := cursor.current
            isFirst := false }

def shrink (address : UInt32) (file : FSFileHeader) (newSize : UInt32) : FS Bool := do
  let file' ← Prog.loop (shrinkRound file newSize) ⟨0, file.extent.next, address, true⟩
  writeFile address { file' with totalLogicalSize := newSize }
  return true

/-- One step to the last extent of a chain; the tail is `none` before the first. Fails
at an extent that cannot be read. -/
def tailRound (state : UInt32 × Option (UInt32 × FSFileExtent)) :
    FS ((UInt32 × Option (UInt32 × FSFileExtent)) ⊕ Option (Option (UInt32 × FSFileExtent))) :=
  let (current, tail) := state
  if current = fsNull then return .inr (some tail)
  else do
    match ← fsFileExtentRead current with
    | none => return .inr none
    | some extent => return .inl (extent.extent.next, some (current, extent))

/-- Write at most sixteen zeros. -/
def zeroRound (state : UInt32 × UInt32) : FS ((UInt32 × UInt32) ⊕ Unit) :=
  let (writePtr, zeroRemains) := state
  if zeroRemains = 0 then return .inr ()
  else do
    let chunk := if 16 > zeroRemains then zeroRemains else 16
    memWrite writePtr (List.replicate chunk.toNat 0)
    return .inl (writePtr + chunk, zeroRemains - chunk)

/-- The data bytes of the next extent when `growth` bytes are missing. -/
def chunkAllocation (sectorSize growth : UInt32) : UInt32 :=
  let chunk := if growth > 4096 then 4096 else growth
  if chunk ≥ 16 ∧ chunk % sectorSize = 0 then chunk - 16 else chunk

/-- Write the header of a new extent and its data. -/
def initExtent (newAddr : UInt32) (newExt : FSFileExtent) : FS Unit := do
  fsFileExtentWrite newAddr newExt
  Prog.loop zeroRound (newAddr + 12, newExt.extentDataSize)

/-- Link the chain to a new extent; in the header while the chain is empty. -/
def linkTail (file : FSFileHeader) (newAddr : UInt32) :
    Option (UInt32 × FSFileExtent) → FS FSFileHeader
  | none => return { file with extent.next := newAddr }
  | some (tailAddress, tailExtent) => do
      fsFileExtentWrite tailAddress { tailExtent with extent.next := newAddr }
      return file

/-- One round of growing by an extent; the tail is `none` while the chain is empty. -/
def growRound (address : UInt32)
    (state : UInt32 × FSFileHeader × Option (UInt32 × FSFileExtent)) :
    FS ((UInt32 × FSFileHeader × Option (UInt32 × FSFileExtent)) ⊕ Option FSFileHeader) :=
  let (growthNeeded, file, tail) := state
  if growthNeeded = 0 then return .inr (some file)
  else do
    let ctx ← context
    let chunk := chunkAllocation ctx.sectorSize growthNeeded
    let newAddr ← alloc (12 + chunk)
    if newAddr = fsNull then return .inr none
    else do
      let newExt : FSFileExtent :=
        { extent := { next := fsNull, prev := (tail.map Prod.fst).getD address }
          extentDataSize := chunk }
      initExtent newAddr newExt
      let file' ← linkTail file newAddr tail
      return .inl (growthNeeded - chunk, file', some (newAddr, newExt))

def grow (address : UInt32) (file : FSFileHeader) (newSize : UInt32) : FS Bool := do
  match ← Prog.loop tailRound (file.extent.next, none) with
  | none => return false
  | some tail => do
      match ← Prog.loop (growRound address) (newSize - file.totalLogicalSize, file, tail) with
      | none => return false
      | some file' => do
          writeFile address { file' with totalLogicalSize := newSize }
          return true

def fsFileResize (address newSize : UInt32) : FS Bool := do
  if ← fsFileCheck address then do
    let file ← readFile address
    if file.totalLogicalSize = newSize then return true
    else if newSize < file.totalLogicalSize then shrink address file newSize
    else grow address file newSize
  else return false

/-! ## Handles -/

/-- `ctx` is the address of the device context. -/
def fsFileOpen (ctx address : UInt32) (mode : UInt8) : FS (Option FileHandle) := do
  if ← fsFileCheck address then do
    let header ← readFile address
    if hasFlag mode fsFileModeRead && !hasFlag header.block.permissions fsPermissionRead then
      return none
    else if hasFlag mode fsFileModeWrite && !hasFlag header.block.permissions fsPermissionWrite
    then return none
    else if hasFlag mode fsFileModeAppend then do
      let size ← fsFileGetSize address
      return some ⟨address, size, mode, true, ctx⟩
    else return some ⟨address, 0, mode, true, ctx⟩
  else return none

def fsFileClose : FileHandle := ⟨fsNull, 0, 0, false, 0⟩

/-- Where a transfer stands: the extent it looks at and the bytes of the file in
front of that extent, the next byte to transfer, and how many are left. -/
structure Transfer where
  current : UInt32
  boundary : UInt32
  offset : UInt32
  remaining : UInt32

/-- The bytes of the transfer that lie in an extent of `size` bytes, and where they
start in it. -/
def Transfer.chunk (t : Transfer) (size : UInt32) : Option (UInt32 × UInt32) :=
  if t.offset ≥ t.boundary ∧ t.offset < t.boundary + size then
    let internal := t.offset - t.boundary
    let available := size - internal
    some (internal, if t.remaining > available then available else t.remaining)
  else none

/-- The transfer behind an extent in which `count` bytes were transferred. -/
def Transfer.next (t : Transfer) (ext : FSFileExtent) (count : UInt32) : Transfer where
  current := ext.extent.next
  boundary := t.boundary + ext.extentDataSize
  offset := t.offset + count
  remaining := t.remaining - count

def readRound (state : Transfer × List UInt8) :
    FS ((Transfer × List UInt8) ⊕ (Transfer × List UInt8)) :=
  let (t, bytes) := state
  if t.current = fsNull ∨ t.remaining = 0 then return .inr (t, bytes)
  else do
    match ← fsFileExtentRead t.current with
    | none => return .inr (t, bytes)
    | some ext =>
      match t.chunk ext.extentDataSize with
      | none => return .inl (t.next ext 0, bytes)
      | some (internal, count) => do
          let data ← memRead (t.current + 12 + internal) count
          return .inl (t.next ext count, bytes ++ data)

/-- How many bytes were read, the bytes, and the handle behind them. -/
def fsFileRead (file : FileHandle) (size : UInt32) : FS (UInt32 × List UInt8 × FileHandle) := do
  if ← fsFileStructIsValid file then
    if !hasFlag file.mode fsFileModeRead then return (0, [], file)
    else if size = 0 then return (0, [], file)
    else do
      let fileSize ← fsFileGetSize file.address
      if file.position ≥ fileSize then return (0, [], file)
      else do
        let bytesToRead := if file.position + size > fileSize then fileSize -
          file.position else size
        let header ← readFile file.address
        let (t, bytes) ← Prog.loop readRound
          (⟨header.extent.next, 0, file.position, bytesToRead⟩, [])
        return (bytesToRead - t.remaining, bytes,
          { file with position := file.position + (bytesToRead - t.remaining) })
  else return (0, [], file)

def writeRound (state : Transfer × List UInt8) : FS ((Transfer × List UInt8) ⊕ Transfer) :=
  let (t, source) := state
  if t.current = fsNull ∨ t.remaining = 0 then return .inr t
  else do
    match ← fsFileExtentRead t.current with
    | none => return .inr t
    | some ext =>
      match t.chunk ext.extentDataSize with
      | none => return .inl (t.next ext 0, source)
      | some (internal, count) => do
          memWrite (t.current + 12 + internal) (source.take count.toNat)
          return .inl (t.next ext count, source.drop count.toNat)

/-- The part of `fs_file_write` behind the growth. -/
def writeBytes (file : FileHandle) (source : List UInt8) (size : UInt32) :
    FS (UInt32 × FileHandle) := do
  let header ← readFile file.address
  let t ← Prog.loop writeRound (⟨header.extent.next, 0, file.position, size⟩, source)
  return (size - t.remaining, { file with position := file.position + (size - t.remaining) })

/-- How many bytes were written and the handle behind them. -/
def fsFileWrite (file : FileHandle) (source : List UInt8) (size : UInt32) :
    FS (UInt32 × FileHandle) := do
  if ← fsFileStructIsValid file then
    if !hasFlag file.mode fsFileModeWrite then return (0, file)
    else if size = 0 then return (0, file)
    else do
      let fileSize ← fsFileGetSize file.address
      if file.position + size > fileSize then do
        if ← fsFileResize file.address (file.position + size) then writeBytes file source size
        else return (0, file)
      else writeBytes file source size
  else return (0, file)

def fsFileSeek (file : FileHandle) (position : UInt32) : FS (UInt32 × FileHandle) := do
  if ← fsFileStructIsValid file then do
    let fileSize ← fsFileGetSize file.address
    let position' := if position > fileSize then fileSize else position
    return (position', { file with position := position' })
  else return (fsNull, file)

end FS

end AvrKernel.BaseFS
