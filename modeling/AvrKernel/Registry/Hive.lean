import AvrKernel.Lib.Bytes
import AvrKernel.Lib.Program
import Mathlib.Data.List.TakeWhile

/-!
# The registry

`registry.c`: hives of keys and values, and how they are written to a file and
read back, as programs over the calls of the file system.
-/

namespace AvrKernel.Registry

open Bytes Effect

/-- Limits that apply to hives that are read. -/
def registryMaxValueSize : UInt32 := 64 * 1024
def registryMaxDepth : Nat := 32

/-- `strncpy` into a name, whose last byte is a terminator then. -/
def registryCopyName (src : List UInt8) : Vector UInt8 16 :=
  Vector.ofFn fun i => ((src.takeWhile (· ≠ 0)).take 15).getD i 0

/-- A name as `registry_copy_name` leaves it. -/
structure RegistryName where
  bytes : Vector UInt8 16
  copied : registryCopyName bytes.toList = bytes
  deriving DecidableEq

theorem registryCopyName_toList (src : List UInt8) :
    (registryCopyName src).toList = (src.takeWhile (· ≠ 0)).take 15 ++
      List.replicate (16 - ((src.takeWhile (· ≠ 0)).take 15).length) 0 := by
  have hlength : ((src.takeWhile (· ≠ 0)).take 15).length ≤ 15 := List.length_take_le ..
  generalize hl : (src.takeWhile (· ≠ 0)).take 15 = l at hlength
  apply List.ext_getElem
  · simp
    omega
  · intro i hi hi'
    simp only [registryCopyName, hl, Vector.getElem_toList, Vector.getElem_ofFn]
    by_cases hlt : i < l.length
    · rw [List.getElem_append_left hlt]
      simp [hlt]
    · rw [List.getElem_append_right (Nat.le_of_not_lt hlt), List.getElem_replicate]
      simp [Nat.le_of_not_lt hlt]

theorem registryCopyName_copied (src : List UInt8) :
    registryCopyName (registryCopyName src).toList = registryCopyName src := by
  have hsame : ((registryCopyName src).toList.takeWhile (· ≠ 0)).take 15 =
      (src.takeWhile (· ≠ 0)).take 15 := by
    have hnonzero : ∀ byte ∈ (src.takeWhile (· ≠ 0)).take 15, byte ≠ 0 := by
      intro byte hin
      simpa using List.mem_takeWhile_imp (List.mem_of_mem_take hin)
    have hlength : ((src.takeWhile (· ≠ 0)).take 15).length ≤ 15 := List.length_take_le ..
    rw [registryCopyName_toList, List.takeWhile_append_of_pos (by simpa using hnonzero)]
    have hzeros : (List.replicate (16 - ((src.takeWhile (· ≠ 0)).take 15).length)
        (0 : UInt8)).takeWhile (· ≠ 0) = [] := by
      cases hn : 16 - ((src.takeWhile (· ≠ 0)).take 15).length with
      | zero => rfl
      | succ n => simp [List.replicate_succ]
    rw [hzeros, List.append_nil, List.take_of_length_le hlength]
  unfold registryCopyName at hsame ⊢
  rw [hsame]

def RegistryName.copy (src : List UInt8) : RegistryName :=
  ⟨registryCopyName src, registryCopyName_copied src⟩

/-- A value has data only if it was created with some, and then `dataLen` bytes of it. -/
structure RegistryValue where
  name : RegistryName
  data : Option (List UInt8)
  dataLen : UInt32
  permissions : UInt16
  sized : ∀ bytes, data = some bytes → bytes.length = dataLen.toNat ∧ bytes ≠ []
  deriving DecidableEq

/-- A value without data, whatever its size. -/
def RegistryValue.empty (name : List UInt8) (permissions : UInt16) (size : UInt32) :
    RegistryValue :=
  { name := .copy name, data := none, dataLen := size, permissions, sized := nofun }

structure RegistryKey where
  name : RegistryName
  permissions : UInt16
  childKeys : List RegistryKey
  values : List RegistryValue

/-- The last key that is linked comes first. -/
def RegistryKey.link (parent key : RegistryKey) : RegistryKey :=
  { parent with childKeys := key :: parent.childKeys }

structure RegistryHive where
  root : Option RegistryKey

/-! ## Calls -/

def vfsOpenRead : UInt16 := 0x01
def vfsOpenWrite : UInt16 := 0x02
def vfsOpenCreate : UInt16 := 0x04

/-- What the registry asks of other parts of the kernel. No function has more than
one file open. -/
inductive RegistryCall
  | vfsExists (path : List UInt8)
  | vfsOpen (path : List UInt8) (flags : UInt16)
  | vfsClose
  | vfsTruncate (path : List UInt8) (newSize : UInt32)
  | vfsRead (size : UInt32)
  | vfsWrite (source : List UInt8)
  | malloc (size : UInt32)

/-- The answer to a call: whether there is a file, the bytes that were read (none
on an error), the number of bytes that were written (-1 on an error). -/
@[reducible] def RegistryCall.Answer : RegistryCall → Type
  | vfsExists _ => Bool
  | vfsOpen .. => Bool
  | vfsClose => Unit
  | vfsTruncate .. => Bool
  | vfsRead _ => Option (List UInt8)
  | vfsWrite _ => UInt32
  | malloc _ => Bool

abbrev RegistryM (α : Type) : Type := Prog RegistryCall RegistryCall.Answer α

namespace RegistryM

def vfsExists (path : List UInt8) : RegistryM Bool := Prog.perform (RegistryCall.vfsExists path)

def vfsOpen (path : List UInt8) (flags : UInt16) : RegistryM Bool :=
  Prog.perform (RegistryCall.vfsOpen path flags)

def vfsClose : RegistryM Unit := Prog.perform RegistryCall.vfsClose

def vfsTruncate (path : List UInt8) (newSize : UInt32) : RegistryM Bool :=
  Prog.perform (RegistryCall.vfsTruncate path newSize)

def malloc (size : UInt32) : RegistryM Bool := Prog.perform (RegistryCall.malloc size)

def regReadExact (size : UInt32) : RegistryM (Option (List UInt8)) :=
  if size = 0 then return some []
  else do
    let bytes ← Prog.perform (RegistryCall.vfsRead size)
    return bytes.filter fun bytes => bytes.length = size.toNat

def regWriteExact (source : List UInt8) : RegistryM Bool :=
  if UInt32.ofNat source.length = 0 then return true
  else do
    let count ← Prog.perform (RegistryCall.vfsWrite source)
    return count = UInt32.ofNat source.length

/-! ## Keys and values -/

/-- A new key; whoever creates it links it into its parent. -/
def registryCreateKey (name : List UInt8) (permissions : UInt16) :
    RegistryM (Option RegistryKey) := do
  if ← malloc 32 then
    return some { name := .copy name, permissions, childKeys := [], values := [] }
  else return none

def registryCreateValue (parent : RegistryKey) (name : List UInt8) (permissions : UInt16)
    (data : Option (List UInt8)) (size : UInt32) : RegistryM (Option RegistryKey) := do
  if ← malloc 32 then
    match data with
    | none => return some { parent with values := .empty name permissions size :: parent.values }
    | some bytes =>
      if h : (bytes.take size.toNat).length = size.toNat ∧ bytes.take size.toNat ≠ [] then
        if ← malloc size then
          return some { parent with values :=
            { name := .copy name, data := some (bytes.take size.toNat), dataLen := size, permissions
              sized := by rintro _ ⟨⟩; exact h } :: parent.values }
        else return none
      else
        return some { parent with values := .empty name permissions size :: parent.values }
  else return none

/-! ## Writing a hive -/

/-- One step of a writer after the other, until one fails. -/
def andThen (first second : RegistryM Bool) : RegistryM Bool := do
  if ← first then second else return false

def exportValue (v : RegistryValue) : RegistryM Bool :=
  andThen (regWriteExact v.name.bytes.toList) <|
  andThen (regWriteExact (Layout.u16.encode v.permissions)) <|
  andThen (regWriteExact (Layout.u32.encode v.dataLen)) <|
  match v.data with
  | some bytes => if v.dataLen > 0 then regWriteExact bytes else return true
  | none => return true

def exportValues : List RegistryValue → RegistryM Bool
  | [] => return true
  | v :: rest => andThen (exportValue v) (exportValues rest)

mutual

def registryExportKeyRecursive : RegistryKey → RegistryM Bool
  | { name, permissions, childKeys, values } =>
      andThen (regWriteExact name.bytes.toList) <|
      andThen (regWriteExact (Layout.u16.encode permissions)) <|
      andThen (regWriteExact (Layout.u32.encode (.ofNat values.length))) <|
      andThen (exportValues values) <|
      andThen (regWriteExact (Layout.u32.encode (.ofNat childKeys.length)))
        (exportKeys childKeys)

def exportKeys : List RegistryKey → RegistryM Bool
  | [] => return true
  | key :: rest => andThen (registryExportKeyRecursive key) (exportKeys rest)

end

end RegistryM

mutual

def registryCalculateKeySizeRecursive : RegistryKey → UInt32
  | { name := _, permissions := _, childKeys, values } =>
      16 + 2 + 4 + (values.map fun v => 16 + 2 + 4 + v.dataLen).sum + 4 +
        calculateKeysSize childKeys

def calculateKeysSize : List RegistryKey → UInt32
  | [] => 0
  | key :: rest => registryCalculateKeySizeRecursive key + calculateKeysSize rest

end

def registryCalculateTotalExportSize (hive : RegistryHive) : UInt32 :=
  match hive.root with
  | none => 1
  | some key => 1 + registryCalculateKeySizeRecursive key

namespace RegistryM

/-- `_REGISTRY_MAGIC_`, without its terminator. -/
def registryMagic : List UInt8 := [0x52, 0x45, 0x47, 0x21]

/-- What is written to the file that was opened. -/
def exportRoot (hive : RegistryHive) : RegistryM Bool :=
  andThen (regWriteExact registryMagic) <|
  match hive.root with
  | none => regWriteExact [0]
  | some key => andThen (regWriteExact [1]) (registryExportKeyRecursive key)

def registryHiveExport (hive : RegistryHive) (path : List UInt8) : RegistryM Bool := do
  let totalRequiredSize := registryCalculateTotalExportSize hive + 4
  andThen (createFile path) <| andThen (vfsTruncate path totalRequiredSize) <|
    andThen (vfsOpen path vfsOpenWrite) do
      let ok ← exportRoot hive
      vfsClose
      return ok
where
  createFile (path : List UInt8) : RegistryM Bool := do
    if ← vfsExists path then return true
    else andThen (vfsOpen path (vfsOpenWrite ||| vfsOpenCreate)) do
      vfsClose
      return true

/-! ## Reading a hive -/

/-- The last byte of a name that was read is made a terminator. -/
def terminate (name : List UInt8) : List UInt8 := name.set 15 0

/-- The data of a value, none if it is empty. -/
def importData (valSize : UInt32) : RegistryM (Option (Option (List UInt8))) :=
  if valSize > 0 then do
    if ← malloc valSize then do
      let some valData ← regReadExact valSize | return none
      return some (some valData)
    else return none
  else return some none

def importValue (currentKey : RegistryKey) : RegistryM (Option RegistryKey) := do
  let some valName ← regReadExact 16 | return none
  let some valPermissions ← regReadExact 2 | return none
  let some valSize ← regReadExact 4 | return none
  if Layout.u32.decode valSize > registryMaxValueSize then return none
  else do
    let some valData ← importData (Layout.u32.decode valSize) | return none
    registryCreateValue currentKey (terminate valName) (Layout.u16.decode valPermissions) valData
      (Layout.u32.decode valSize)

def importValues : Nat → RegistryKey → RegistryM (Option RegistryKey)
  | 0, currentKey => return some currentKey
  | count + 1, currentKey => do
      let some currentKey ← importValue currentKey | return none
      importValues count currentKey

def importKeys (importKey : RegistryM (Option RegistryKey)) :
    Nat → RegistryKey → RegistryM (Option RegistryKey)
  | 0, currentKey => return some currentKey
  | count + 1, currentKey => do
      let some child ← importKey | return none
      importKeys importKey count (currentKey.link child)

/-- The key, with the levels that are left below `REGISTRY_MAX_DEPTH`; none if anything
fails, which frees the whole tree. -/
def registryImportKeyRecursive : Nat → RegistryM (Option RegistryKey)
  | 0 => return none
  | levels + 1 => do
      let some keyName ← regReadExact 16 | return none
      let some keyPermissions ← regReadExact 2 | return none
      let some currentKey ← registryCreateKey (terminate keyName)
        (Layout.u16.decode keyPermissions) | return none
      let some valCount ← regReadExact 4 | return none
      let some currentKey ← importValues (Layout.u32.decode valCount).toNat currentKey | return none
      let some keyCount ← regReadExact 4 | return none
      importKeys (registryImportKeyRecursive levels) (Layout.u32.decode keyCount).toNat currentKey

/-- The tree behind the presence indicator: whether it can be read, and the new hive. -/
def importTree (hasRoot : List UInt8) : RegistryM (Bool × RegistryHive) :=
  if hasRoot.headD 0 ≠ 0 then do
    let some key ← registryImportKeyRecursive (registryMaxDepth + 1) |
      return (false, { root := none })
    return (true, { root := some key })
  else return (true, { root := none })

/-- What is read of the file that was opened: whether that succeeds, and the hive. -/
def importRoot (hive : RegistryHive) : RegistryM (Bool × RegistryHive) := do
  let some magic ← regReadExact 4 | return (false, hive)
  if magic ≠ registryMagic then return (false, hive)
  else do
    let some hasRoot ← regReadExact 1 | return (false, { root := none })
    importTree hasRoot

def registryHiveImport (hive : RegistryHive) (path : List UInt8) :
    RegistryM (Bool × RegistryHive) := do
  if ← vfsOpen path vfsOpenRead then do
    let result ← importRoot hive
    vfsClose
    return result
  else return (false, hive)

end RegistryM

end AvrKernel.Registry
