import AvrKernel.Registry.Hive

/-!
# Memory of hives that are read

The import of `registry.c` with the memory that it takes and gives back: keys, values and buffers
have addresses, and `malloc` may fail. A recursion takes a frame of the stack.
-/

namespace AvrKernel.Registry

open Bytes Effect

/-! ## Keys and values in memory -/

/-- A value, with the address and the bytes of its data. -/
structure ValueObject where
  address : Nat
  name : RegistryName
  data : Option (Nat × List UInt8)
  dataLen : UInt32
  permissions : UInt16

/-- A key. The last child that is linked comes first. -/
structure KeyObject where
  address : Nat
  name : RegistryName
  permissions : UInt16
  childKeys : List KeyObject
  values : List ValueObject

/-- What a hive owns. -/
structure HiveObject where
  root : Option KeyObject

/-- What an import asks of other parts of the kernel. -/
inductive ImportCall
  | vfsOpen (path : List UInt8) (flags : UInt16)
  | vfsClose
  | vfsRead (size : UInt32)
  | malloc (size : UInt32)
  | free (address : Nat)

/-- The answer to a call; none is an error, or no memory. -/
@[reducible] def ImportCall.Answer : ImportCall → Type
  | vfsOpen .. => Bool
  | vfsClose => Unit
  | vfsRead _ => Option (List UInt8)
  | malloc _ => Option Nat
  | free _ => Unit

abbrev ImportM (α : Type) : Type := Prog ImportCall ImportCall.Answer α

namespace ImportM

def vfsOpen (path : List UInt8) (flags : UInt16) : ImportM Bool :=
  Prog.perform (ImportCall.vfsOpen path flags)

def vfsClose : ImportM Unit := Prog.perform ImportCall.vfsClose

def malloc (size : UInt32) : ImportM (Option Nat) := Prog.perform (ImportCall.malloc size)

def free (address : Nat) : ImportM Unit := Prog.perform (ImportCall.free address)

def regReadExact (size : UInt32) : ImportM (Option (List UInt8)) :=
  if size = 0 then return some []
  else do
    let bytes ← Prog.perform (ImportCall.vfsRead size)
    return bytes.filter fun bytes => bytes.length = size.toNat

/-! ## Freeing -/

def registryFreeValue (val : ValueObject) : ImportM Unit := do
  if let some (address, _) := val.data then free address
  free val.address

def freeValues : List ValueObject → ImportM Unit
  | [] => return ()
  | val :: rest => do
      registryFreeValue val
      freeValues rest

mutual

def registryFreeKey : KeyObject → ImportM Unit
  | { address, name := _, permissions := _, childKeys, values } => do
      freeKeys childKeys
      freeValues values
      free address

def freeKeys : List KeyObject → ImportM Unit
  | [] => return ()
  | child :: rest => do
      registryFreeKey child
      freeKeys rest

end

/-! ## Creating -/

def registryKeySize : UInt32 := 32
def registryValueSize : UInt32 := 32

/-- A new key; whoever creates it links it into its parent. -/
def registryCreateKey (name : List UInt8) (permissions : UInt16) : ImportM (Option KeyObject) := do
  let some address ← malloc registryKeySize | return none
  return some { address, name := .copy name, permissions, childKeys := [], values := [] }

/-- A new value with its own copy of the data. -/
def registryCreateValue (name : List UInt8) (permissions : UInt16) (data : Option (List UInt8))
    (size : UInt32) : ImportM (Option ValueObject) := do
  let some address ← malloc registryValueSize | return none
  match data with
  | some bytes =>
      if size > 0 then do
        let some copy ← malloc size | do
          free address
          return none
        return some { address, name := .copy name, data := some (copy, bytes), dataLen := size
                      permissions }
      else return some { address, name := .copy name, data := none, dataLen := size, permissions }
  | none => return some { address, name := .copy name, data := none, dataLen := size, permissions }

/-! ## Importing -/

/-- The buffer with the data of a value, or no buffer if it is empty. -/
def importData (valSize : UInt32) : ImportM (Option (Option (Nat × List UInt8))) :=
  if valSize > 0 then do
    let some valData ← malloc valSize | return none
    let some bytes ← regReadExact valSize | do
      free valData
      return none
    return some (some (valData, bytes))
  else return some none

def importValue : ImportM (Option ValueObject) := do
  let some valName ← regReadExact 16 | return none
  let some valPermissions ← regReadExact 2 | return none
  let some valSize ← regReadExact 4 | return none
  if Layout.u32.decode valSize > registryMaxValueSize then return none
  else do
    let some valData ← importData (Layout.u32.decode valSize) | return none
    let created ← registryCreateValue (RegistryM.terminate valName)
      (Layout.u16.decode valPermissions) (valData.map (·.2)) (Layout.u32.decode valSize)
    if let some (address, _) := valData then free address
    return created

/-- The values of a key, and whether all of them have been read. -/
def importValues : Nat → List ValueObject → ImportM (Bool × List ValueObject)
  | 0, values => return (true, values)
  | count + 1, values => do
      let some value ← importValue | return (false, values)
      importValues count (value :: values)

/-- The children of a key; one that fails is linked as well, as far as it has been read. -/
def importKeys (importKey : ImportM (Bool × Option KeyObject)) :
    Nat → List KeyObject → ImportM (Bool × List KeyObject)
  | 0, childKeys => return (true, childKeys)
  | count + 1, childKeys => do
      let (imported, linked) ← importKey
      if imported then importKeys importKey count (linked.toList ++ childKeys)
      else return (false, linked.toList ++ childKeys)

/-- `fail`: a root is freed, and another key is left to its parent. -/
def importFailed (isRoot : Bool) (currentKey : KeyObject) : ImportM (Bool × Option KeyObject) :=
  if isRoot then do
    registryFreeKey currentKey
    return (false, none)
  else return (false, some currentKey)

/-- Whether a key has been read, and what has been linked into its parent. -/
def registryImportKeyRecursive : Nat → Bool → Nat → ImportM (Bool × Option KeyObject)
  | 0, _, _ => Prog.halt
  | frames + 1, isRoot, depth =>
      if depth > registryMaxDepth then return (false, none)
      else do
        let some keyName ← regReadExact 16 | return (false, none)
        let some keyPermissions ← regReadExact 2 | return (false, none)
        let some currentKey ← registryCreateKey (RegistryM.terminate keyName)
          (Layout.u16.decode keyPermissions) | return (false, none)
        let some valCount ← regReadExact 4 | importFailed isRoot currentKey
        let (ok, values) ← importValues (Layout.u32.decode valCount).toNat []
        let currentKey := { currentKey with values }
        if ok then do
          let some keyCount ← regReadExact 4 | importFailed isRoot currentKey
          let (ok, childKeys) ← importKeys (registryImportKeyRecursive frames false (depth + 1))
            (Layout.u32.decode keyCount).toNat []
          let currentKey := { currentKey with childKeys }
          if ok then return (true, some currentKey) else importFailed isRoot currentKey
        else importFailed isRoot currentKey

/-- What the presence indicator announces: whether it can be read, and the hive. -/
def importAnnounced (frames : Nat) : ImportM (Bool × HiveObject) := do
  let some hasRoot ← regReadExact 1 | return (false, { root := none })
  if hasRoot.headD 0 ≠ 0 then do
    let (imported, root) ← registryImportKeyRecursive frames true 0
    return (imported, { root := if imported then root else none })
  else return (true, { root := none })

/-- The tree that was there is freed before. -/
def importTree (frames : Nat) (hive : HiveObject) : ImportM (Bool × HiveObject) :=
  match hive.root with
  | some root => do
      registryFreeKey root
      importAnnounced frames
  | none => importAnnounced frames

def importRoot (frames : Nat) (hive : HiveObject) : ImportM (Bool × HiveObject) := do
  let some magic ← regReadExact 4 | return (false, hive)
  if magic ≠ RegistryM.registryMagic then return (false, hive)
  else importTree frames hive

def registryHiveImport (frames : Nat) (hive : HiveObject) (path : List UInt8) :
    ImportM (Bool × HiveObject) := do
  if ← vfsOpen path vfsOpenRead then do
    let result ← importRoot frames hive
    vfsClose
    return result
  else return (false, hive)

end ImportM

end AvrKernel.Registry
