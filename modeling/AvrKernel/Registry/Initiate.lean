import AvrKernel.Registry.Hive
import AvrKernel.Util.Strings

/-!
# Loading the registry

`registry_hive_initiate`: the paths of the two hives are built in buffers and
remembered, and the hives are loaded from them, or created there.
-/

namespace AvrKernel.Registry

open Effect Util

def registryMaxPathLen : Nat := 128

def registryPermissionRead : UInt16 := 0x01
def registryPermissionWrite : UInt16 := 0x02

/-- The names of the hives' files, with the separator in front of them. -/
def hkrFile : List UInt8 := [0x2F, 0x68, 0x6B, 0x72]
def hkuFile : List UInt8 := [0x2F, 0x68, 0x6B, 0x75]

/-- The buffers of `registry_hive_initiate`, whose content is arbitrary at first, and the
paths that are remembered. -/
structure HivePaths where
  hkrFpath : Vector UInt8 registryMaxPathLen
  hkuFpath : Vector UInt8 registryMaxPathLen
  hkrHivePath : Vector UInt8 registryMaxPathLen
  hkuHivePath : Vector UInt8 registryMaxPathLen
  deriving DecidableEq

/-- A null byte at the end of a buffer. -/
def terminateBuffer (buffer : Vector UInt8 registryMaxPathLen) :
    Vector UInt8 registryMaxPathLen :=
  buffer.set (registryMaxPathLen - 1) 0 (by decide)

def buildHivePaths (path : CString) (p : HivePaths) : Option HivePaths := do
  let hkrFpath ← strncpy p.hkrFpath path.memory registryMaxPathLen
  let hkuFpath ← strncpy p.hkuFpath path.memory registryMaxPathLen
  let hkrFpath ← strncat (terminateBuffer hkrFpath) (hkrFile ++ [0]) registryMaxPathLen
  let hkuFpath ← strncat (terminateBuffer hkuFpath) (hkuFile ++ [0]) registryMaxPathLen
  let hkrHivePath ← strncpy p.hkrHivePath hkrFpath.toList registryMaxPathLen
  let hkuHivePath ← strncpy p.hkuHivePath hkuFpath.toList registryMaxPathLen
  return { hkrFpath, hkuFpath
           hkrHivePath := terminateBuffer hkrHivePath
           hkuHivePath := terminateBuffer hkuHivePath }

/-! ## Loading the hives -/

/-- The calls of the registry, and the removal of a file. -/
inductive InitiateCall
  | registry (call : RegistryCall)
  | vfsRemove (path : List UInt8)

@[reducible] def InitiateCall.Answer : InitiateCall → Type
  | registry call => call.Answer
  | vfsRemove _ => Bool

abbrev InitiateM (α : Type) : Type := Prog InitiateCall InitiateCall.Answer α

namespace InitiateM

def lift {α : Type} (p : RegistryM α) : InitiateM α := p.embed .registry fun _ => id

def vfsRemove (path : List UInt8) : InitiateM Bool := Prog.perform (InitiateCall.vfsRemove path)

/-- `strcmp` with a name. -/
def registryGetKey (parent : RegistryKey) (name : List UInt8) : Option RegistryKey :=
  parent.childKeys.find? fun key => key.name.bytes.toList.takeWhile (· ≠ 0) = name

/-- A root, if there is none. -/
def createRoot (name : List UInt8) (hive : RegistryHive) : RegistryM RegistryHive :=
  match hive.root with
  | some _ => return hive
  | none => do
      let root ← RegistryM.registryCreateKey name (registryPermissionRead |||
        registryPermissionWrite)
      return { root }

/-- "software". -/
def softwareName : List UInt8 := [0x73, 0x6F, 0x66, 0x74, 0x77, 0x61, 0x72, 0x65]

/-- The key of the software below the root, if it can be created. -/
def createSoftware (hive : RegistryHive) : RegistryM RegistryHive :=
  match hive.root with
  | none => return hive
  | some root =>
      if (registryGetKey root softwareName).isSome then return hive
      else do
        let some key ← RegistryM.registryCreateKey softwareName
          (registryPermissionRead ||| registryPermissionWrite) | return hive
        return { root := some (root.link key) }

/-- Load a hive, or create it and its file. -/
def loadHive (create : RegistryHive → RegistryM RegistryHive) (hive : RegistryHive)
    (path : List UInt8) : InitiateM (Bool × RegistryHive) := do
  let (loaded, hive) ← lift (RegistryM.registryHiveImport hive path)
  if loaded then return (true, hive)
  else do
    if ← lift (RegistryM.vfsExists path) then discard (vfsRemove path)
    if ← lift (RegistryM.vfsOpen path (vfsOpenRead ||| vfsOpenWrite ||| vfsOpenCreate)) then
      lift RegistryM.vfsClose
    let hive ← lift (create hive)
    if hive.root.isSome then
      let ok ← lift (RegistryM.registryHiveExport hive path)
      return (ok, hive)
    else return (false, hive)

/-- "hkey_root" and "hkey_user". -/
def hkeyRootName : List UInt8 := [0x68, 0x6B, 0x65, 0x79, 0x5F, 0x72, 0x6F, 0x6F, 0x74]
def hkeyUserName : List UInt8 := [0x68, 0x6B, 0x65, 0x79, 0x5F, 0x75, 0x73, 0x65, 0x72]

def loadHives (hkrPath hkuPath : List UInt8) (hkeyRoot hkeyUser : RegistryHive) :
    InitiateM (Bool × RegistryHive × RegistryHive) := do
  let (okRoot, hkeyRoot) ← loadHive (fun hive => createRoot hkeyRootName hive >>= createSoftware)
    hkeyRoot hkrPath
  let (okUser, hkeyUser) ← loadHive (createRoot hkeyUserName) hkeyUser hkuPath
  return (okRoot && okUser, hkeyRoot, hkeyUser)

/-- The paths, and what is done with them; none if a buffer is left. -/
def registryHiveInitiate (path : Option CString) (p : HivePaths)
    (hkeyRoot hkeyUser : RegistryHive) :
    Option (HivePaths × InitiateM (Bool × RegistryHive × RegistryHive)) :=
  match path with
  | none => some (p, return (false, hkeyRoot, hkeyUser))
  | some path => do
      let p ← buildHivePaths path p
      return (p, loadHives (cstring p.hkrFpath) (cstring p.hkuFpath) hkeyRoot hkeyUser)

end InitiateM

/-! ## The buffers -/

section Buffers

variable {path : CString} {buffer : Vector UInt8 registryMaxPathLen} {str rest name : List UInt8}

/-- A path in a buffer, terminated there. -/
def Holds (buffer : Vector UInt8 registryMaxPathLen) (str : List UInt8) : Prop :=
  (∀ c ∈ str, c ≠ 0) ∧ ∃ rest, buffer.toList = str ++ 0 :: rest

theorem Holds.cstring_eq (h : Holds buffer str) : cstring buffer = str := by
  obtain ⟨hstr, rest, hbuffer⟩ := h
  exact Util.cstring_eq hstr hbuffer

theorem Holds.terminated (h : Holds buffer str) : 0 ∈ buffer.toList := by
  obtain ⟨-, rest, hbuffer⟩ := h
  simp [hbuffer]

/-- Copying a path cuts it in front of the last byte of the buffer. -/
theorem holds_strncpy (dest : Vector UInt8 registryMaxPathLen) (rest : List UInt8)
    (hstr : ∀ c ∈ str, c ≠ 0) :
    ∃ copied, strncpy dest (str ++ 0 :: rest) registryMaxPathLen = some copied ∧
      Holds (terminateBuffer copied) (str.take (registryMaxPathLen - 1)) := by
  obtain ⟨copied, hcopy, hcopied⟩ := strncpy_eq dest rest hstr
  refine ⟨copied, hcopy, fun c hc => hstr c (List.mem_of_mem_take hc), ?_⟩
  rw [terminateBuffer, Vector.toList_set, hcopied]
  rcases Nat.lt_or_ge str.length registryMaxPathLen with hshort | hlong
  · -- the null byte is one of those behind the string
    rw [List.take_of_length_le (Nat.le_of_lt hshort),
      List.take_of_length_le (Nat.le_sub_one_of_lt hshort)]
    refine ⟨List.replicate (registryMaxPathLen - 1 - str.length) 0, ?_⟩
    rw [← List.replicate_succ]
    have hcount : registryMaxPathLen - str.length = registryMaxPathLen - 1 - str.length + 1 := by
      omega
    rw [← hcount, List.set_append_right _ _ (Nat.le_sub_one_of_lt hshort), List.set_replicate_self]
  · -- the string fills the buffer, and loses its last character
    have hlength : (str.take registryMaxPathLen).length = registryMaxPathLen :=
      List.length_take_of_le hlong
    refine ⟨[], ?_⟩
    rw [hlength, Nat.sub_self, List.replicate_zero, List.append_nil]
    have hset := List.set_eq_take_append_cons_drop (l := str.take registryMaxPathLen)
      (i := registryMaxPathLen - 1) (a := (0 : UInt8))
    rw [hset, if_pos (by rw [hlength]; decide), List.take_take]
    congr 2
    exact List.drop_of_length_le (by rw [hlength]; decide)

/-- The name of a hive's file goes behind a path that leaves room for it. -/
theorem holds_strncat (h : Holds buffer str) (hname : ∀ c ∈ name, c ≠ 0)
    (hlength : name.length ≤ registryMaxPathLen)
    (hroom : str.length + name.length < registryMaxPathLen) :
    ∃ joined, strncat buffer (name ++ [0]) registryMaxPathLen = some joined ∧
      Holds joined (str ++ name) := by
  obtain ⟨hstr, rest, hbuffer⟩ := h
  have htake : name.take registryMaxPathLen = name := List.take_of_length_le hlength
  obtain ⟨joined, hjoin, hjoined⟩ := strncat_eq (n := registryMaxPathLen) [] hstr hname
    hbuffer (by rw [htake]; exact hroom)
  rw [htake] at hjoined
  refine ⟨joined, hjoin, fun c hc => ?_, _, hjoined⟩
  rcases List.mem_append.mp hc with hin | hin
  · exact hstr c hin
  · exact hname c hin

theorem hkrFile_nonzero : ∀ c ∈ hkrFile, c ≠ 0 := by simp [hkrFile]

theorem hkuFile_nonzero : ∀ c ∈ hkuFile, c ≠ 0 := by simp [hkuFile]

end Buffers

namespace HivePaths

/-- All four paths are terminated in their buffers. -/
def Terminated (p : HivePaths) : Prop :=
  0 ∈ p.hkrFpath.toList ∧ 0 ∈ p.hkuFpath.toList ∧
    0 ∈ p.hkrHivePath.toList ∧ 0 ∈ p.hkuHivePath.toList

/-- The paths that are remembered are those that were built. -/
def Remembered (p : HivePaths) : Prop :=
  cstring p.hkrHivePath = cstring p.hkrFpath ∧ cstring p.hkuHivePath = cstring p.hkuFpath

end HivePaths

variable {path : CString}

/-- A path with room for the name of a hive is built, and remembered. -/
theorem buildHivePaths_of_short (before : HivePaths)
    (hshort : path.chars.length + hkrFile.length < registryMaxPathLen) :
    ∃ after, buildHivePaths path before = some after ∧
      Holds after.hkrFpath (path.chars ++ hkrFile) ∧ Holds after.hkuFpath (path.chars ++ hkuFile) ∧
      Holds after.hkrHivePath (path.chars ++ hkrFile) ∧
      Holds after.hkuHivePath (path.chars ++ hkuFile) := by
  have hcut : path.chars.take (registryMaxPathLen - 1) = path.chars :=
    List.take_of_length_le (by change path.chars.length + 4 < 128 at hshort; change _ ≤ 127; omega)
  obtain ⟨hkr₁, hcopy₁, hholds₁⟩ := holds_strncpy before.hkrFpath [] path.nonzero
  obtain ⟨hku₁, hcopy₂, hholds₂⟩ := holds_strncpy before.hkuFpath [] path.nonzero
  rw [hcut] at hholds₁ hholds₂
  obtain ⟨hkr₂, hjoin₁, hkr⟩ := holds_strncat hholds₁ hkrFile_nonzero (by decide) hshort
  obtain ⟨hku₂, hjoin₂, hku⟩ := holds_strncat hholds₂ hkuFile_nonzero (by decide) hshort
  obtain ⟨hkrNonzero, hkrRest, hkrList⟩ := id hkr
  obtain ⟨hkuNonzero, hkuRest, hkuList⟩ := id hku
  obtain ⟨hkr₃, hcopy₃, hholds₃⟩ := holds_strncpy before.hkrHivePath hkrRest hkrNonzero
  obtain ⟨hku₃, hcopy₄, hholds₄⟩ := holds_strncpy before.hkuHivePath hkuRest hkuNonzero
  have hcutName (name : List UInt8) (hname : name.length = 4) :
      (path.chars ++ name).take (registryMaxPathLen - 1) = path.chars ++ name := by
    apply List.take_of_length_le
    rw [List.length_append, hname]
    change path.chars.length + 4 < 128 at hshort
    change _ ≤ 127
    omega
  rw [hcutName _ rfl] at hholds₃ hholds₄
  refine ⟨⟨hkr₂, hku₂, terminateBuffer hkr₃, terminateBuffer hku₃⟩, ?_, hkr, hku, hholds₃,
    hholds₄⟩
  rw [← hkrList] at hcopy₃
  rw [← hkuList] at hcopy₄
  simp only [buildHivePaths, CString.memory, hcopy₁, hcopy₂, hjoin₁, hjoin₂, hcopy₃, hcopy₄,
    Option.bind_eq_bind, Option.bind_some, Option.pure_def]

/-- Behind a longer path the name of the hive runs over the end of the buffer. -/
theorem buildHivePaths_of_long (before : HivePaths)
    (hlong : registryMaxPathLen ≤ path.chars.length + hkrFile.length) :
    buildHivePaths path before = none := by
  obtain ⟨hkr, hcopy, hstr, rest, hbuffer⟩ :=
    holds_strncpy before.hkrFpath [] path.nonzero
  have hroom : registryMaxPathLen ≤ (path.chars.take (registryMaxPathLen - 1)).length +
      (hkrFile.take registryMaxPathLen).length := by
    change 128 ≤ path.chars.length + 4 at hlong
    change 128 ≤ (path.chars.take 127).length + 4
    rw [List.length_take]
    omega
  have hjoin := strncat_eq_none [] hstr hkrFile_nonzero hbuffer hroom
  obtain ⟨hku, hcopy', -⟩ := holds_strncpy before.hkuFpath [] path.nonzero
  simp only [buildHivePaths, CString.memory, hcopy, hcopy', hjoin, Option.bind_eq_bind,
    Option.bind_some, Option.bind_none]

/-- The paths are built inside of their buffers and terminated there, and the hives are
loaded from the paths that are remembered. -/
def InitiatesInside (path : CString) (before : HivePaths) : Prop :=
  ∀ hkeyRoot hkeyUser : RegistryHive, ∃ after : HivePaths,
    InitiateM.registryHiveInitiate (some path) before hkeyRoot hkeyUser =
      some (after, InitiateM.loadHives (cstring after.hkrFpath) (cstring after.hkuFpath)
        hkeyRoot hkeyUser) ∧
    after.Terminated ∧ after.Remembered

/-- The paths stay in their buffers exactly if the input leaves room for the name of a hive. -/
theorem initiatesInside_iff (path : CString) (before : HivePaths) :
    InitiatesInside path before ↔ path.chars.length + hkrFile.length < registryMaxPathLen := by
  constructor
  · intro hinside
    by_contra hlong
    obtain ⟨after, hrun, -⟩ := hinside { root := none } { root := none }
    rw [InitiateM.registryHiveInitiate, buildHivePaths_of_long before (Nat.not_lt.mp hlong)] at hrun
    cases hrun
  · intro hshort hkeyRoot hkeyUser
    obtain ⟨after, hbuild, hkr, hku, hkrSaved, hkuSaved⟩ := buildHivePaths_of_short before hshort
    refine ⟨after, ?_, ?_, ?_⟩
    · rw [InitiateM.registryHiveInitiate, hbuild]
      rfl
    · exact ⟨hkr.terminated, hku.terminated, hkrSaved.terminated, hkuSaved.terminated⟩
    · exact ⟨hkrSaved.cstring_eq.trans hkr.cstring_eq.symm,
        hkuSaved.cstring_eq.trans hku.cstring_eq.symm⟩

/-- 124 times the letter "a". -/
def longPath : CString where
  chars := List.replicate 124 0x61
  nonzero := fun c hc => by simp [List.eq_of_mem_replicate hc]

/-- The terminator is written behind the buffer. -/
theorem longPath_leaves_buffer : ¬ ∀ path before, InitiatesInside path before := by
  intro hall
  let zeros : Vector UInt8 registryMaxPathLen := Vector.replicate _ 0
  have hlong : registryMaxPathLen ≤ longPath.chars.length + hkrFile.length := by
    rw [longPath, List.length_replicate]
    exact Nat.le_refl _
  obtain ⟨after, hrun, -⟩ := hall longPath ⟨zeros, zeros, zeros, zeros⟩ { root := none }
    { root := none }
  rw [InitiateM.registryHiveInitiate, buildHivePaths_of_long _ hlong] at hrun
  cases hrun

end AvrKernel.Registry
