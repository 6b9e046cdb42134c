import AvrKernel.Registry.RoundTrip

/-!
# Saved hives

A hive that has been saved can be loaded again unless it is out of the limits of
the reader or a value of it has a size but no data.
-/

namespace AvrKernel.Registry

open Bytes Effect RegistryM

/-! ## Export -/

variable {s s' : Store} {hive : RegistryHive} {path content : List UInt8}

/-- The rest of the export when the file exists. -/
def exportFile (hive : RegistryHive) (path : List UInt8) : RegistryM Bool :=
  andThen (vfsTruncate path (registryCalculateTotalExportSize hive + 4)) <|
    andThen (vfsOpen path vfsOpenWrite) do
      let ok ← exportRoot hive
      vfsClose
      return ok

theorem run_truncate (hfile : s.files path = some content) (size : UInt32) :
    ∃ s₁ content', s.run (vfsTruncate path size) = some (true, s₁) ∧
      s₁.files path = some content' ∧ s₁.limit = s.limit := by
  by_cases hfits : size.toNat ≤ s.limit
  · refine ⟨s.setFile path (s.resized content size.toNat),
      s.resized content size.toNat, ?_, ?_, rfl⟩
    · change some (Store.handle (.vfsTruncate path size) s) = _
      simp only [Store.handle, hfile, if_pos hfits]
    · exact Function.update_self ..
  · refine ⟨s, content, ?_, hfile, rfl⟩
    change some (Store.handle (.vfsTruncate path size) s) = _
    simp only [Store.handle, hfile, if_neg hfits]

theorem run_open (hfile : s.files path = some content) (flags : UInt16) :
    s.run (vfsOpen path flags) = some (true, s.opened path) := by
  change some (Store.handle (.vfsOpen path flags) s) = _
  simp [Store.handle, hfile]

theorem at_opened (hfile : s.files path = some content) :
    (s.opened path).At { path, position := 0 } [] content :=
  ⟨rfl, hfile, rfl⟩

/-- The file holds the hive, if there is room for it. -/
theorem run_exportFile (hive : RegistryHive) (hfile : s.files path = some content) :
    (hive.encode.length ≤ s.limit → ∃ s' rest, s.run (exportFile hive path) = some (true, s') ∧
      s'.files path = some (hive.encode ++ rest) ∧ s'.written = hive.encode.length) ∧
    (s.limit < hive.encode.length → ∃ s', s.run (exportFile hive path) = some (false, s')) := by
  obtain ⟨s₁, content', htruncate, hfile₁, hlimit⟩ :=
    run_truncate hfile (registryCalculateTotalExportSize hive + 4)
  have hat := at_opened hfile₁
  obtain ⟨hfits, hfull⟩ := writes_exportRoot hive _ _ _ _ hat (Nat.zero_le _)
  have hstart : s.run (exportFile hive path) = (s₁.opened path).run (do
      let ok ← exportRoot hive
      vfsClose
      return ok) := by
    rw [exportFile, andThen, Store.run_bind_of htruncate, if_pos rfl, andThen,
      Store.run_bind_of (run_open hfile₁ _), if_pos rfl]
  rw [hstart]
  constructor
  · intro hroom
    have hrun := hfits (by simpa [Store.opened, hlimit] using hroom)
    refine ⟨{ (s₁.opened path).wrote { path, position := 0 } hive.encode with openFile := none },
      content'.drop hive.encode.length, ?_, ?_, ?_⟩
    · rw [Store.run_bind_of hrun]
      rfl
    · exact (hat.wrote hive.encode).content
    · exact Nat.zero_add _
  · intro hroom
    obtain ⟨s', hrun⟩ := hfull (by simpa [Store.opened, hlimit] using hroom)
    exact ⟨{ s' with openFile := none }, by rw [Store.run_bind_of hrun]; rfl⟩

theorem run_export_of_file (hive : RegistryHive) (hfile : s.files path = some content) :
    s.run (registryHiveExport hive path) = s.run (exportFile hive path) := by
  have hexists : s.run (vfsExists path) = some (true, s) := by
    change some (Store.handle (.vfsExists path) s) = _
    simp [Store.handle, hfile]
  have hcreate : s.run (registryHiveExport.createFile path) = some (true, s) := by
    rw [registryHiveExport.createFile, Store.run_bind_of hexists]
    rfl
  rw [registryHiveExport, andThen, Store.run_bind_of hcreate, if_pos rfl]
  rfl

/-- The export goes on with a file that exists, and fails if there is none. -/
theorem run_export (hive : RegistryHive) (s : Store) (path : List UInt8) :
    (∃ (s₁ : Store) (content : List UInt8), s₁.files path = some content ∧ s₁.limit = s.limit ∧
      s.run (registryHiveExport hive path) = s₁.run (exportFile hive path)) ∨
    s.run (registryHiveExport hive path) = some (false, s) := by
  cases hfile : s.files path with
  | some content =>
      exact Or.inl ⟨s, content, hfile, rfl, run_export_of_file hive hfile⟩
  | none =>
      have hexists : s.run (vfsExists path) = some (false, s) := by
        change some (Store.handle (.vfsExists path) s) = _
        simp [Store.handle, hfile]
      by_cases hcreatable : s.creatable path = true
      · have hopen : s.run (vfsOpen path (vfsOpenWrite ||| vfsOpenCreate)) =
            some (true, (s.setFile path []).opened path) := by
          change some (Store.handle (.vfsOpen path (vfsOpenWrite ||| vfsOpenCreate)) s) = _
          have hflag : (vfsOpenWrite ||| vfsOpenCreate) &&& vfsOpenCreate ≠ 0 := by decide
          simp [Store.handle, hfile, hcreatable, hflag]
        have hcreate : s.run (registryHiveExport.createFile path) =
            some (true, { (s.setFile path []).opened path with openFile := none }) := by
          rw [registryHiveExport.createFile, Store.run_bind_of hexists, if_neg Bool.false_ne_true,
            andThen, Store.run_bind_of hopen]
          rfl
        refine Or.inl ⟨{ (s.setFile path []).opened path with openFile := none }, [],
          Function.update_self .., rfl, ?_⟩
        rw [registryHiveExport, andThen, Store.run_bind_of hcreate, if_pos rfl]
        rfl
      · refine Or.inr ?_
        have hopen : s.run (vfsOpen path (vfsOpenWrite ||| vfsOpenCreate)) = some (false, s) := by
          change some (Store.handle (.vfsOpen path (vfsOpenWrite ||| vfsOpenCreate)) s) = _
          simp [Store.handle, hfile, hcreatable]
        have hcreate : s.run (registryHiveExport.createFile path) = some (false, s) := by
          rw [registryHiveExport.createFile, Store.run_bind_of hexists, if_neg Bool.false_ne_true,
            andThen, Store.run_bind_of hopen]
          rfl
        rw [registryHiveExport, andThen, Store.run_bind_of hcreate]
        rfl

theorem export_true (h : s.run (registryHiveExport hive path) = some (true, s')) :
    hive.encode.length < 2 ^ 32 ∧ s'.written = hive.encode.length ∧
      ∃ rest, s'.files path = some (hive.encode ++ rest) := by
  rcases run_export hive s path with ⟨s₁, content, hfile, hlimit, hrun⟩ | hfalse
  · rw [hrun] at h
    obtain ⟨hfits, hfull⟩ := run_exportFile hive hfile
    by_cases hroom : hive.encode.length ≤ s₁.limit
    · obtain ⟨s'', rest, hsome, hcontent, hwritten⟩ := hfits hroom
      obtain rfl : s'' = s' := (Prod.mk.inj (Option.some.inj (hsome.symm.trans h))).2
      exact ⟨hroom.trans_lt s₁.limit_lt, hwritten, rest, hcontent⟩
    · obtain ⟨s'', hsome⟩ := hfull (Nat.not_le.mp hroom)
      exact absurd (Prod.mk.inj (Option.some.inj (hsome.symm.trans h))).1 Bool.false_ne_true
  · exact absurd (Prod.mk.inj (Option.some.inj (hfalse.symm.trans h))).1 Bool.false_ne_true

/-! ## Import -/

/-- Whether `registry_hive_import` accepts the hive. -/
def RegistryHive.Loads (hive : RegistryHive) : Prop :=
  ∀ key, hive.root = some key → key.Loads (registryMaxDepth + 1)

def RegistryHive.mirror (hive : RegistryHive) : RegistryHive :=
  { root := hive.root.map RegistryKey.mirror }

theorem run_importRoot {hasRoot : UInt8} {past rest : List UInt8} {file : OpenFile}
    (h : s.At file past (registryMagic ++ ([hasRoot] ++ rest))) (old : RegistryHive) :
    ∃ (s' : Store) (file' : OpenFile) (past' : List UInt8),
      s.run (importRoot old) = s'.run (importTree [hasRoot]) ∧
      s'.At file' past' rest := by
  have hmagic : Store.Reads (regReadExact 4) registryMagic (some registryMagic) :=
    Store.reads_regReadExact (by decide) rfl
  have hroot : Store.Reads (regReadExact 1) [hasRoot] (some [hasRoot]) :=
    Store.reads_regReadExact (b := [hasRoot]) (by simp) rfl
  have hat := h.skipped
  refine ⟨_, _, _, ?_, hat.skipped⟩
  rw [importRoot, Store.run_bind_of (hmagic _ _ _ _ h)]
  simp only [ne_eq, not_true_eq_false, if_false]
  rw [Store.run_bind_of (hroot _ _ _ _ hat)]

theorem run_registryHiveImport (hfile : s.files path = some content) (old : RegistryHive)
    {result : Bool × RegistryHive}
    (hrun : (s.opened path).run (importRoot old) = some (result, s')) :
    ∃ s', s.run (registryHiveImport old path) = some (result, s') := by
  refine ⟨{ s' with openFile := none }, ?_⟩
  rw [registryHiveImport, Store.run_bind_of (run_open hfile _), if_pos rfl,
    Store.run_bind_of hrun]
  rfl

theorem run_import {rest : List UInt8} (hfile : s.files path = some (hive.encode ++ rest))
    (hmissing : hive.missing = 0) (hlength : hive.encode.length < 2 ^ 32) (old : RegistryHive) :
    (hive.Loads → ∃ s', s.run (registryHiveImport old path) = some ((true, hive.mirror), s')) ∧
    (¬ hive.Loads → ∃ s', s.run (registryHiveImport old path) =
      some ((false, { root := none }), s')) := by
  have hat := at_opened hfile
  obtain ⟨root⟩ := hive
  cases root with
  | none =>
      simp only [RegistryHive.encode, List.append_assoc] at hat
      obtain ⟨s₁, -, -, hrun, -⟩ := run_importRoot hat old
      have htree : s₁.run (importTree [0]) = some ((true, { root := none }), s₁) := rfl
      rw [htree] at hrun
      exact ⟨fun _ => run_registryHiveImport hfile old hrun,
        fun hbad => absurd (fun key => by rintro ⟨⟩) hbad⟩
  | some key =>
      have hkeylength : key.encode.length < 2 ^ 32 := by
        simp only [RegistryHive.encode, List.length_append] at hlength
        omega
      obtain ⟨hgood, hbad⟩ := outcome_importKey (registryMaxDepth + 1) key hmissing hkeylength
      simp only [RegistryHive.encode, List.append_assoc] at hat
      obtain ⟨s₁, file', past', hrun, hat'⟩ := run_importRoot hat old
      have hloads : ({ root := some key } : RegistryHive).Loads ↔
        key.Loads (registryMaxDepth + 1) :=
        ⟨fun h => h key rfl, fun h _ heq => Option.some.inj heq ▸ h⟩
      rw [hloads]
      constructor
      · intro hkey
        have htree := hgood hkey _ _ _ _ hat'
        apply run_registryHiveImport hfile old
        rw [hrun, importTree, if_pos (by decide), Store.run_bind_of htree]
        rfl
      · intro hkey
        obtain ⟨s₂, htree⟩ := hbad hkey _ _ _ _ hat'
        apply run_registryHiveImport hfile old
        rw [hrun, importTree, if_pos (by decide), Store.run_bind_of htree]
        rfl

/-! ## What can be loaded -/

mutual

/-- How deep keys are nested below this one. -/
def RegistryKey.height : RegistryKey → Nat
  | { name := _, permissions := _, childKeys, values := _ } => heights childKeys

def heights : List RegistryKey → Nat
  | [] => 0
  | key :: rest => max (key.height + 1) (heights rest)

end

mutual

/-- The values of a key and of all keys below it. -/
def RegistryKey.allValues : RegistryKey → List RegistryValue
  | { name := _, permissions := _, childKeys, values } => values ++ allValuesBelow childKeys

def allValuesBelow : List RegistryKey → List RegistryValue
  | [] => []
  | key :: rest => key.allValues ++ allValuesBelow rest

end

/-- Hives that the reader accepts and that have all their data. -/
structure RegistryHive.Loadable (hive : RegistryHive) : Prop where
  nested : ∀ key, hive.root = some key → key.height ≤ registryMaxDepth
  small : ∀ key, hive.root = some key → ∀ v ∈ key.allValues, v.dataLen ≤ registryMaxValueSize
  complete : ∀ key, hive.root = some key → ∀ v ∈ key.allValues, v.data = none → v.dataLen = 0

/-- Whenever the hive is saved, the file has the calculated size and can be loaded. -/
def RegistryHive.Saves (hive : RegistryHive) : Prop :=
  ∀ s path s', Store.run (registryHiveExport hive path) s = some (true, s') →
    s'.written = registryMagic.length + (registryCalculateTotalExportSize hive).toNat ∧
    ∀ old, ∃ hive' s'', s'.run (registryHiveImport old path) = some ((true, hive'), s'')

theorem mem_allValuesBelow {keys : List RegistryKey} {v : RegistryValue} :
    v ∈ allValuesBelow keys ↔ ∃ key ∈ keys, v ∈ key.allValues := by
  induction keys with
  | nil => simp [allValuesBelow]
  | cons key rest ih => simp [allValuesBelow, ih]

theorem heights_le {keys : List RegistryKey} {n : Nat} :
    heights keys ≤ n ↔ ∀ key ∈ keys, key.height + 1 ≤ n := by
  induction keys with
  | nil => simp [heights]
  | cons key rest ih => simp [heights, ih]

theorem RegistryKey.loads_iff (levels : Nat) (key : RegistryKey) :
    key.Loads levels ↔
      key.height + 1 ≤ levels ∧ ∀ v ∈ key.allValues, v.dataLen ≤ registryMaxValueSize := by
  induction levels generalizing key with
  | zero => simp [RegistryKey.Loads]
  | succ levels ih =>
      obtain ⟨name, permissions, childKeys, values⟩ := key
      simp only [RegistryKey.Loads, RegistryKey.height, RegistryKey.allValues, List.mem_append,
        mem_allValuesBelow, Nat.add_le_add_iff_right, heights_le, ih]
      constructor
      · rintro ⟨hvalues, hchildren⟩
        refine ⟨fun key hin => (hchildren key hin).1, fun v hv => ?_⟩
        rcases hv with hv | ⟨key, hin, hv⟩
        · exact hvalues v hv
        · exact (hchildren key hin).2 v hv
      · rintro ⟨hheights, hvalues⟩
        exact ⟨fun v hv => hvalues v (Or.inl hv),
          fun key hin => ⟨hheights key hin, fun v hv => hvalues v (Or.inr ⟨key, hin, hv⟩)⟩⟩

theorem RegistryValue.missing_eq_zero_iff (v : RegistryValue) :
    v.missing = 0 ↔ (v.data = none → v.dataLen = 0) := by
  cases hdata : v.data with
  | none =>
      simp only [RegistryValue.missing, hdata, Option.getD_none, List.length_nil, Nat.sub_zero,
        forall_true_left]
      exact ⟨fun h => UInt32.toNat_inj.mp h, fun h => by rw [h]; rfl⟩
  | some bytes =>
      simp [RegistryValue.missing, hdata, (v.sized bytes hdata).1]

theorem missingValues_eq_zero_iff (values : List RegistryValue) :
    missingValues values = 0 ↔ ∀ v ∈ values, v.data = none → v.dataLen = 0 := by
  induction values with
  | nil => simp [missingValues]
  | cons v rest ih =>
      rw [List.forall_mem_cons, ← ih, ← v.missing_eq_zero_iff]
      exact Nat.add_eq_zero_iff

mutual

theorem RegistryKey.missing_eq_zero_iff : (key : RegistryKey) →
    (key.missing = 0 ↔ ∀ v ∈ key.allValues, v.data = none → v.dataLen = 0)
  | { name, permissions, childKeys, values } => by
      rw [RegistryKey.missing, Nat.add_eq_zero_iff, missingValues_eq_zero_iff,
        missingKeys_eq_zero_iff childKeys, RegistryKey.allValues, List.forall_mem_append]

theorem missingKeys_eq_zero_iff : (keys : List RegistryKey) →
    (missingKeys keys = 0 ↔ ∀ v ∈ allValuesBelow keys, v.data = none → v.dataLen = 0)
  | [] => by simp [missingKeys, allValuesBelow]
  | key :: rest => by
      rw [missingKeys, Nat.add_eq_zero_iff, key.missing_eq_zero_iff,
        missingKeys_eq_zero_iff rest, allValuesBelow, List.forall_mem_append]

end

theorem RegistryHive.loadable_iff : hive.Loadable ↔ hive.missing = 0 ∧ hive.Loads := by
  obtain ⟨root⟩ := hive
  cases root with
  | none =>
      refine iff_of_true ⟨nofun, nofun, nofun⟩ ⟨rfl, nofun⟩
  | some key =>
      have hloads := key.loads_iff (registryMaxDepth + 1)
      have hmissing := key.missing_eq_zero_iff
      constructor
      · rintro ⟨hnested, hsmall, hcomplete⟩
        refine ⟨hmissing.mpr (hcomplete key rfl), ?_⟩
        rintro _ ⟨⟩
        exact hloads.mpr ⟨Nat.succ_le_succ (hnested key rfl), hsmall key rfl⟩
      · rintro ⟨hzero, hreads⟩
        obtain ⟨hheight, hsmall⟩ := hloads.mp (hreads key rfl)
        refine ⟨?_, ?_, ?_⟩
        · rintro _ ⟨⟩
          exact Nat.le_of_succ_le_succ hheight
        · rintro _ ⟨⟩
          exact hsmall
        · rintro _ ⟨⟩
          exact hmissing.mp hzero

/-- The calculated size, as a number. -/
theorem totalExportSize_toNat (hlength : hive.encode.length + hive.missing < 2 ^ 32) :
    registryMagic.length + (registryCalculateTotalExportSize hive).toNat =
      hive.encode.length + hive.missing := by
  have hfour : 4 ≤ hive.encode.length := by
    simp only [RegistryHive.encode, List.length_append, registryMagic, List.length_cons]
    omega
  have hsize := ofNat_length_encodeHive hive
  have hnat := congrArg UInt32.toNat hsize
  rw [UInt32.toNat_ofNat_of_lt' hlength, UInt32.toNat_add] at hnat
  have hlt := (registryCalculateTotalExportSize hive).toNat_lt
  simp only [registryMagic, List.length_cons, List.length_nil, UInt32.reduceToNat] at hnat ⊢
  omega

theorem RegistryHive.Loadable.saves (h : hive.Loadable) : hive.Saves := by
  obtain ⟨hmissing, hloads⟩ := RegistryHive.loadable_iff.mp h
  intro s path s' hrun
  obtain ⟨hlength, hwritten, rest, hfile⟩ := export_true hrun
  refine ⟨?_, fun old => ?_⟩
  · rw [totalExportSize_toNat (by rwa [hmissing]), hmissing]
    exact hwritten
  · obtain ⟨s'', himport⟩ := (run_import hfile hmissing hlength old).1 hloads
    exact ⟨hive.mirror, s'', himport⟩

/-- A store of empty files with all the room that a file can have. -/
def emptyStore : Store :=
  { files := fun _ => some [], openFile := none, creatable := fun _ => true, fresh := fun _ => 0
    limit := 2 ^ 32 - 1, limit_lt := by decide, written := 0 }

theorem RegistryHive.Saves.loadable (h : hive.Saves)
    (hlength : hive.encode.length + hive.missing < 2 ^ 32) : hive.Loadable := by
  have hroom : hive.encode.length ≤ emptyStore.limit := by
    change hive.encode.length ≤ 2 ^ 32 - 1
    omega
  have hfile : emptyStore.files [] = some [] := rfl
  obtain ⟨s', rest, hexport, -, -⟩ := (run_exportFile hive hfile).1 hroom
  have hrun := (run_export_of_file hive hfile).trans hexport
  obtain ⟨-, hwritten, rest, hsaved⟩ := export_true hrun
  obtain ⟨hsize, himport⟩ := h emptyStore [] s' hrun
  have hmissing : hive.missing = 0 := by
    rw [totalExportSize_toNat hlength, hwritten] at hsize
    omega
  refine RegistryHive.loadable_iff.mpr ⟨hmissing, ?_⟩
  by_contra hloads
  have hfits : hive.encode.length < 2 ^ 32 := by omega
  obtain ⟨s₁, hfails⟩ := (run_import hsaved hmissing hfits { root := none }).2 hloads
  obtain ⟨hive', s₂, htrue⟩ := himport { root := none }
  have hpair := (Prod.mk.inj (Option.some.inj (hfails.symm.trans htrue))).1
  exact absurd (Prod.mk.inj hpair).1 Bool.false_ne_true

/-- A value with a size and no data, or one that the reader refuses, is what keeps a hive
from being loaded again. -/
theorem saves_iff_loadable (hive : RegistryHive) :
    (hive.Loadable → hive.Saves) ∧
      (hive.encode.length + hive.missing < 2 ^ 32 → hive.Saves → hive.Loadable) :=
  ⟨fun h => h.saves, fun hlength h => h.loadable hlength⟩

/-- A root key with a value of four bytes that was created without data. -/
def emptyValueHive : RegistryHive :=
  { root := some
      { name := .copy [0x72], permissions := 3, childKeys := []
        values := [.empty [0x76] 3 4] } }

theorem emptyValueHive_not_saves : ¬ emptyValueHive.Saves := by
  intro h
  have hloadable := h.loadable (by decide)
  exact absurd (hloadable.complete _ rfl _ List.mem_cons_self rfl) (by decide)

/-! ## Round trips -/

theorem mirrorKeys_eq_map (keys : List RegistryKey) :
    mirrorKeys keys = keys.map RegistryKey.mirror := by
  induction keys with
  | nil => rfl
  | cons key rest ih => rw [mirrorKeys, ih, List.map_cons]

mutual

@[simp] theorem RegistryKey.mirror_mirror : (key : RegistryKey) → key.mirror.mirror = key
  | { name, permissions, childKeys, values } => by
      rw [RegistryKey.mirror, RegistryKey.mirror, List.reverse_reverse, mirrorKeys_eq_map,
        List.map_reverse, List.reverse_reverse, ← mirrorKeys_eq_map, mirrorKeys_mirrorKeys]

theorem mirrorKeys_mirrorKeys : (keys : List RegistryKey) → mirrorKeys (mirrorKeys keys) = keys
  | [] => rfl
  | key :: rest => by
      rw [mirrorKeys, mirrorKeys, key.mirror_mirror, mirrorKeys_mirrorKeys rest]

end

theorem RegistryHive.mirror_mirror (hive : RegistryHive) : hive.mirror.mirror = hive := by
  obtain ⟨root⟩ := hive
  cases root with
  | none => rfl
  | some key => simp [RegistryHive.mirror]

theorem heights_reverse (keys : List RegistryKey) : heights keys.reverse = heights keys := by
  apply le_antisymm
  · rw [heights_le]
    intro key hin
    exact heights_le.mp le_rfl key (List.mem_reverse.mp hin)
  · rw [heights_le]
    intro key hin
    exact heights_le.mp le_rfl key (List.mem_reverse.mpr hin)

mutual

theorem RegistryKey.height_mirror : (key : RegistryKey) → key.mirror.height = key.height
  | { name, permissions, childKeys, values } => by
      rw [RegistryKey.mirror, RegistryKey.height, heights_reverse, heights_mirrorKeys,
        RegistryKey.height]

theorem heights_mirrorKeys : (keys : List RegistryKey) → heights (mirrorKeys keys) = heights keys
  | [] => rfl
  | key :: rest => by
      rw [mirrorKeys, heights, key.height_mirror, heights_mirrorKeys rest, heights]

end

theorem mem_allValuesBelow_reverse {keys : List RegistryKey} {v : RegistryValue} :
    v ∈ allValuesBelow keys.reverse ↔ v ∈ allValuesBelow keys := by
  simp [mem_allValuesBelow]

mutual

theorem RegistryKey.mem_allValues_mirror (v : RegistryValue) : (key : RegistryKey) →
    (v ∈ key.mirror.allValues ↔ v ∈ key.allValues)
  | { name, permissions, childKeys, values } => by
      rw [RegistryKey.mirror, RegistryKey.allValues, RegistryKey.allValues, List.mem_append,
        List.mem_append, List.mem_reverse, mem_allValuesBelow_reverse,
        mem_allValuesBelow_mirrorKeys v childKeys]

theorem mem_allValuesBelow_mirrorKeys (v : RegistryValue) : (keys : List RegistryKey) →
    (v ∈ allValuesBelow (mirrorKeys keys) ↔ v ∈ allValuesBelow keys)
  | [] => Iff.rfl
  | key :: rest => by
      rw [mirrorKeys, allValuesBelow, allValuesBelow, List.mem_append, List.mem_append,
        key.mem_allValues_mirror, mem_allValuesBelow_mirrorKeys v rest]

end

theorem RegistryHive.Loadable.mirror (h : hive.Loadable) : hive.mirror.Loadable := by
  have hroot : ∀ key, hive.mirror.root = some key →
      ∃ original, hive.root = some original ∧ original.mirror = key := fun key heq =>
    Option.map_eq_some_iff.mp heq
  refine ⟨?_, ?_, ?_⟩
  · intro key heq
    obtain ⟨original, horiginal, rfl⟩ := hroot key heq
    rw [original.height_mirror]
    exact h.nested original horiginal
  · intro key heq v hv
    obtain ⟨original, horiginal, rfl⟩ := hroot key heq
    exact h.small original horiginal v ((RegistryKey.mem_allValues_mirror v original).mp hv)
  · intro key heq v hv
    obtain ⟨original, horiginal, rfl⟩ := hroot key heq
    exact h.complete original horiginal v ((RegistryKey.mem_allValues_mirror v original).mp hv)

/-- Trees that have the same keys and values at every level, in any order. -/
inductive RegistryKey.Agrees : RegistryKey → RegistryKey → Prop
  | intro {key key' : RegistryKey} (order : List RegistryKey) (_ : key.name = key'.name)
      (_ : key.permissions = key'.permissions) (values : key.values.Perm key'.values)
      (reordered : order.Perm key'.childKeys) (children : List.Forall₂ Agrees key.childKeys order) :
      Agrees key key'

mutual

theorem RegistryKey.agrees_mirror : (key : RegistryKey) → key.Agrees key.mirror
  | { name := _, permissions := _, childKeys, values } =>
      .intro (mirrorKeys childKeys) rfl rfl (List.reverse_perm values).symm
        (List.reverse_perm _).symm (agree_mirrorKeys childKeys)

theorem agree_mirrorKeys : (keys : List RegistryKey) →
    List.Forall₂ RegistryKey.Agrees keys (mirrorKeys keys)
  | [] => .nil
  | key :: rest => .cons key.agrees_mirror (agree_mirrorKeys rest)

end

theorem RegistryHive.Loadable.round_trip (h : hive.Loadable)
    (hexport : s.run (registryHiveExport hive path) = some (true, s')) (old : RegistryHive) :
    ∃ s'', s'.run (registryHiveImport old path) = some ((true, hive.mirror), s'') := by
  obtain ⟨hmissing, hloads⟩ := RegistryHive.loadable_iff.mp h
  obtain ⟨hlength, -, rest, hfile⟩ := export_true hexport
  exact (run_import hfile hmissing hlength old).1 hloads

/-- A hive that is saved and loaded is turned around, and by doing so twice it is restored. -/
theorem export_import_mirror (hive : RegistryHive) (h : hive.Loadable) (s s' : Store)
    (path : List UInt8) (hexport : s.run (registryHiveExport hive path) = some (true, s'))
    (old : RegistryHive) :
    (∃ s'', s'.run (registryHiveImport old path) = some ((true, hive.mirror), s'') ∧
      ∀ s₁ s₂ path', Store.run (registryHiveExport hive.mirror path') s₁ = some (true, s₂) →
        ∀ old', ∃ s₃, s₂.run (registryHiveImport old' path') = some ((true, hive), s₃)) ∧
    ∀ key, hive.root = some key → hive.mirror.root = some key.mirror ∧ key.Agrees key.mirror := by
  obtain ⟨s'', himport⟩ := h.round_trip hexport old
  refine ⟨⟨s'', himport, ?_⟩, ?_⟩
  · intro s₁ s₂ path' hagain old'
    have hrun := h.mirror.round_trip hagain old'
    rwa [hive.mirror_mirror] at hrun
  · intro key heq
    exact ⟨by rw [RegistryHive.mirror, heq]; rfl, key.agrees_mirror⟩

/-- Two keys below the root, and a value of two bytes. -/
def twoKeyHive : RegistryHive :=
  { root := some
      { name := .copy [0x72], permissions := 3
        childKeys := [
          { name := .copy [0x61], permissions := 1, childKeys := [], values := [] },
          { name := .copy [0x62], permissions := 3, childKeys := []
            values := [{ name := .copy [0x76], data := some [7, 8], dataLen := 2, permissions := 3
                         sized := by rintro _ ⟨⟩; decide }] }]
        values := [] } }

theorem export_import_mirror_twoKeyHive :
    ∃ s', emptyStore.run (registryHiveExport twoKeyHive []) = some (true, s') ∧
      ∃ s'', s'.run (registryHiveImport { root := none } []) =
        some ((true, twoKeyHive.mirror), s'') := by
  have hloadable : twoKeyHive.Loadable := by
    refine ⟨?_, ?_, ?_⟩
    all_goals
      rintro _ ⟨⟩
      decide
  have hfile : emptyStore.files [] = some [] := rfl
  obtain ⟨s', rest, hexport, -, -⟩ := (run_exportFile twoKeyHive hfile).1 (by decide)
  have hrun := (run_export_of_file twoKeyHive hfile).trans hexport
  obtain ⟨⟨s'', himport, -⟩, -⟩ :=
    export_import_mirror twoKeyHive hloadable emptyStore s' [] hrun { root := none }
  exact ⟨s', hrun, s'', himport⟩

end AvrKernel.Registry
