import AvrKernel.Registry.Store
import Mathlib.Algebra.BigOperators.Group.List.Basic

/-!
# Saving and loading hives

Which hives a saved file can be loaded from, and what tree comes back.
-/

namespace AvrKernel.Registry

open Bytes Effect RegistryM

/-! ## The format of a file -/

def RegistryValue.encode (v : RegistryValue) : List UInt8 :=
  v.name.bytes.toList ++ (Layout.u16.encode v.permissions ++
    (Layout.u32.encode v.dataLen ++ v.data.getD []))

def encodeValues (values : List RegistryValue) : List UInt8 :=
  values.flatMap RegistryValue.encode

mutual

def RegistryKey.encode : RegistryKey → List UInt8
  | { name, permissions, childKeys, values } =>
      name.bytes.toList ++ (Layout.u16.encode permissions ++
        (Layout.u32.encode (.ofNat values.length) ++ (encodeValues values ++
          (Layout.u32.encode (.ofNat childKeys.length) ++ encodeKeys childKeys))))

def encodeKeys : List RegistryKey → List UInt8
  | [] => []
  | key :: rest => key.encode ++ encodeKeys rest

end

def RegistryHive.encode (hive : RegistryHive) : List UInt8 :=
  registryMagic ++ match hive.root with
    | none => [0]
    | some key => [1] ++ key.encode

/-! ## What is written -/

theorem length_name (name : RegistryName) : name.bytes.toList.length = 16 := Vector.length_toList

theorem length_u16 (value : UInt16) : (Layout.u16.encode value).length = 2 := rfl

theorem length_u32 (value : UInt32) : (Layout.u32.encode value).length = 4 := rfl

theorem writes_name (name : RegistryName) :
    Store.Writes (regWriteExact name.bytes.toList) name.bytes.toList :=
  Store.writes_regWriteExact (by rw [length_name]; decide)

theorem writes_u16 (value : UInt16) :
    Store.Writes (regWriteExact (Layout.u16.encode value)) (Layout.u16.encode value) :=
  Store.writes_regWriteExact (by rw [length_u16]; decide)

theorem writes_u32 (value : UInt32) :
    Store.Writes (regWriteExact (Layout.u32.encode value)) (Layout.u32.encode value) :=
  Store.writes_regWriteExact (by rw [length_u32]; decide)

theorem writes_exportValue (v : RegistryValue) : Store.Writes (exportValue v) v.encode := by
  apply (writes_name v.name).andThen
  apply (writes_u16 v.permissions).andThen
  apply (writes_u32 v.dataLen).andThen
  cases hdata : v.data with
  | none => exact Store.writes_nil
  | some bytes =>
      obtain ⟨hlength, hne⟩ := v.sized bytes hdata
      have hpos : v.dataLen > 0 := by
        apply UInt32.lt_iff_toNat_lt.mpr
        rw [← hlength]
        exact List.length_pos_iff.mpr hne
      simp only [if_pos hpos]
      apply Store.writes_regWriteExact
      rw [hlength]
      exact v.dataLen.toNat_lt

theorem writes_exportValues (values : List RegistryValue) :
    Store.Writes (exportValues values) (encodeValues values) := by
  induction values with
  | nil => exact Store.writes_nil
  | cons v rest ih => exact (writes_exportValue v).andThen ih

mutual

theorem writes_exportKey : (key : RegistryKey) →
    Store.Writes (registryExportKeyRecursive key) key.encode
  | { name, permissions, childKeys, values } => by
      rw [registryExportKeyRecursive, RegistryKey.encode]
      apply (writes_name name).andThen
      apply (writes_u16 permissions).andThen
      apply (writes_u32 _).andThen
      apply (writes_exportValues values).andThen
      exact (writes_u32 _).andThen (writes_exportKeys childKeys)

theorem writes_exportKeys : (keys : List RegistryKey) →
    Store.Writes (exportKeys keys) (encodeKeys keys)
  | [] => Store.writes_nil
  | key :: rest => (writes_exportKey key).andThen (writes_exportKeys rest)

end

theorem writes_exportRoot (hive : RegistryHive) : Store.Writes (exportRoot hive) hive.encode := by
  apply (Store.writes_regWriteExact (by decide)).andThen
  cases hive.root with
  | none => exact Store.writes_regWriteExact (by decide)
  | some key => exact (Store.writes_regWriteExact (by decide)).andThen (writes_exportKey key)

/-! ## How much is written -/

/-- The bytes that the size of a value counts although there is no data to write. -/
def RegistryValue.missing (v : RegistryValue) : Nat := v.dataLen.toNat - (v.data.getD []).length

def missingValues (values : List RegistryValue) : Nat := (values.map RegistryValue.missing).sum

mutual

def RegistryKey.missing : RegistryKey → Nat
  | { name := _, permissions := _, childKeys, values } =>
      missingValues values + missingKeys childKeys

def missingKeys : List RegistryKey → Nat
  | [] => 0
  | key :: rest => key.missing + missingKeys rest

end

def RegistryHive.missing (hive : RegistryHive) : Nat :=
  match hive.root with
  | none => 0
  | some key => key.missing

theorem RegistryValue.length_encode (v : RegistryValue) :
    v.encode.length + v.missing = 16 + 2 + 4 + v.dataLen.toNat := by
  have hdata : (v.data.getD []).length ≤ v.dataLen.toNat := by
    cases hdata : v.data with
    | none => exact Nat.zero_le _
    | some bytes => exact (v.sized bytes hdata).1.le
  simp only [RegistryValue.encode, RegistryValue.missing, List.length_append, length_name,
    length_u16, length_u32]
  omega

theorem ofNat_length_encodeValues (values : List RegistryValue) :
    UInt32.ofNat ((encodeValues values).length + missingValues values) =
      (values.map fun v => 16 + 2 + 4 + v.dataLen).sum := by
  induction values with
  | nil => rfl
  | cons v rest ih =>
      have hlength : (encodeValues (v :: rest)).length + missingValues (v :: rest) =
          (v.encode.length + v.missing) + ((encodeValues rest).length + missingValues rest) := by
        simp only [encodeValues, missingValues, List.flatMap_cons, List.length_append,
          List.map_cons, List.sum_cons]
        omega
      rw [hlength, UInt32.ofNat_add, ih, v.length_encode, List.map_cons, List.sum_cons,
        UInt32.ofNat_add, UInt32.ofNat_toNat]
      rfl

mutual

theorem ofNat_length_encode : (key : RegistryKey) →
    UInt32.ofNat (key.encode.length + key.missing) = registryCalculateKeySizeRecursive key
  | { name, permissions, childKeys, values } => by
      have hvalues := ofNat_length_encodeValues values
      have hkeys := ofNat_length_encodeKeys childKeys
      have hlength : ({ name, permissions, childKeys, values } : RegistryKey).encode.length +
          ({ name, permissions, childKeys, values } : RegistryKey).missing =
          22 + ((encodeValues values).length + missingValues values) + 4 +
            ((encodeKeys childKeys).length + missingKeys childKeys) := by
        simp only [RegistryKey.encode, RegistryKey.missing, List.length_append, length_name,
          length_u16, length_u32]
        omega
      rw [hlength, UInt32.ofNat_add, UInt32.ofNat_add, UInt32.ofNat_add, hvalues, hkeys,
        registryCalculateKeySizeRecursive]
      rfl

theorem ofNat_length_encodeKeys : (keys : List RegistryKey) →
    UInt32.ofNat ((encodeKeys keys).length + missingKeys keys) = calculateKeysSize keys
  | [] => rfl
  | key :: rest => by
      have hlength : (encodeKeys (key :: rest)).length + missingKeys (key :: rest) =
          (key.encode.length + key.missing) + ((encodeKeys rest).length + missingKeys rest) := by
        simp only [encodeKeys, missingKeys, List.length_append]
        omega
      rw [hlength, UInt32.ofNat_add, ofNat_length_encode key, ofNat_length_encodeKeys rest,
        calculateKeysSize]

end

/-- The calculated size is that of the file and of all data that is missing. -/
theorem ofNat_length_encodeHive (hive : RegistryHive) :
    UInt32.ofNat (hive.encode.length + hive.missing) =
      registryCalculateTotalExportSize hive + 4 := by
  obtain ⟨root⟩ := hive
  cases root with
  | none => rfl
  | some key =>
      have hlength : ({ root := some key } : RegistryHive).encode.length +
          ({ root := some key } : RegistryHive).missing =
          1 + (key.encode.length + key.missing) + 4 := by
        simp only [RegistryHive.encode, RegistryHive.missing, registryMagic, List.length_append,
          List.length_cons, List.length_nil]
        omega
      rw [hlength, UInt32.ofNat_add, UInt32.ofNat_add, ofNat_length_encode]
      rfl

/-! ## What is read -/

mutual

/-- The tree with all lists of siblings reversed. -/
def RegistryKey.mirror : RegistryKey → RegistryKey
  | { name, permissions, childKeys, values } =>
      { name, permissions, childKeys := (mirrorKeys childKeys).reverse, values := values.reverse }

def mirrorKeys : List RegistryKey → List RegistryKey
  | [] => []
  | key :: rest => key.mirror :: mirrorKeys rest

end

/-- Whether `registry_import_key_recursive` accepts the key with so many levels left. -/
def RegistryKey.Loads : Nat → RegistryKey → Prop
  | 0, _ => False
  | levels + 1, key => (∀ v ∈ key.values, v.dataLen ≤ registryMaxValueSize) ∧
      ∀ child ∈ key.childKeys, child.Loads levels

theorem registryCopyName_terminate (name : RegistryName) :
    RegistryName.copy (terminate name.bytes.toList) = name := by
  have hset : name.bytes.toList.set 15 0 = name.bytes.toList := by
    have hlast : name.bytes.toList[15]? = some 0 := by
      rw [← name.copied, registryCopyName_toList]
      have hlength : ((name.bytes.toList.takeWhile (· ≠ 0)).take 15).length ≤ 15 :=
        List.length_take_le ..
      rw [List.getElem?_append_right hlength, List.getElem?_replicate, if_pos (by omega)]
    apply List.ext_getElem?
    intro i
    rw [List.getElem?_set]
    split
    · next heq =>
        subst heq
        rw [hlast, if_pos (by rw [length_name]; decide)]
    · rfl
  obtain ⟨bytes, hcopied⟩ := name
  simp only [RegistryName.copy, terminate] at hset ⊢
  simp only [hset, hcopied]

theorem reads_name (name : RegistryName) :
    Store.Reads (regReadExact 16) name.bytes.toList (some name.bytes.toList) :=
  Store.reads_regReadExact (by rw [length_name]; decide) (by rw [length_name]; rfl)

theorem reads_u16 (value : UInt16) :
    Store.Reads (regReadExact 2) (Layout.u16.encode value) (some (Layout.u16.encode value)) :=
  Store.reads_regReadExact (by rw [length_u16]; decide) rfl

theorem reads_u32 (value : UInt32) :
    Store.Reads (regReadExact 4) (Layout.u32.encode value) (some (Layout.u32.encode value)) :=
  Store.reads_regReadExact (by rw [length_u32]; decide) rfl

/-- Programs that do not touch the file. -/
theorem reads_of_run {α : Type} {p : RegistryM α} {value : α}
    (h : ∀ s, Store.run p s = some (value, s)) : Store.Reads p [] value := by
  intro s file past rest hat
  rw [List.length_nil, hat.skipped_zero, h]

theorem reads_malloc (size : UInt32) : Store.Reads (malloc size) [] true :=
  reads_of_run fun _ => rfl

theorem reads_createKey (name : RegistryName) (permissions : UInt16) :
    Store.Reads (registryCreateKey (terminate name.bytes.toList) permissions) []
      (some { name, permissions, childKeys := [], values := [] }) := by
  apply reads_of_run
  intro s
  conv_rhs => rw [← registryCopyName_terminate name]
  rfl

theorem reads_importData (v : RegistryValue) (hmissing : v.missing = 0) :
    Store.Reads (importData v.dataLen) (v.data.getD []) (some v.data) := by
  unfold importData
  cases hdata : v.data with
  | none =>
      have hzero : ¬ v.dataLen > 0 := by
        intro hpos
        have hnat := UInt32.lt_iff_toNat_lt.mp hpos
        simp only [RegistryValue.missing, hdata, Option.getD_none, List.length_nil] at hmissing
        simp at hnat
        omega
      rw [if_neg hzero]
      exact Store.reads_pure _
  | some bytes =>
      obtain ⟨hlength, hne⟩ := v.sized bytes hdata
      have hpos : v.dataLen > 0 := by
        apply UInt32.lt_iff_toNat_lt.mpr
        rw [← hlength]
        exact List.length_pos_iff.mpr hne
      rw [if_pos hpos]
      have hread : Store.Reads (regReadExact v.dataLen) bytes (some bytes) :=
        Store.reads_regReadExact (by rw [hlength]; exact v.dataLen.toNat_lt) hlength.symm
      apply (reads_malloc v.dataLen).bind (c := bytes)
      nth_rewrite 1 [← List.append_nil bytes]
      exact hread.bind (Store.reads_pure (some (some bytes)))

theorem reads_createValue (parent : RegistryKey) (v : RegistryValue) :
    Store.Reads (registryCreateValue parent (terminate v.name.bytes.toList) v.permissions v.data
      v.dataLen) [] (some { parent with values := v :: parent.values }) := by
  apply reads_of_run
  intro s
  obtain ⟨name, data, dataLen, permissions, sized⟩ := v
  simp only
  unfold registryCreateValue
  have hfirst : Store.run (malloc 32) s = some (true, s) := rfl
  rw [Store.run_bind_of hfirst, if_pos rfl]
  cases data with
  | none =>
      simp only [RegistryValue.empty, registryCopyName_terminate]
      rfl
  | some bytes =>
      obtain ⟨hlength, hne⟩ := sized bytes rfl
      have htake : bytes.take dataLen.toNat = bytes := List.take_of_length_le hlength.le
      have hsecond : Store.run (malloc dataLen) s = some (true, s) := rfl
      simp only [htake, registryCopyName_terminate]
      rw [dif_pos ⟨hlength, hne⟩, Store.run_bind_of hsecond, if_pos rfl]
      rfl

/-- A value is read if it is not too big. -/
theorem outcome_importValue (currentKey : RegistryKey) (v : RegistryValue)
    (hmissing : v.missing = 0) :
    Store.Outcome (v.dataLen ≤ registryMaxValueSize) (importValue currentKey) v.encode
      { currentKey with values := v :: currentKey.values } := by
  apply (reads_name v.name).outcome
  apply (reads_u16 v.permissions).outcome
  apply (reads_u32 v.dataLen).outcome
  simp only [Layout.decode_encode_self]
  by_cases hbig : v.dataLen > registryMaxValueSize
  · rw [if_pos hbig]
    have hbad : ¬ v.dataLen ≤ registryMaxValueSize := UInt32.not_le.mpr hbig
    refine ⟨fun hsmall => absurd hsmall hbad, fun _ s file past rest _ => ⟨s, rfl⟩⟩
  · rw [if_neg hbig]
    refine ⟨fun _ => ?_, fun hbad => absurd (UInt32.not_lt.mp hbig) hbad⟩
    rw [← List.append_nil (v.data.getD [])]
    exact (reads_importData v hmissing).bind (reads_createValue currentKey v)

theorem outcome_importValues (values : List RegistryValue) (currentKey : RegistryKey)
    (hmissing : missingValues values = 0) :
    Store.Outcome (∀ v ∈ values, v.dataLen ≤ registryMaxValueSize)
      (importValues values.length currentKey) (encodeValues values)
      { currentKey with values := values.reverse ++ currentKey.values } := by
  induction values generalizing currentKey with
  | nil =>
      have hread : Store.Reads (pure (some currentKey)) [] (some currentKey) := Store.reads_pure _
      cases currentKey
      refine ⟨fun _ => by simpa [importValues, encodeValues] using hread,
        fun hbad => absurd ?_ hbad⟩
      exact fun _ hin => absurd hin List.not_mem_nil
  | cons v rest ih =>
      have hboth : v.missing = 0 ∧ missingValues rest = 0 := by
        simpa [missingValues] using hmissing
      have hrest := ih { currentKey with values := v :: currentKey.values } hboth.2
      simp only [List.forall_mem_cons, List.reverse_cons, List.append_assoc, List.cons_append,
        List.nil_append]
      exact (outcome_importValue currentKey v hboth.1).bind hrest rfl

theorem outcome_importKeys {levels : Nat} {importKey : RegistryM (Option RegistryKey)}
    (keys : List RegistryKey) (currentKey : RegistryKey)
    (hkeys : ∀ key ∈ keys, Store.Outcome (key.Loads levels) importKey key.encode key.mirror) :
    Store.Outcome (∀ key ∈ keys, key.Loads levels) (importKeys importKey keys.length currentKey)
      (encodeKeys keys)
      { currentKey with childKeys := (mirrorKeys keys).reverse ++ currentKey.childKeys } := by
  induction keys generalizing currentKey with
  | nil =>
      have hread : Store.Reads (pure (some currentKey)) [] (some currentKey) := Store.reads_pure _
      cases currentKey
      refine ⟨fun _ => by simpa [importKeys, encodeKeys, mirrorKeys] using hread,
        fun hbad => absurd ?_ hbad⟩
      exact fun _ hin => absurd hin List.not_mem_nil
  | cons key rest ih =>
      have hrest := ih (currentKey.link key.mirror) fun child hin =>
        hkeys child (List.mem_cons_of_mem key hin)
      simp only [List.forall_mem_cons, mirrorKeys, List.reverse_cons, List.append_assoc,
        List.cons_append, List.nil_append]
      exact (hkeys key List.mem_cons_self).bind hrest rfl

/-! ## Trees in a file -/

theorem length_le_encodeValues (values : List RegistryValue) :
    values.length ≤ (encodeValues values).length := by
  induction values with
  | nil => exact Nat.zero_le _
  | cons v rest ih =>
      have hlength := v.length_encode
      simp only [encodeValues, List.flatMap_cons, List.length_append, List.length_cons,
        RegistryValue.encode, length_name] at ih ⊢
      omega

theorem length_le_encodeKeys (keys : List RegistryKey) :
    keys.length ≤ (encodeKeys keys).length := by
  induction keys with
  | nil => exact Nat.zero_le _
  | cons key rest ih =>
      obtain ⟨name, permissions, childKeys, values⟩ := key
      simp only [encodeKeys, List.length_append, List.length_cons, RegistryKey.encode,
        length_name]
      omega

theorem length_encode_le {keys : List RegistryKey} {key : RegistryKey} (hin : key ∈ keys) :
    key.encode.length ≤ (encodeKeys keys).length := by
  induction keys with
  | nil => cases hin
  | cons first rest ih =>
      rw [encodeKeys, List.length_append]
      rcases List.mem_cons.mp hin with rfl | htail
      · exact Nat.le_add_right _ _
      · exact (ih htail).trans (Nat.le_add_left _ _)

theorem missing_eq_zero {keys : List RegistryKey} {key : RegistryKey} (hin : key ∈ keys)
    (hmissing : missingKeys keys = 0) : key.missing = 0 := by
  induction keys with
  | nil => cases hin
  | cons first rest ih =>
      obtain ⟨hfirst, hrest⟩ := Nat.add_eq_zero_iff.mp hmissing
      rcases List.mem_cons.mp hin with rfl | htail
      · exact hfirst
      · exact ih htail hrest

/-- A tree without missing data is read as its mirror image, or not at all. -/
theorem outcome_importKey (levels : Nat) (key : RegistryKey) (hmissing : key.missing = 0)
    (hlength : key.encode.length < 2 ^ 32) :
    Store.Outcome (key.Loads levels) (registryImportKeyRecursive levels) key.encode key.mirror := by
  induction levels generalizing key with
  | zero => exact ⟨False.elim, fun _ s file past rest _ => ⟨s, rfl⟩⟩
  | succ levels ih =>
      obtain ⟨name, permissions, childKeys, values⟩ := key
      obtain ⟨hvalues, hchildren⟩ := Nat.add_eq_zero_iff.mp hmissing
      have hcounts : values.length < 2 ^ 32 ∧ childKeys.length < 2 ^ 32 ∧
          (encodeKeys childKeys).length < 2 ^ 32 := by
        have hvalues := length_le_encodeValues values
        have hkeys := length_le_encodeKeys childKeys
        simp only [RegistryKey.encode, List.length_append] at hlength
        omega
      obtain ⟨hvalcount, hkeycount, hchildlength⟩ := hcounts
      have hkeys : ∀ key ∈ childKeys, Store.Outcome (key.Loads levels)
          (registryImportKeyRecursive levels) key.encode key.mirror := by
        intro key hin
        apply ih key (missing_eq_zero hin hchildren)
        exact (length_encode_le hin).trans_lt hchildlength
      rw [RegistryKey.encode, RegistryKey.mirror]
      apply (reads_name name).outcome
      apply (reads_u16 permissions).outcome
      simp only [Layout.decode_encode_self]
      apply (reads_createKey name permissions).outcome (b := [])
      apply (reads_u32 _).outcome
      simp only [Layout.decode_encode_self, UInt32.toNat_ofNat_of_lt' hvalcount]
      have hread := outcome_importValues values { name, permissions, childKeys := [], values := [] }
        hvalues
      rw [List.append_nil] at hread
      -- the children follow the values
      refine hread.bind ?_ rfl
      apply (reads_u32 _).outcome
      simp only [Layout.decode_encode_self, UInt32.toNat_ofNat_of_lt' hkeycount]
      have hchildren := outcome_importKeys childKeys
        { name, permissions, childKeys := [], values := values.reverse } hkeys
      rwa [List.append_nil] at hchildren

end AvrKernel.Registry
