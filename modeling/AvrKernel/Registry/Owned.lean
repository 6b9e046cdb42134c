import AvrKernel.Registry.Import
import AvrKernel.Lib.Ownership

/-!
# Files that are no hives

Whatever the file of a hive contains, and whichever allocations fail, its import returns, goes down
`REGISTRY_MAX_DEPTH + 1` levels at most, and keeps no memory of a tree that it gives up.
-/

namespace AvrKernel.Registry

open Bytes Effect

/-! ## What keys and values own -/

def ValueObject.addresses (val : ValueObject) : List Nat :=
  val.address :: (val.data.map Prod.fst).toList

def valueAddresses (values : List ValueObject) : List Nat := values.flatMap ValueObject.addresses

mutual

def KeyObject.addresses : KeyObject → List Nat
  | { address, name := _, permissions := _, childKeys, values } =>
      keyAddresses childKeys ++ (valueAddresses values ++ [address])

def keyAddresses : List KeyObject → List Nat
  | [] => []
  | child :: rest => child.addresses ++ keyAddresses rest

end

def HiveObject.addresses (hive : HiveObject) : List Nat :=
    (hive.root.map KeyObject.addresses).getD []

/-! ## Memory -/

/-- The files, what is left of the open one, and the memory: which calls of `malloc` succeed, and
the addresses that it has handed out and that have been given back. -/
structure ImportState where
  files : List UInt8 → Option (List UInt8)
  rest : List UInt8
  succeeds : Nat → Bool
  mallocs : Nat
  allocated : List Nat
  freed : List Nat

/-- An address is the number of the call that has returned it. -/
def ImportState.handle : Prog.Handler ImportCall ImportCall.Answer ImportState
  | .vfsOpen path _, s => ((s.files path).isSome, { s with rest := (s.files path).getD [] })
  | .vfsClose, s => ((), s)
  | .vfsRead size, s =>
      (some (s.rest.take size.toNat), { s with rest := s.rest.drop size.toNat })
  | .malloc _, s =>
      if s.succeeds s.mallocs then
        (some s.mallocs, { s with
          mallocs := s.mallocs + 1, allocated := s.mallocs :: s.allocated })
      else (none, { s with mallocs := s.mallocs + 1 })
  | .free address, s => ((), { s with freed := address :: s.freed })

/-- What has been allocated has been freed once, or is owned. -/
structure ImportState.Owns (s : ImportState) (owned : List Nat) : Prop where
  fresh : ∀ address ∈ s.allocated, address < s.mallocs
  nodup : s.allocated.Nodup
  perm : s.allocated.Perm (s.freed ++ owned)

def ledger : Ledger ImportState Nat where
  owns := ImportState.Owns
  perm h hperm := ⟨h.fresh, h.nodup, h.perm.trans (hperm.append_left _)⟩

/-- What a program of the import owns before and after it. -/
abbrev Turns {α : Type} (p : ImportM α) (before : List Nat) (after : α → List Nat) : Prop :=
  ledger.Turns 0 ImportState.handle p before after

namespace ImportM

variable {extra : List Nat}

theorem turns_malloc (size : UInt32) : Turns (malloc size) [] Option.toList := by
  intro s rest hs
  simp only [malloc, Prog.perform, Prog.run_call, ImportState.handle]
  split
  · refine ⟨some s.mallocs, _, rfl, ?_, ?_, ?_⟩
    · intro address haddress
      rcases List.mem_cons.mp haddress with rfl | hold
      · exact Nat.lt_succ_self _
      · exact Nat.lt_succ_of_lt (hs.fresh address hold)
    · exact List.nodup_cons.mpr ⟨fun hin => Nat.lt_irrefl _ (hs.fresh _ hin), hs.nodup⟩
    · exact (hs.perm.cons _).trans List.perm_middle.symm
  · exact ⟨none, _, rfl, fun address haddress => Nat.lt_succ_of_lt (hs.fresh address haddress),
      hs.nodup, hs.perm⟩

theorem turns_free (address : Nat) : Turns (free address) [address] fun _ => [] := by
  intro s rest hs
  exact ⟨(), _, rfl, hs.fresh, hs.nodup, hs.perm.trans List.perm_middle⟩

theorem turns_regReadExact (size : UInt32) : Turns (regReadExact size) [] fun _ => [] := by
  rw [regReadExact]
  split
  · exact Ledger.turns_ret rfl
  · intro s rest hs
    exact ⟨_, _, rfl, hs.fresh, hs.nodup, hs.perm⟩

/-! ## Freeing -/

theorem turns_freeValue (val : ValueObject) :
    Turns (registryFreeValue val) val.addresses fun _ => [] := by
  obtain ⟨address, name, data, dataLen, permissions⟩ := val
  cases data with
  | none => exact turns_free address
  | some buffer =>
      have hboth := (turns_free buffer.1).drop_frame fun _ => turns_free address
      exact hboth.perm (List.Perm.swap ..) fun _ => .refl _

theorem turns_freeValues (values : List ValueObject) :
    Turns (freeValues values) (valueAddresses values) fun _ => [] := by
  induction values with
  | nil => exact Ledger.turns_ret rfl
  | cons val rest ih => exact (turns_freeValue val).drop_frame fun _ => ih

mutual

theorem turns_freeKey : (key : KeyObject) →
    Turns (registryFreeKey key) key.addresses fun _ => []
  | { address, name := _, permissions := _, childKeys, values } =>
      (turns_freeKeys childKeys).drop_frame fun _ =>
        (turns_freeValues values).drop_frame fun _ => turns_free address

theorem turns_freeKeys : (childKeys : List KeyObject) →
    Turns (freeKeys childKeys) (keyAddresses childKeys) fun _ => []
  | [] => Ledger.turns_ret rfl
  | child :: rest => (turns_freeKey child).drop_frame fun _ => turns_freeKeys rest

end

/-! ## Creating -/

/-- What a value or a key owns that may not have been made. -/
abbrev valueOwned (created : Option ValueObject) : List Nat :=
  (created.map ValueObject.addresses).getD []

abbrev keyOwned (linked : Option KeyObject) : List Nat :=
  (linked.map KeyObject.addresses).getD []

theorem turns_createValue (name : List UInt8) (permissions : UInt16) (data : Option (List UInt8))
    (size : UInt32) : Turns (registryCreateValue name permissions data size) [] valueOwned := by
  refine (turns_malloc registryValueSize).bind_frame fun address => ?_
  cases address with
  | none => exact Ledger.turns_ret rfl
  | some address =>
      cases data with
      | none => exact Ledger.turns_ret rfl
      | some bytes =>
          dsimp only
          split
          · refine (turns_malloc size).bind_frame fun copy => ?_
            cases copy with
            | none => exact (turns_free address).bind fun _ => Ledger.turns_ret rfl
            | some copy => exact Ledger.turns_ret_perm (List.Perm.swap ..)
          · exact Ledger.turns_ret rfl

/-! ## Importing -/

/-- What a buffer owns that may not be there. -/
def bufferOwned (valData : Option (Option (Nat × List UInt8))) : List Nat :=
  ((valData.getD none).map Prod.fst).toList

theorem turns_importData (valSize : UInt32) : Turns (importData valSize) [] bufferOwned := by
  rw [importData]
  split
  · refine (turns_malloc valSize).bind_frame fun valData => ?_
    cases valData with
    | none => exact Ledger.turns_ret rfl
    | some valData =>
        refine (turns_regReadExact valSize).bind_frame fun bytes => ?_
        cases bytes with
        | none => exact (turns_free valData).bind fun _ => Ledger.turns_ret rfl
        | some bytes => exact Ledger.turns_ret rfl
  · exact Ledger.turns_ret rfl

theorem turns_importValue : Turns importValue [] valueOwned := by
  refine (turns_regReadExact 16).bind_frame fun valName => ?_
  cases valName with
  | none => exact Ledger.turns_ret rfl
  | some valName =>
      refine (turns_regReadExact 2).bind_frame fun valPermissions => ?_
      cases valPermissions with
      | none => exact Ledger.turns_ret rfl
      | some valPermissions =>
          refine (turns_regReadExact 4).bind_frame fun valSize => ?_
          cases valSize with
          | none => exact Ledger.turns_ret rfl
          | some valSize =>
              dsimp only
              split
              · exact Ledger.turns_ret rfl
              · refine (turns_importData _).bind_frame fun valData => ?_
                cases valData with
                | none => exact Ledger.turns_ret rfl
                | some valData =>
                    refine (turns_createValue _ _ _ _).bind_frame fun created => ?_
                    cases valData with
                    | none => exact Ledger.turns_ret (List.append_nil _).symm
                    | some valData =>
                        -- the buffer is freed, whether there is a value or not
                        have hkeep : Turns (Prog.ret created) (valueOwned created) valueOwned :=
                          Ledger.turns_ret rfl
                        have hfree := (turns_free valData.1).drop_frame fun _ => hkeep
                        exact hfree.perm List.perm_append_comm fun _ => .refl _

theorem turns_importValues (count : Nat) (values : List ValueObject) :
    Turns (importValues count values) (valueAddresses values) fun result =>
      valueAddresses result.2 := by
  induction count generalizing values with
  | zero => exact Ledger.turns_ret rfl
  | succ count ih =>
      refine turns_importValue.bind_frame fun value => ?_
      cases value with
      | none => exact Ledger.turns_ret rfl
      | some value => exact ih (value :: values)

/-- What the children of a key own, and one that is about to be linked. -/
theorem keyAddresses_append (linked : Option KeyObject) (childKeys : List KeyObject) :
    keyAddresses (linked.toList ++ childKeys) = keyOwned linked ++ keyAddresses childKeys := by
  cases linked with
  | none => rfl
  | some child => rfl

theorem turns_importKeys {importKey : ImportM (Bool × Option KeyObject)}
    (himport : Turns importKey [] fun result => keyOwned result.2) (count : Nat)
    (childKeys : List KeyObject) :
    Turns (importKeys importKey count childKeys) (keyAddresses childKeys) fun result =>
      keyAddresses result.2 := by
  induction count generalizing childKeys with
  | zero => exact Ledger.turns_ret rfl
  | succ count ih =>
      refine himport.bind_frame fun result => ?_
      obtain ⟨imported, linked⟩ := result
      rw [← keyAddresses_append]
      cases imported with
      | true => exact ih (linked.toList ++ childKeys)
      | false => exact Ledger.turns_ret rfl

theorem turns_importFailed (isRoot : Bool) (currentKey : KeyObject) :
    Turns (importFailed isRoot currentKey) currentKey.addresses fun result =>
      keyOwned result.2 := by
  cases isRoot with
  | true => exact (turns_freeKey currentKey).bind fun _ => Ledger.turns_ret rfl
  | false => exact Ledger.turns_ret rfl

/-- The frames that are left are enough for the levels that are left. -/
theorem turns_importKey (frames : Nat) (isRoot : Bool) (depth : Nat)
    (hframes : registryMaxDepth + 2 ≤ frames + depth) (hdepth : depth ≤ registryMaxDepth + 1) :
    Turns (registryImportKeyRecursive frames isRoot depth) [] fun result =>
      keyOwned result.2 := by
  induction frames generalizing isRoot depth with
  | zero => omega
  | succ frames ih =>
      rw [registryImportKeyRecursive]
      split
      · exact Ledger.turns_ret rfl
      next hdeep =>
        refine (turns_regReadExact 16).bind_frame fun keyName => ?_
        cases keyName with
        | none => exact Ledger.turns_ret rfl
        | some keyName =>
        refine (turns_regReadExact 2).bind_frame fun keyPermissions => ?_
        cases keyPermissions with
        | none => exact Ledger.turns_ret rfl
        | some keyPermissions =>
        simp only [registryCreateKey, Prog.bind_assoc]
        refine (turns_malloc registryKeySize).bind_frame fun address => ?_
        cases address with
        | none => exact Ledger.turns_ret rfl
        | some address =>
        refine (turns_regReadExact 4).bind_frame fun valCount => ?_
        cases valCount with
        | none => exact turns_importFailed _ _
        | some valCount =>
        refine (turns_importValues _ []).bind_frame fun result => ?_
        obtain ⟨ok, values⟩ := result
        cases ok with
        | false => exact turns_importFailed _ _
        | true =>
        refine (turns_regReadExact 4).bind_frame fun keyCount => ?_
        cases keyCount with
        | none => exact turns_importFailed _ _
        | some keyCount =>
        refine (turns_importKeys (ih false (depth + 1) (by omega) (by omega)) _ []).bind_frame
          fun result => ?_
        obtain ⟨ok, childKeys⟩ := result
        cases ok with
        | false => exact turns_importFailed _ _
        | true => exact Ledger.turns_ret rfl

/-! ## Trees that are given up -/

/-- A root that has not been read is gone. -/
theorem yields_importFailed (currentKey : KeyObject) :
    (importFailed true currentKey).Yields fun result => result.1 = false → result.2 = none :=
  Prog.Yields.bind_any fun _ => fun _ => rfl

theorem yields_importRootKey (frames depth : Nat) :
    (registryImportKeyRecursive frames true depth).Yields fun result =>
      result.1 = false → result.2 = none := by
  cases frames with
  | zero => trivial
  | succ frames =>
      rw [registryImportKeyRecursive]
      split
      · exact fun _ => rfl
      · refine Prog.Yields.bind_any fun keyName => ?_
        cases keyName with
        | none => exact fun _ => rfl
        | some keyName =>
        refine Prog.Yields.bind_any fun keyPermissions => ?_
        cases keyPermissions with
        | none => exact fun _ => rfl
        | some keyPermissions =>
        refine Prog.Yields.bind_any fun currentKey => ?_
        cases currentKey with
        | none => exact fun _ => rfl
        | some currentKey =>
        refine Prog.Yields.bind_any fun valCount => ?_
        cases valCount with
        | none => exact yields_importFailed _
        | some valCount =>
        refine Prog.Yields.bind_any fun result => ?_
        obtain ⟨ok, values⟩ := result
        cases ok with
        | false => exact yields_importFailed _
        | true =>
        refine Prog.Yields.bind_any fun keyCount => ?_
        cases keyCount with
        | none => exact yields_importFailed _
        | some keyCount =>
        refine Prog.Yields.bind_any fun result => ?_
        obtain ⟨ok, childKeys⟩ := result
        cases ok with
        | false => exact yields_importFailed _
        | true => exact nofun

theorem yields_importAnnounced (frames : Nat) :
    (importAnnounced frames).Yields fun result => result.1 = false → result.2.root = none := by
  refine Prog.Yields.bind_any fun hasRoot => ?_
  cases hasRoot with
  | none => exact fun _ => rfl
  | some hasRoot =>
      dsimp only
      split
      · refine Prog.Yields.bind_any fun result => ?_
        obtain ⟨imported, root⟩ := result
        rintro rfl
        rfl
      · exact nofun

theorem yields_importTree (frames : Nat) (hive : HiveObject) :
    (importTree frames hive).Yields fun result => result.1 = false → result.2.root = none := by
  rw [importTree]
  split
  · exact Prog.Yields.bind_any fun _ => yields_importAnnounced frames
  · exact yields_importAnnounced frames

theorem turns_importAnnounced {frames : Nat} (hframes : registryMaxDepth + 2 ≤ frames) :
    Turns (importAnnounced frames) [] fun result => result.2.addresses := by
  refine (turns_regReadExact 1).bind_frame fun hasRoot => ?_
  cases hasRoot with
  | none => exact Ledger.turns_ret rfl
  | some hasRoot =>
      dsimp only
      split
      · have hroot : Turns (registryImportKeyRecursive frames true 0) [] fun result =>
            HiveObject.addresses { root := if result.1 then result.2 else none } := by
          apply (turns_importKey frames true 0 hframes (Nat.zero_le _)).perm_of_yields
            (yields_importRootKey frames 0)
          rintro ⟨imported, root⟩ hnone
          cases imported with
          | true => exact .refl _
          | false =>
              rw [hnone rfl]
              exact .refl _
        exact hroot.bind fun result => Ledger.turns_ret rfl
      · exact Ledger.turns_ret rfl

theorem turns_importTree {frames : Nat} (hframes : registryMaxDepth + 2 ≤ frames)
    (hive : HiveObject) :
    Turns (importTree frames hive) hive.addresses fun result => result.2.addresses := by
  obtain ⟨root⟩ := hive
  cases root with
  | none => exact turns_importAnnounced hframes
  | some root => exact (turns_freeKey root).bind fun _ => turns_importAnnounced hframes

theorem turns_registryHiveImport {frames : Nat} (hframes : registryMaxDepth + 2 ≤ frames)
    (hive : HiveObject) (path : List UInt8) :
    Turns (registryHiveImport frames hive path) hive.addresses fun result =>
      result.2.addresses := by
  have hopen : Turns (vfsOpen path vfsOpenRead) [] fun _ => [] := by
    intro s rest hs
    exact ⟨_, _, rfl, hs.fresh, hs.nodup, hs.perm⟩
  have hclose : Turns vfsClose [] fun _ => [] := by
    intro s rest hs
    exact ⟨_, _, rfl, hs.fresh, hs.nodup, hs.perm⟩
  have hroot : Turns (importRoot frames hive) hive.addresses fun result => result.2.addresses := by
    refine (turns_regReadExact 4).bind_frame fun magic => ?_
    cases magic with
    | none => exact Ledger.turns_ret rfl
    | some magic =>
        dsimp only
        split
        · exact Ledger.turns_ret rfl
        · exact turns_importTree hframes hive
  refine hopen.bind_frame fun opened => ?_
  cases opened with
  | false => exact Ledger.turns_ret rfl
  | true =>
      refine hroot.bind fun result => ?_
      exact hclose.bind_frame fun _ => Ledger.turns_ret rfl

/-- A file with the magic header is taken for a hive. -/
theorem run_importRoot_of_magic {frames : Nat} {hive : HiveObject} {s : ImportState}
    (hmagic : s.rest.take 4 = RegistryM.registryMagic) :
    (importRoot frames hive).run 0 ImportState.handle s =
      (importTree frames hive).run 0 ImportState.handle { s with rest := s.rest.drop 4 } := by
  have hread : (regReadExact 4).run 0 ImportState.handle s =
      some (some RegistryM.registryMagic, { s with rest := s.rest.drop 4 }) := by
    have htake : s.rest.take (4 : UInt32).toNat = RegistryM.registryMagic := hmagic
    simp only [regReadExact, Prog.perform, ImportState.handle, Prog.call_bind, Prog.ret_bind,
      Prog.pure_eq, Prog.run_call, Prog.run_ret, show ¬(4 : UInt32) = 0 by decide, if_false, htake]
    rfl
  rw [importRoot, Prog.run_bind, hread]
  rfl

/-- A hive that has the magic header and cannot be read has no tree. -/
theorem root_of_failed {frames : Nat} {hive hive' : HiveObject} {path content : List UInt8}
    {s s' : ImportState} (hfile : s.files path = some content)
    (hmagic : content.take 4 = RegistryM.registryMagic)
    (hrun : (registryHiveImport frames hive path).run 0 ImportState.handle s =
      some ((false, hive'), s')) : hive'.root = none := by
  rw [registryHiveImport, Prog.run_bind_eq_some] at hrun
  obtain ⟨opened, s₁, hopen, hrest⟩ := hrun
  have hopened : (vfsOpen path vfsOpenRead).run 0 ImportState.handle s =
      some (true, { s with rest := content }) := by
    simp only [vfsOpen, Prog.perform, Prog.run_call, Prog.run_ret, ImportState.handle, hfile,
      Option.isSome_some, Option.getD_some]
  rw [hopened] at hopen
  cases hopen
  rw [if_pos rfl, Prog.run_bind_eq_some] at hrest
  obtain ⟨result, s₂, hroot, hclose⟩ := hrest
  rw [run_importRoot_of_magic hmagic] at hroot
  have hnone := (yields_importTree frames hive).run 0 _ hroot
  cases hclose
  exact hnone rfl

end ImportM

/-- The import of a hive returns with `REGISTRY_MAX_DEPTH + 1` levels below the first one. It owns
the tree of the hive then; if it has given up the tree, the hive has none, and everything that it
has allocated is freed once. -/
theorem import_keeps_nothing (frames : Nat) (hframes : registryMaxDepth + 2 ≤ frames)
    (s : ImportState) (hive : HiveObject) (others : List Nat)
    (howns : s.Owns (hive.addresses ++ others)) (path : List UInt8) :
    ∃ imported hive' s',
      (ImportM.registryHiveImport frames hive path).run 0 ImportState.handle s =
        some ((imported, hive'), s') ∧
      s'.Owns (hive'.addresses ++ others) ∧
      ∀ content, s.files path = some content → content.take 4 = RegistryM.registryMagic →
        imported = false → hive'.root = none ∧
          ∀ address ∈ s'.allocated, address ∉ s.allocated → s'.freed.count address = 1 := by
  obtain ⟨⟨imported, hive'⟩, s', hrun, howned⟩ :=
    ImportM.turns_registryHiveImport hframes hive path s others howns
  have howns' : s'.Owns (hive'.addresses ++ others) := howned
  refine ⟨imported, hive', s', hrun, howns', fun content hfile hmagic hfailed => ?_⟩
  subst hfailed
  have hroot := ImportM.root_of_failed hfile hmagic hrun
  refine ⟨hroot, fun address hin hnew => ?_⟩
  have hempty : hive'.addresses = [] := by
    rw [HiveObject.addresses, hroot]
    rfl
  have hother : address ∉ others := fun hold => hnew
    (howns.perm.mem_iff.mpr (List.mem_append_right _ (List.mem_append_right _ hold)))
  have hall := howns'.perm
  rw [hempty, List.nil_append] at hall
  have hcount := hall.count_eq address
  rw [List.count_append, List.count_eq_zero_of_not_mem hother,
    List.count_eq_one_of_mem howns'.nodup hin] at hcount
  exact hcount.symm

/-- A root with a value and two keys. The hive ends in the value of the second one. -/
def truncatedHive : List UInt8 :=
  let header := List.replicate 18 0x41
  RegistryM.registryMagic ++ [1] ++ header ++ [1, 0, 0, 0] ++ header ++ [3, 0, 0, 0] ++ [7, 8, 9] ++
    [2, 0, 0, 0] ++ header ++ [0, 0, 0, 0] ++ [0, 0, 0, 0] ++ header ++ [1, 0, 0, 0] ++
    List.replicate 5 0x42

/-- The hive had a root before. -/
def previousHive : HiveObject :=
  ⟨some { address := 0, name := .copy [], permissions := 0, childKeys := [], values := [] }⟩

def ImportState.truncated : ImportState where
  files path := if path = [0x2F] then some truncatedHive else none
  rest := []
  succeeds _ := true
  mallocs := 2
  allocated := [1, 0]
  freed := []

theorem import_keeps_nothing_truncated :
    ∃ hive' s',
      (ImportM.registryHiveImport 34 previousHive [0x2F]).run 0 ImportState.handle .truncated =
        some ((false, hive'), s') ∧
      s'.allocated = [7, 6, 5, 4, 3, 2, 1, 0] ∧ s'.Owns (hive'.addresses ++ [1]) ∧
      hive'.root = none ∧ ∀ address ∈ s'.allocated, address ∉ [1, 0] →
        s'.freed.count address = 1 := by
  obtain ⟨imported, hive', s', hrun, howns, hnothing⟩ :=
    import_keeps_nothing 34 (by decide) .truncated previousHive [1]
      ⟨by decide, by decide, .swap 0 1 []⟩ [0x2F]
  have hshown : ((ImportM.registryHiveImport 34 previousHive [0x2F]).run 0 ImportState.handle
      .truncated).map (fun result => (result.1.1, result.2.allocated)) =
        some (false, [7, 6, 5, 4, 3, 2, 1, 0]) := by
    decide +kernel
  rw [hrun] at hshown
  obtain ⟨rfl, hallocated⟩ := Prod.mk.inj (Option.some.inj hshown)
  obtain ⟨hroot, hfreed⟩ := hnothing truncatedHive rfl rfl rfl
  exact ⟨hive', s', hrun, hallocated, howns, hroot, hfreed⟩

end AvrKernel.Registry
