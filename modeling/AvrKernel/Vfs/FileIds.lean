import AvrKernel.Vfs.Run
import AvrKernel.Vfs.Walk

/-!
# Ids of open files

A descriptor is known by the id that `vfs_open` has drawn for it from a counter.
The counter is not compared with the ids that are in use.
-/

namespace AvrKernel.Vfs

open BaseFS Kernel Effect VfsM

variable {n : Nat} {s s' s'' : VfsState} {file : UInt32} {α β : Type}

def OpenFiles.ids (table : OpenFiles) : List UInt32 := table.files.map OpenFileDescriptor.id

theorem OpenFiles.ids_eq {table table' : OpenFiles} (h : table'.files = table.files) :
    table'.ids = table.ids := by rw [ids, ids, h]

/-- A descriptor without what reading and writing change. -/
def OpenFileDescriptor.named (desc : OpenFileDescriptor) : OpenFileDescriptor :=
  { desc with offset := 0, handle := FS.fsFileClose }

/-- What the table says about the ids. -/
def OpenFiles.naming (table : OpenFiles) : List OpenFileDescriptor × UInt32 :=
  (table.files.map OpenFileDescriptor.named, table.nextUniqueId)

theorem id_eq_of_named {desc desc' : OpenFileDescriptor} (h : desc.named = desc'.named) :
    desc.id = desc'.id := (OpenFileDescriptor.mk.inj h).1

theorem ids_of_naming {table table' : OpenFiles} (h : table'.naming = table.naming) :
    table'.ids = table.ids := by
  have hids (table : OpenFiles) : table.ids = table.naming.1.map OpenFileDescriptor.id := by
    rw [OpenFiles.ids, OpenFiles.naming, List.map_map]
    rfl
  rw [hids, hids, h]

theorem exists_named {table table' : OpenFiles} (h : table'.naming = table.naming)
    {desc : OpenFileDescriptor} (hmem : desc ∈ table.files) :
    ∃ desc' ∈ table'.files, desc'.named = desc.named := by
  have hnamed : desc.named ∈ table'.naming.1 := h ▸ List.mem_map_of_mem hmem
  exact List.mem_map.mp hnamed

/-! ## Operations that keep the ids -/

theorem replaceFirst_named {desc old : OpenFileDescriptor} {files : List OpenFileDescriptor}
    (hfind : files.find? (fun file => file.id = old.id) = some old)
    (hnamed : desc.named = old.named) :
    (replaceFirst desc files).map OpenFileDescriptor.named =
      files.map OpenFileDescriptor.named := by
  have hid := id_eq_of_named hnamed
  induction files with
  | nil => rfl
  | cons first rest ih =>
      rw [replaceFirst]
      split
      next hfirst =>
        rw [List.find?_cons_of_pos (by simpa using hfirst.trans hid)] at hfind
        cases hfind
        rw [List.map_cons, List.map_cons, hnamed]
      next hne =>
        rw [List.find?_cons_of_neg (by simpa [← hid] using hne)] at hfind
        rw [List.map_cons, List.map_cons, ih hfind]

theorem VfsState.Moved.naming (h : s.Moved s') : s'.openFiles.naming = s.openFiles.naming := by
  obtain htable | ⟨file, desc, position, offset, hfind, htable⟩ := h
  · rw [htable]
  · obtain rfl := VfsState.findOpen_id hfind
    rw [htable]
    rw [VfsState.findOpen] at hfind
    split at hfind
    · cases hfind
    · exact Prod.ext (replaceFirst_named hfind rfl) rfl

/-! ## Opening and closing -/

/-- The ids in the table are valid, and no two descriptors have the same. -/
structure OpenFiles.Distinct (table : OpenFiles) : Prop where
  valid : ∀ id ∈ table.ids, id ≠ vfsInvalidFile
  nodup : table.ids.Nodup

theorem OpenFiles.nextId_ne (table : OpenFiles) : table.nextId ≠ vfsInvalidFile := by
  rw [nextId]
  split
  next hzero =>
    rw [hzero]
    decide
  next hne => exact hne

theorem mem_ids_of_mem {table : OpenFiles} {desc : OpenFileDescriptor} (h : desc ∈ table.files) :
    desc.id ∈ table.ids := List.mem_map_of_mem h

theorem removeFirst_eq_filter {id : UInt32} {files : List OpenFileDescriptor}
    (h : (files.map OpenFileDescriptor.id).Nodup) :
    removeFirst id files = files.filter fun desc => desc.id ≠ id := by
  induction files with
  | nil => rfl
  | cons first rest ih =>
      rw [List.map_cons, List.nodup_cons] at h
      rw [removeFirst]
      split
      next hid =>
        have hothers : ∀ desc ∈ rest, desc.id ≠ id := by
          rintro desc hmem rfl
          exact h.1 (hid ▸ List.mem_map_of_mem hmem)
        rw [List.filter_cons_of_neg (by simp [hid]), List.filter_eq_self.mpr]
        intro desc hmem
        exact decide_eq_true (hothers desc hmem)
      next hne => rw [List.filter_cons_of_pos (by simpa using hne), ih h.2]

/-- What the next operations on the table do, if its ids are distinct. -/
structure VfsState.ById (n : Nat) (s : VfsState) : Prop where
  distinct : s.openFiles.Distinct
  found : ∀ desc ∈ s.openFiles.files, s.findOpen desc.id = some desc
  closed : ∀ file s', (doClose file).run n VfsState.handle s = some ((), s') →
    s'.openFiles.files = s.openFiles.files.filter fun desc => desc.id ≠ file

namespace OpenFiles.Distinct

theorem found (h : s.openFiles.Distinct) {desc : OpenFileDescriptor}
    (hmem : desc ∈ s.openFiles.files) : s.findOpen desc.id = some desc := by
  rw [VfsState.findOpen, if_neg (h.valid _ (mem_ids_of_mem hmem))]
  have hnodup := h.nodup
  rw [ids] at hnodup
  generalize s.openFiles.files = files at hmem hnodup
  induction files with
  | nil => cases hmem
  | cons first rest ih =>
      rw [List.map_cons, List.nodup_cons] at hnodup
      rcases List.mem_cons.mp hmem with rfl | hrest
      · exact List.find?_cons_of_pos (decide_eq_true rfl)
      · rw [List.find?_cons_of_neg]
        · exact ih hrest hnodup.2
        · intro hid
          rw [decide_eq_true_eq] at hid
          exact hnodup.1 (hid ▸ List.mem_map_of_mem hrest)

theorem closed (h : s.openFiles.Distinct)
    (hrun : (VfsM.doClose file).run n VfsState.handle s = some ((), s')) :
    s'.openFiles.files = s.openFiles.files.filter (fun desc => desc.id ≠ file) ∧
      s'.openFiles.nextUniqueId = s.openFiles.nextUniqueId := by
  rw [VfsM.doClose, Prog.run_bind, run_findOpen, Option.bind_some] at hrun
  cases hfind : s.findOpen file with
  | none =>
      rw [hfind] at hrun
      cases hrun
      refine ⟨?_, rfl⟩
      rw [eq_comm, List.filter_eq_self]
      intro desc hmem
      apply decide_eq_true
      rintro rfl
      rw [h.found hmem] at hfind
      cases hfind
  | some desc =>
      rw [hfind] at hrun
      obtain rfl := VfsState.findOpen_id hfind
      cases hrun
      exact ⟨removeFirst_eq_filter h.nodup, rfl⟩

theorem byId (h : s.openFiles.Distinct) : s.ById n :=
  ⟨h, fun _ hmem => h.found hmem, fun _ _ hrun => (h.closed hrun).1⟩

end OpenFiles.Distinct

/-! ## What a step does to the table -/

/-- The ids of the table after a step of an operation. -/
inductive VfsOp.Step (s s' : VfsState) : VfsOp → VfsAnswer → Prop
  | kept {op answer} (closes : ∀ file, op ≠ .closeFile file)
      (naming : s'.openFiles.naming = s.openFiles.naming) : Step s s' op answer
  | closed {file answer}
      (files : s'.openFiles.files = s.openFiles.files.filter fun desc => desc.id ≠ file)
      (counter : s'.openFiles.nextUniqueId = s.openFiles.nextUniqueId) :
      Step s s' (.closeFile file) answer
  | refused {path flags} (files : s'.openFiles.files = s.openFiles.files)
      (counter : s'.openFiles.nextUniqueId = s.openFiles.nextId + 1) :
      Step s s' (.openFile path flags) (.word vfsInvalidFile)
  | opened {path flags} (desc : OpenFileDescriptor) (id : desc.id = s.openFiles.nextId)
      (files : s'.openFiles.files = s.openFiles.files ++ [desc])
      (counter : s'.openFiles.nextUniqueId = s.openFiles.nextId + 1) :
      Step s s' (.openFile path flags) (.word desc.id)

theorem VfsOp.step_cases {op : VfsOp} {answer : VfsAnswer} (h : s.openFiles.Distinct)
    (hstep : op.step n s = some (answer, s')) : VfsOp.Step s s' op answer := by
  cases op with
  | openFile path flags =>
      rw [VfsOp.step, VfsOp.program, Prog.run_bind_eq_some] at hstep
      obtain ⟨file, s₁, hrun, hstep⟩ := hstep
      cases hstep
      obtain ⟨rfl, hfiles, hcounter | hcounter⟩ | ⟨walk, handle, s₁, -, -, hnext,
        hcounter, hfiles⟩ :=
        run_open_cases hrun
      · exact .kept (by rintro _ ⟨⟩) (Prod.ext (congrArg (List.map _) hfiles) hcounter)
      · exact .refused hfiles hcounter
      · exact .opened _ hnext hfiles (hnext ▸ hcounter)
  | closeFile file =>
      rw [VfsOp.step, VfsOp.program, Prog.run_bind_eq_some] at hstep
      obtain ⟨closed, s₁, hrun, hstep⟩ := hstep
      cases hstep
      obtain ⟨hfiles, hcounter⟩ := h.closed hrun
      exact .closed hfiles hcounter
  | _ =>
      refine .kept (by rintro _ ⟨⟩) ?_
      exact (VfsOp.step_moved (by rintro _ _ ⟨⟩) (by rintro _ ⟨⟩) hstep).naming

/-- The number of ids that a step draws. -/
def VfsState.drawn (s s' : VfsState) : Nat :=
  if s'.openFiles.nextUniqueId = s.openFiles.nextUniqueId then 0 else 1

/-- The number of ids that a sequence of operations draws. -/
def idsDrawn (n : Nat) (s : VfsState) : List VfsOp → Nat
  | [] => 0
  | op :: rest =>
      match op.step n s with
      | none => 0
      | some (_, s') => s.drawn s' + idsDrawn n s' rest

theorem idsDrawn_le_length (s : VfsState) (ops : List VfsOp) : idsDrawn n s ops ≤ ops.length := by
  induction ops generalizing s with
  | nil => exact Nat.le_refl 0
  | cons op rest ih =>
      rw [idsDrawn, List.length_cons]
      split
      · exact Nat.zero_le _
      next answer s' _ =>
        have hrest := ih s'
        have hdrawn : s.drawn s' ≤ 1 := by
          rw [VfsState.drawn]
          split <;> decide
        omega

theorem idsDrawn_snoc {ops : List VfsOp} {op : VfsOp} {answers : List VfsAnswer}
    {answer : VfsAnswer} (hrun : Trace.run (VfsOp.step n) s ops = some (answers, s'))
    (hstep : op.step n s' = some (answer, s'')) :
    idsDrawn n s (ops ++ [op]) = idsDrawn n s ops + s'.drawn s'' := by
  induction ops generalizing s answers with
  | nil =>
      cases hrun
      rw [List.nil_append, idsDrawn, idsDrawn, hstep]
      exact Nat.add_comm _ 0
  | cons first rest ih =>
      obtain ⟨answer₁, s₁, answers', hfirst, hrest, -⟩ := Trace.run_cons.mp hrun
      rw [List.cons_append, idsDrawn, idsDrawn, hfirst]
      dsimp only
      rw [ih hrest, Nat.add_assoc]

namespace VfsOp.Step

variable {op : VfsOp} {answer : VfsAnswer}

theorem nextId_of_drawn (hcounter : s'.openFiles.nextUniqueId = s.openFiles.nextId + 1) :
    s'.openFiles.nextId = Counter.succ s.openFiles.nextId ∧ s.drawn s' = 1 := by
  constructor
  · rw [OpenFiles.nextId, hcounter, Counter.succ]
    split
    next hzero =>
      have hzero : s.openFiles.nextId + 1 = 0 := hzero
      rw [if_pos hzero, hzero]
      rfl
    next hne => exact (if_neg hne).symm
  · rw [VfsState.drawn, if_neg]
    rw [hcounter, OpenFiles.nextId]
    split
    next hzero =>
      rw [hzero]
      decide
    next => simp

theorem nextId_of_kept (hcounter : s'.openFiles.nextUniqueId = s.openFiles.nextUniqueId) :
    s'.openFiles.nextId = s.openFiles.nextId ∧ s.drawn s' = 0 := by
  constructor
  · rw [OpenFiles.nextId, OpenFiles.nextId, hcounter]
  · rw [VfsState.drawn, if_pos hcounter]

/-- The next id goes on by as many ids as are drawn. -/
theorem nextId (h : Step s s' op answer) :
    s'.openFiles.nextId = Counter.succ^[s.drawn s'] s.openFiles.nextId := by
  have hkept (hcounter : s'.openFiles.nextUniqueId = s.openFiles.nextUniqueId) :
      s'.openFiles.nextId = Counter.succ^[s.drawn s'] s.openFiles.nextId := by
    obtain ⟨hnext, hdrawn⟩ := nextId_of_kept hcounter
    rw [hnext, hdrawn]
    rfl
  have hdrawn (hcounter : s'.openFiles.nextUniqueId = s.openFiles.nextId + 1) :
      s'.openFiles.nextId = Counter.succ^[s.drawn s'] s.openFiles.nextId := by
    obtain ⟨hnext, hdrawn⟩ := nextId_of_drawn hcounter
    rw [hnext, hdrawn]
    rfl
  cases h with
  | kept closes naming => exact hkept (congrArg Prod.snd naming)
  | closed files counter => exact hkept counter
  | refused files counter => exact hdrawn counter
  | opened desc id files counter => exact hdrawn counter

/-- A step that draws no id in use keeps the ids distinct. -/
theorem distinct (h : Step s s' op answer) (hs : s.openFiles.Distinct)
    (hfresh : s.drawn s' = 1 → s.openFiles.nextId ∉ s.openFiles.ids) : s'.openFiles.Distinct := by
  cases h with
  | kept closes naming =>
      have hids := ids_of_naming naming
      exact ⟨hids ▸ hs.valid, hids ▸ hs.nodup⟩
  | @closed file _ files counter =>
      have hids : s'.openFiles.ids.Sublist s.openFiles.ids := by
        rw [OpenFiles.ids, OpenFiles.ids, files]
        exact List.filter_sublist.map _
      exact ⟨fun id hid => hs.valid id (hids.subset hid), hs.nodup.sublist hids⟩
  | refused files counter =>
      have hids := OpenFiles.ids_eq files
      exact ⟨hids ▸ hs.valid, hids ▸ hs.nodup⟩
  | opened desc id files counter =>
      have hids : s'.openFiles.ids = s.openFiles.ids ++ [s.openFiles.nextId] := by
        rw [OpenFiles.ids, files, List.map_append, ← id]
        rfl
      constructor
      · intro id hid
        rw [hids, List.mem_append, List.mem_singleton] at hid
        rcases hid with hold | rfl
        · exact hs.valid id hold
        · exact OpenFiles.nextId_ne _
      · rw [hids]
        apply hs.nodup.append (List.nodup_singleton _)
        rw [List.disjoint_singleton]
        exact hfresh (nextId_of_drawn counter).2

/-- A descriptor stays until it is closed. -/
theorem stays (h : Step s s' op answer) {desc : OpenFileDescriptor}
    (hmem : desc ∈ s.openFiles.files) (hopen : op ≠ .closeFile desc.id) :
    ∃ desc' ∈ s'.openFiles.files, desc'.named = desc.named := by
  cases h with
  | kept closes naming => exact exists_named naming hmem
  | @closed file _ files counter =>
      have hne : desc.id ≠ file := fun hid => hopen (congrArg VfsOp.closeFile hid.symm)
      exact ⟨desc, by rw [files]; exact List.mem_filter.mpr ⟨hmem, decide_eq_true hne⟩, rfl⟩
  | refused files counter => exact ⟨desc, files ▸ hmem, rfl⟩
  | opened new id files counter =>
      exact ⟨desc, by rw [files]; exact List.mem_append_left _ hmem, rfl⟩

/-- A descriptor was there before the step, which does not close it, or the step opens it. -/
theorem origin (h : Step s s' op answer) {desc : OpenFileDescriptor}
    (hmem : desc ∈ s'.openFiles.files) :
    (desc.id ∈ s.openFiles.ids ∧ op ≠ .closeFile desc.id) ∨
    ∃ path flags, op = .openFile path flags ∧ answer = .word desc.id ∧
      s'.openFiles.nextId = Counter.succ desc.id := by
  cases h with
  | kept closes naming =>
      exact .inl ⟨ids_of_naming naming ▸ mem_ids_of_mem hmem, closes desc.id⟩
  | @closed file _ files counter =>
      rw [files, List.mem_filter, decide_eq_true_eq] at hmem
      exact .inl ⟨mem_ids_of_mem hmem.1, fun heq => hmem.2 (VfsOp.closeFile.inj heq).symm⟩
  | refused files counter => exact .inl ⟨mem_ids_of_mem (files ▸ hmem), nofun⟩
  | opened new id files counter =>
      rw [files, List.mem_append, List.mem_singleton] at hmem
      rcases hmem with hold | rfl
      · exact .inl ⟨mem_ids_of_mem hold, nofun⟩
      · exact .inr ⟨_, _, rfl, rfl, id ▸ (nextId_of_drawn counter).1⟩

/-- Only opening draws an id. -/
theorem opens_of_drawn (h : Step s s' op answer) (hdrawn : s.drawn s' = 1) :
    ∃ path flags, op = .openFile path flags := by
  have hnot (hcounter : s'.openFiles.nextUniqueId = s.openFiles.nextUniqueId) : False := by
    rw [(nextId_of_kept hcounter).2] at hdrawn
    cases hdrawn
  cases h with
  | kept closes naming => exact (hnot (congrArg Prod.snd naming)).elim
  | closed files counter => exact (hnot counter).elim
  | refused files counter => exact ⟨_, _, rfl⟩
  | opened desc id files counter => exact ⟨_, _, rfl⟩

end VfsOp.Step

theorem VfsOp.step_openFile {path : List UInt8} {flags : UInt16} (hfile : file ≠ vfsInvalidFile)
    (hstep : (VfsOp.openFile path flags).step n s = some (.word file, s')) :
    ∃ desc : OpenFileDescriptor, desc.id = file ∧ desc.flags = flags ∧
      s'.openFiles.files = s.openFiles.files ++ [desc] := by
  rw [VfsOp.step, VfsOp.program, Prog.run_bind_eq_some] at hstep
  obtain ⟨file', s₁, hrun, hstep⟩ := hstep
  cases hstep
  obtain ⟨walk, handle, s₂, -, -, -, -, hfiles⟩ := run_open hfile hrun
  exact ⟨_, rfl, rfl, hfiles⟩

/-! ## Whole runs -/

/-- The operations `ops` open `file`, which leads to the state `opened`, and the rest of them,
`during`, do not close it. -/
def KeptOpen (n : Nat) (s : VfsState) (ops : List VfsOp) (file : UInt32) (opened : VfsState)
    (during : List VfsOp) : Prop :=
  ∃ before path flags answers s₁, ops = before ++ .openFile path flags :: during ∧
    Trace.run (VfsOp.step n) s before = some (answers, s₁) ∧
    (VfsOp.openFile path flags).step n s₁ = some (.word file, opened) ∧ file ≠ vfsInvalidFile ∧
    .closeFile file ∉ during

/-- Fewer than `2 ^ 32 - 1` ids are drawn while a file is open. -/
def ClosedInTime (n : Nat) (s : VfsState) (ops : List VfsOp) : Prop :=
  ∀ first file opened during, first <+: ops → KeptOpen n s first file opened during →
    idsDrawn n opened during < 2 ^ 32 - 1

theorem ClosedInTime.of_length {ops : List VfsOp} (h : ops.length < 2 ^ 32 - 1) :
    ClosedInTime n s ops := by
  rintro first file opened during hfront ⟨before, path, flags, answers, s₁, rfl, -⟩
  have hlength := hfront.length_le
  have hdrawn : idsDrawn n opened during ≤ during.length := idsDrawn_le_length opened during
  rw [List.length_append, List.length_cons] at hlength
  omega

theorem KeptOpen.snoc {ops during : List VfsOp} {op : VfsOp}
    (h : KeptOpen n s ops file s' during) (hop : op ≠ .closeFile file) :
    KeptOpen n s (ops ++ [op]) file s' (during ++ [op]) := by
  obtain ⟨before, path, flags, answers, s₁, rfl, hrun, hstep, hfile, hduring⟩ := h
  refine ⟨before, path, flags, answers, s₁, by simp, hrun, hstep, hfile, ?_⟩
  rw [List.mem_append, List.mem_singleton, not_or]
  exact ⟨hduring, hop.symm⟩

/-- How the descriptors after a run have come to be. -/
structure Tracked (n : Nat) (s : VfsState) (ops : List VfsOp) (s' : VfsState) : Prop where
  distinct : s'.openFiles.Distinct
  open_of_mem : ∀ id ∈ s'.openFiles.ids, ∃ opened during answers,
    KeptOpen n s ops id opened during ∧
    Trace.run (VfsOp.step n) opened during = some (answers, s') ∧
    s'.openFiles.nextId = Counter.succ^[idsDrawn n opened during + 1] id
  mem_of_open : ∀ file opened during, KeptOpen n s ops file opened during →
    ∃ first ∈ opened.openFiles.files.getLast?, first.id = file ∧
      ∃ desc ∈ s'.openFiles.files, desc.named = first.named

namespace Tracked

theorem init (hnone : s.openFiles.files = []) : Tracked n s [] s := by
  have hids : s.openFiles.ids = [] := by rw [OpenFiles.ids, hnone, List.map_nil]
  refine ⟨⟨by simp [hids], by simp [hids]⟩, by simp [hids], ?_⟩
  rintro file opened during ⟨before, path, flags, answers, s₁, hops, -⟩
  simp at hops

variable {ops : List VfsOp} {op : VfsOp} {answers : List VfsAnswer} {answer : VfsAnswer}

/-- An id that is in use is not drawn: too few ids have been drawn since. -/
theorem fresh (h : Tracked n s ops s') (hstep : VfsOp.step n s' op = some (answer, s''))
    (htime : ClosedInTime n s (ops ++ [op])) (hdrawn : s'.drawn s'' = 1) :
    s'.openFiles.nextId ∉ s'.openFiles.ids := by
  intro hmem
  obtain ⟨opened, during, answers', hkept, hduring, hnext⟩ := h.open_of_mem _ hmem
  obtain ⟨path, flags, rfl⟩ := (VfsOp.step_cases h.distinct hstep).opens_of_drawn hdrawn
  have hlt := htime _ _ _ _ List.prefix_rfl (hkept.snoc nofun)
  rw [idsDrawn_snoc hduring hstep, hdrawn] at hlt
  exact Counter.iterate_succ_ne (OpenFiles.nextId_ne _) (Nat.succ_pos _) hlt hnext.symm

theorem snoc (h : Tracked n s ops s') (hrun : Trace.run (VfsOp.step n) s ops = some (answers, s'))
    (hstep : VfsOp.step n s' op = some (answer, s'')) (htime : ClosedInTime n s (ops ++ [op])) :
    Tracked n s (ops ++ [op]) s'' := by
  have hcases := VfsOp.step_cases h.distinct hstep
  have hdistinct := hcases.distinct h.distinct (h.fresh hstep htime)
  refine ⟨hdistinct, ?_, ?_⟩
  · intro id hmem
    obtain ⟨desc, hdesc, rfl⟩ := List.mem_map.mp hmem
    obtain ⟨hold, hop⟩ | ⟨path, flags, rfl, rfl, hnext⟩ := hcases.origin hdesc
    · obtain ⟨opened, during, answers', hkept, hduring, hnext⟩ := h.open_of_mem _ hold
      refine ⟨opened, during ++ [op], answers' ++ [answer], hkept.snoc hop, ?_, ?_⟩
      · exact Trace.run_append.mpr ⟨_, _, _, hduring,
          Trace.run_cons.mpr ⟨_, _, _, hstep, Trace.run_nil _, rfl⟩, rfl⟩
      · rw [hcases.nextId, hnext, ← Function.iterate_add_apply, idsDrawn_snoc hduring hstep]
        congr 1
        omega
    · exact ⟨s'', [], [], ⟨ops, path, flags, answers, s', rfl, hrun, hstep,
        hdistinct.valid _ hmem, List.not_mem_nil⟩, Trace.run_nil _, hnext⟩
  · rintro file opened during ⟨before, path, flags, answers', s₁, hops, hbefore,
      hopen, hfile, hduring⟩
    rcases List.eq_nil_or_concat during with rfl | ⟨during', last, rfl⟩
    · obtain ⟨rfl, hop⟩ := List.append_inj' hops rfl
      cases hop
      cases hrun.symm.trans hbefore
      cases hstep.symm.trans hopen
      obtain ⟨desc, hid, -, hfiles⟩ := VfsOp.step_openFile hfile hopen
      exact ⟨desc, by rw [hfiles, List.getLast?_append]; rfl, hid, desc, by simp [hfiles], rfl⟩
    · rw [List.concat_eq_append, ← List.cons_append, ← List.append_assoc] at hops
      obtain ⟨rfl, hlast⟩ := List.append_inj' hops rfl
      cases hlast
      rw [List.concat_eq_append, List.mem_append, List.mem_singleton, not_or] at hduring
      obtain ⟨first, hfirst, hid, desc, hdesc, hnamed⟩ := h.mem_of_open file opened during'
        ⟨before, path, flags, answers', s₁, rfl, hbefore, hopen, hfile, hduring.1⟩
      have hop : op ≠ .closeFile desc.id := by
        rw [id_eq_of_named hnamed, hid]
        exact fun heq => hduring.2 heq.symm
      obtain ⟨desc', hdesc', hnamed'⟩ := hcases.stays hdesc hop
      exact ⟨first, hfirst, hid, desc', hdesc', hnamed'.trans hnamed⟩

theorem of_run (hnone : s.openFiles.files = []) (htime : ClosedInTime n s ops)
    (hrun : Trace.run (VfsOp.step n) s ops = some (answers, s')) : Tracked n s ops s' := by
  induction ops using List.reverseRecOn generalizing answers s' with
  | nil =>
      cases hrun
      exact init hnone
  | append_singleton ops op ih =>
      obtain ⟨answers₁, s₁, answers₂, hfirst, hlast, -⟩ := Trace.run_append.mp hrun
      obtain ⟨answer, s₂, answers₃, hstep, hnil, -⟩ := Trace.run_cons.mp hlast
      cases hnil
      have hfirsttime : ClosedInTime n s ops := fun first file opened during hfront =>
        htime first file opened during (hfront.trans (List.prefix_append _ _))
      exact (ih hfirsttime hfirst).snoc hfirst hstep htime

end Tracked

/-- In every run that starts without open files and in which fewer than `2 ^ 32 - 1` ids are drawn
while a file is open, the ids stay distinct: the id that `vfs_open` has returned finds the
descriptor that it has appended until the file is closed, and `vfs_close` removes that one alone. -/
theorem ids_distinct {ops : List VfsOp} {answers : List VfsAnswer}
    (hnone : s.openFiles.files = []) (htime : ClosedInTime n s ops)
    (hrun : Trace.run (VfsOp.step n) s ops = some (answers, s')) :
    s'.ById n ∧ ∀ file opened during, KeptOpen n s ops file opened during →
      ∃ first desc, opened.openFiles.files.getLast? = some first ∧ first.id = file ∧
        s'.findOpen file = some desc ∧ desc.named = first.named := by
  have htracked := Tracked.of_run hnone htime hrun
  refine ⟨htracked.distinct.byId, fun file opened during hkept => ?_⟩
  obtain ⟨first, hfirst, rfl, desc, hdesc, hnamed⟩ := htracked.mem_of_open file opened during hkept
  refine ⟨first, desc, hfirst, rfl, ?_, hnamed⟩
  rw [← id_eq_of_named hnamed]
  exact htracked.distinct.found hdesc

/-- Two descriptors of `/f`: the second one is moved and the first one is closed. -/
theorem ids_distinct_two : ∃ s' desc, Trace.run (VfsOp.step 100) .small
      [.openFile [slash, 0x66] 0, .openFile [slash, 0x66] 1, .seek 2 1, .closeFile 1] =
        some ([.word 1, .word 2, .word 1, .none], s') ∧ s'.ById 100 ∧ s'.findOpen 2 = some desc ∧
      desc.id = 2 := by
  have hanswers : (Trace.run (VfsOp.step 100) .small
      [.openFile [slash, 0x66] 0, .openFile [slash, 0x66] 1, .seek 2 1, .closeFile 1]).map
        Prod.fst =
        some [.word 1, .word 2, .word 1, .none] := by
    rw [VfsState.small_eq]
    decide +kernel
  rw [Option.map_eq_some_iff] at hanswers
  obtain ⟨⟨answers, s'⟩, hrun, rfl⟩ := hanswers
  have htime : ClosedInTime 100 .small
      [.openFile [slash, 0x66] 0, .openFile [slash, 0x66] 1, .seek 2 1, .closeFile 1] :=
    .of_length (by decide)
  obtain ⟨hbyId, hfound⟩ := ids_distinct rfl htime hrun
  obtain ⟨answer, s₁, answers, hfirst, hrest, heq⟩ := Trace.run_cons.mp hrun
  cases heq
  obtain ⟨answer, opened, answers, hsecond, hrest, heq⟩ := Trace.run_cons.mp hrest
  cases heq
  have hkept : KeptOpen 100 .small
      [.openFile [slash, 0x66] 0, .openFile [slash, 0x66] 1, .seek 2 1, .closeFile 1] 2 opened
      [.seek 2 1, .closeFile 1] :=
    ⟨[.openFile [slash, 0x66] 0], _, _, _, s₁, rfl,
      Trace.run_cons.mpr ⟨_, _, _, hfirst, Trace.run_nil _, rfl⟩, hsecond, by decide, by simp⟩
  obtain ⟨first, desc, -, hid, hdesc, hnamed⟩ := hfound 2 opened _ hkept
  exact ⟨s', desc, hrun, hbyId, hdesc, (id_eq_of_named hnamed).trans hid⟩

/-! ## The counter wraps -/

/-- Calls that read from the kernel. -/
def VfsCall.ReadsKernel : VfsCall → Prop
  | kernel e => e.Reads
  | _ => False

instance : (e : VfsCall) → Decidable e.ReadsKernel
  | .kernel .heap | .kernel .root | .kernel (.memRead ..) => .isTrue trivial
  | .kernel (.memWrite ..) | .device .. | .deviceSync _ | .malloc | .openFiles
  | .setOpenFiles _ => .isFalse id

/-- A run that only reads from the kernel is the same in all states with that kernel. -/
theorem run_readsKernel {p : VfsM α} (hsame : s'.kernel = s.kernel)
    (hreads : p.Calls n VfsState.handle (fun e _ => e.ReadsKernel) s) :
    p.run n VfsState.handle s' = (p.run n VfsState.handle s).map fun result => (result.1, s') := by
  induction p generalizing s with
  | ret value => rfl
  | call e next ih =>
      obtain ⟨he, hrest⟩ := hreads
      cases e with
      | kernel e =>
          have hstay : VfsState.handle (.kernel e) s' = ((VfsState.handle (.kernel e) s).1, s') :=
            Prod.ext (congrArg (fun k => (KernelState.handle e k).1) hsame)
              (congrArg (fun k => s'.setKernel k) (KernelState.handle_snd he s'.kernel))
          rw [Prog.run_call, Prog.run_call, hstay]
          apply ih _ _ hrest
          rw [VfsState.handle, KernelState.handle_snd he]
          exact hsame
      | device | deviceSync | malloc | openFiles | setOpenFiles => exact he.elim
  | fuel next ih => exact ih n hsame hreads
  | halt => rfl

/-- The descriptor of `/f` with an id. -/
def descriptorOf (id : UInt32) : OpenFileDescriptor :=
  { id, address := 0x100110, inFileSystem := false, offset := 0,
    handle := FS.fsFileClose, flags := 0
    ctx := 0 }

/-- The small state with descriptors of `/f`. -/
def VfsState.opened (ids : List UInt32) (nextUniqueId : UInt32) (mallocs : Nat) : VfsState :=
  { VfsState.small with openFiles := ⟨ids.map descriptorOf, nextUniqueId⟩, mallocs }

variable {ids : List UInt32} {nextUniqueId : UInt32} {mallocs : Nat}

theorem run_small {p : VfsM α} {value : α}
    (hreads : p.Calls 100 VfsState.handle (fun e _ => e.ReadsKernel) .small)
    (hvalue : (p.run 100 VfsState.handle .small).map Prod.fst = some value) :
    p.run 100 VfsState.handle (.opened ids nextUniqueId mallocs) =
      some (value, .opened ids nextUniqueId mallocs) := by
  rw [Option.map_eq_some_iff] at hvalue
  obtain ⟨⟨value', s'⟩, hrun, rfl⟩ := hvalue
  have hsame : p.run 100 VfsState.handle (.opened ids nextUniqueId mallocs) =
      (p.run 100 VfsState.handle .small).map fun result => (result.1, _) :=
    run_readsKernel rfl hreads
  rw [hsame, hrun]
  rfl

theorem run_parse_small : (vfsParsePath [slash, 0x66] 0).run 100 VfsState.handle
      (.opened ids nextUniqueId mallocs) =
    some (some (PathWalk.start 0x100110), .opened ids nextUniqueId mallocs) :=
  run_small (by rw [VfsState.small_eq]; decide +kernel) (by rw [VfsState.small_eq]; decide +kernel)

theorem run_canOpen_small : (canOpen (PathWalk.start 0x100110)).run 100 VfsState.handle
      (.opened ids nextUniqueId mallocs) = some (true, .opened ids nextUniqueId mallocs) :=
  run_small (by rw [VfsState.small_eq]; decide +kernel) (by rw [VfsState.small_eq]; decide +kernel)

/-- The table with descriptors of `/f`. -/
def openedTable (ids : List UInt32) (nextUniqueId : UInt32) : OpenFiles :=
  ⟨ids.map descriptorOf, nextUniqueId⟩

theorem run_takeId_opened : takeId.run 100 VfsState.handle (.opened ids nextUniqueId mallocs) =
    some ((openedTable ids nextUniqueId).nextId,
      .opened ids ((openedTable ids nextUniqueId).nextId + 1) mallocs) := by
  rw [takeId, Prog.run_bind_eq_some]
  refine ⟨openedTable ids nextUniqueId, .opened ids nextUniqueId mallocs, rfl, ?_⟩
  rw [OpenFiles.nextId, openedTable]
  dsimp only
  split
  next hzero =>
    subst hzero
    rfl
  next => rfl

theorem step_open : (VfsOp.openFile [slash, 0x66] 0).step 100 (.opened ids nextUniqueId mallocs) =
    some (.word (openedTable ids nextUniqueId).nextId,
      .opened (ids ++ [(openedTable ids nextUniqueId).nextId])
        ((openedTable ids nextUniqueId).nextId + 1) (mallocs + 2)) := by
  have happend (id next : UInt32) : (appendOpen (descriptorOf id)).run 100 VfsState.handle
      (.opened ids next (mallocs + 1)) = some (id, .opened (ids ++ [id]) next (mallocs + 2)) := by
    rw [VfsState.opened, VfsState.opened, List.map_append]
    rfl
  have hopen : (doOpen [slash, 0x66] 0).run 100 VfsState.handle (.opened ids nextUniqueId mallocs) =
      some ((openedTable ids nextUniqueId).nextId,
        .opened (ids ++ [(openedTable ids nextUniqueId).nextId])
          ((openedTable ids nextUniqueId).nextId + 1) (mallocs + 2)) := by
    rw [doOpen, if_neg (List.cons_ne_nil _ _), Prog.run_bind_eq_some]
    refine ⟨_, _, run_parse_small, ?_⟩
    dsimp only
    rw [Prog.run_bind_eq_some]
    refine ⟨_, _, run_canOpen_small, ?_⟩
    rw [if_pos rfl, Prog.run_bind_eq_some]
    refine ⟨true, .opened ids nextUniqueId (mallocs + 1), rfl, ?_⟩
    rw [if_pos rfl, Prog.run_bind_eq_some]
    exact ⟨_, _, run_takeId_opened, happend _ _⟩
  rw [VfsOp.step, VfsOp.program, Prog.run_bind_eq_some]
  exact ⟨_, _, hopen, rfl⟩

theorem step_close {id : UInt32} (hzero : id ≠ vfsInvalidFile) (hone : id ≠ 1) :
    (VfsOp.closeFile id).step 100 (.opened [1, id] nextUniqueId mallocs) =
      some (.none, .opened [1] nextUniqueId mallocs) := by
  have hfirst : (descriptorOf 1).id ≠ id := hone.symm
  have hsecond : (descriptorOf id).id = id := rfl
  have hfind : (VfsState.opened [1, id] nextUniqueId mallocs).findOpen id =
      some (descriptorOf id) := by
    rw [VfsState.findOpen, if_neg hzero]
    exact (List.find?_cons_of_neg (by simpa using hfirst)).trans
      (List.find?_cons_of_pos (by simpa using hsecond))
  have hremove : removeFirst id [descriptorOf 1, descriptorOf id] = [descriptorOf 1] := by
    rw [removeFirst, if_neg hfirst, removeFirst, if_pos hsecond]
  have hclose : (doClose id).run 100 VfsState.handle (.opened [1, id] nextUniqueId mallocs) =
      some ((), .opened [1] nextUniqueId mallocs) := by
    rw [doClose, Prog.run_bind, run_findOpen, Option.bind_some, hfind]
    refine congrArg (fun files => some ((), { VfsState.opened [1, id] nextUniqueId mallocs with
      openFiles := ⟨files, nextUniqueId⟩ })) hremove
  rw [VfsOp.step, VfsOp.program, Prog.run_bind_eq_some]
  exact ⟨_, _, hclose, rfl⟩

/-- Rounds of opening and closing `/f`, in which the ids from `id` on are drawn. -/
def openAndClose : Nat → UInt32 → List VfsOp
  | 0, _ => []
  | rounds + 1, id => .openFile [slash, 0x66] 0 :: .closeFile id :: openAndClose rounds (id + 1)

theorem run_openAndClose {rounds : Nat} {id : UInt32} (hid : 2 ≤ id.toNat)
    (hend : id.toNat + rounds ≤ 2 ^ 32) :
    ∃ answers mallocs', Trace.run (VfsOp.step 100) (.opened [1] id mallocs)
      (openAndClose rounds id) =
      some (answers, .opened [1] (id + .ofNat rounds) mallocs') := by
  induction rounds generalizing id mallocs with
  | zero => exact ⟨[], mallocs, by simp [openAndClose, Trace.run]⟩
  | succ rounds ih =>
      have hzero : id ≠ 0 := by
        rintro rfl
        simp at hid
      have hone : id ≠ 1 := by
        rintro rfl
        simp at hid
      have hnext : (openedTable [1] id).nextId = id := if_neg hzero
      have hopen : (VfsOp.openFile [slash, 0x66] 0).step 100 (.opened [1] id mallocs) =
          some (.word id, .opened [1, id] (id + 1) (mallocs + 2)) := by
        rw [step_open, hnext]
        rfl
      have hsucc : (id + 1).toNat = id.toNat + 1 ∨ rounds = 0 := by
        rw [UInt32.toNat_add]
        simp only [UInt32.toNat_one]
        omega
      have hrest : ∃ answers mallocs', Trace.run (VfsOp.step 100)
          (.opened [1] (id + 1) (mallocs + 2)) (openAndClose rounds (id + 1)) =
            some (answers, .opened [1] (id + 1 + .ofNat rounds) mallocs') := by
        rcases hsucc with hsucc | rfl
        · exact ih (by omega) (by omega)
        · exact ⟨[], mallocs + 2, by simp [openAndClose, Trace.run]⟩
      obtain ⟨answers, mallocs', hrest⟩ := hrest
      have hend : id + 1 + .ofNat rounds = id + .ofNat (rounds + 1) := by
        rw [UInt32.ofNat_add, UInt32.add_assoc, UInt32.add_comm 1]
        rfl
      rw [hend] at hrest
      exact ⟨_, mallocs', Trace.run_cons.mpr ⟨_, _, _, hopen,
        Trace.run_cons.mpr ⟨_, _, _, step_close hzero hone, hrest, rfl⟩, rfl⟩⟩

/-- `/f` is opened, then opened and closed until the counter has wrapped, and then opened again:
the first and the last descriptor have the same id. -/
theorem ids_not_distinct : ∃ (s s' : VfsState) (answers : List VfsAnswer),
    s.openFiles = ⟨[], 1⟩ ∧ Trace.run (VfsOp.step 100) s
      (.openFile [slash, 0x66] 0 :: openAndClose (2 ^ 32 - 2) 2 ++ [.openFile [slash, 0x66] 0]) =
        some (answers, s') ∧ s'.openFiles.ids = [1, 1] := by
  have hnext : (openedTable [] 1).nextId = 1 := if_neg (by decide)
  have hfirst : (VfsOp.openFile [slash, 0x66] 0).step 100 (.opened [] 1 0) =
      some (.word 1, .opened [1] 2 2) := by
    rw [step_open, hnext]
    rfl
  have hrounds : ∃ answers mallocs, Trace.run (VfsOp.step 100) (.opened [1] 2 2)
      (openAndClose (2 ^ 32 - 2) 2) =
        some (answers, .opened [1] (2 + .ofNat (2 ^ 32 - 2)) mallocs) :=
    run_openAndClose (by decide) (by decide)
  have hwrapped : (2 : UInt32) + .ofNat (2 ^ 32 - 2) = 0 := by decide +kernel
  rw [hwrapped] at hrounds
  obtain ⟨answers, mallocs, hrounds⟩ := hrounds
  have hskipped : (openedTable [1] 0).nextId = 1 := if_pos rfl
  have hlast : (VfsOp.openFile [slash, 0x66] 0).step 100 (.opened [1] 0 mallocs) =
      some (.word 1, .opened [1, 1] 2 (mallocs + 2)) := by
    rw [step_open, hskipped]
    rfl
  have hrun := Trace.run_append.mpr ⟨_, _, _, Trace.run_cons.mpr ⟨_, _, _, hfirst, hrounds, rfl⟩,
    Trace.run_cons.mpr ⟨_, _, _, hlast, Trace.run_nil _, rfl⟩, rfl⟩
  exact ⟨_, _, _, rfl, hrun, rfl⟩

end AvrKernel.Vfs
