import AvrKernel.BaseFS.FlushHonesty
import AvrKernel.Vfs.Descriptor
import AvrKernel.Vfs.Tree

/-!
# Flushing all devices

`vfs_sync_all` visits the mounts and flushes the device of each, a device that is
mounted twice a second time. If it reports success, every open device that is mounted
has on its disk what its first flush put there.
-/

namespace AvrKernel

open BaseFS Kernel Effect

/-- `d'` is settled, and its disk as the first flush of `d` left it, which succeeded. -/
structure BaseFS.Device.SyncedTo (d d' : Device) : Prop where
  answer : d.fsDeviceSync.1 = true
  settled : d'.Settled
  byte : d'.drive.byte = d.fsDeviceSync.2.drive.byte

theorem BaseFS.Device.SyncedTo.of_answer {d : Device} (h : d.fsDeviceSync.1 = true) :
    d.SyncedTo d.fsDeviceSync.2 := ⟨h, settled_of_fsDeviceSync h, rfl⟩

theorem BaseFS.Device.SyncedTo.then {d d₁ d' : Device} (h : d.SyncedTo d₁)
    (h' : d' = d₁ ∨ d₁.SyncedTo d') : d.SyncedTo d' := by
  rcases h' with rfl | hagain
  · exact h
  · refine ⟨h.answer, hagain.settled, ?_⟩
    rw [hagain.byte, h.settled.fsDeviceSync.2, h.byte]

namespace Vfs

/-- The node `mount` is a mount of the device with the context `ctx`. -/
def MountOf (n : Nat) (k : KernelState) (mount ctx : UInt32) : Prop :=
  isNowhere mount = false ∧ isNowhere ctx = false ∧
    (∃ flags, (KernelM.kmallocGetFlags mount).run n KernelState.handle k = some (flags, k) ∧
      flags &&& kmallocFlagMount ≠ 0) ∧
    (KernelM.knodeGetReference mount 1).run n KernelState.handle k = some (ctx, k)

/-- The reference at `index` of the node `mnt` is a mount of the device with the context
`ctx`. -/
def MountedAt (n : Nat) (k : KernelState) (mnt index ctx : UInt32) : Prop :=
  ∃ mount, (KernelM.knodeGetReference mnt index).run n KernelState.handle k = some (mount, k) ∧
    MountOf n k mount ctx

/-- The device with the context `ctx` is mounted below `/mnt`. -/
def Mounted (n : Nat) (k : KernelState) (ctx : UInt32) : Prop :=
  ∃ mnt count index,
    (KernelM.knodeFindByName k.root [0x6D, 0x6E, 0x74]).run n KernelState.handle k =
        some (mnt, k) ∧ ¬(mnt = knodeNull ∨ mnt = 0) ∧
      (KernelM.knodeGetReferenceCount mnt).run n KernelState.handle k = some (count, k) ∧
      index < count ∧ MountedAt n k mnt index ctx

/-- Flushing has left the kernel as it is and each device either as it is or synced. -/
structure Flushed (s s' : VfsState) : Prop where
  kernel : s'.kernel = s.kernel
  devices : ∀ ctx, s'.devices ctx = s.devices ctx ∨ (s.devices ctx).SyncedTo (s'.devices ctx)

theorem Flushed.refl (s : VfsState) : Flushed s s := ⟨rfl, fun _ => .inl rfl⟩

theorem Flushed.trans {s s₁ s' : VfsState} (h : Flushed s s₁) (h' : Flushed s₁ s') :
    Flushed s s' where
  kernel := h'.kernel.trans h.kernel
  devices ctx := by
    rcases h.devices ctx with hsame | hsynced
    · rw [← hsame]
      exact h'.devices ctx
    · exact .inr (hsynced.then (h'.devices ctx))

namespace VfsM

variable {n : Nat} {s s' : VfsState} {mount mnt : UInt32}

theorem run_syncMount (hrun : (syncMount mount).run n VfsState.handle s = some (true, s')) :
    Flushed s s' ∧ ∀ ctx, MountOf n s.kernel mount ctx →
      (s.devices ctx).ctx.geometry.isOpen = true → (s.devices ctx).SyncedTo (s'.devices ctx) := by
  rw [syncMount] at hrun
  split at hrun
  next hnowhere =>
    cases hrun
    exact ⟨.refl s, fun ctx hmount => absurd hnowhere (by simp [hmount.1])⟩
  next =>
    rw [Prog.run_bind_eq_some] at hrun
    obtain ⟨flags, s₁, hflags, hrun⟩ := hrun
    rw [run_kernel_readOnly (KernelM.readOnly_getFlags _)] at hflags
    obtain ⟨hflags, rfl⟩ := hflags
    split at hrun
    next hplain =>
      cases hrun
      refine ⟨.refl _, fun ctx hmount => ?_⟩
      obtain ⟨-, -, ⟨flags', hflags', hset⟩, -⟩ := hmount
      rw [hflags, Option.some_inj, Prod.mk.injEq] at hflags'
      exact absurd hplain (hflags'.1 ▸ hset)
    next =>
      rw [Prog.run_bind_eq_some] at hrun
      obtain ⟨ctxRef, s₂, hctx, hrun⟩ := hrun
      rw [run_kernel_readOnly (KernelM.readOnly_getReference _ _)] at hctx
      obtain ⟨hctx, rfl⟩ := hctx
      have hsame : ∀ ctx, MountOf n s₂.kernel mount ctx → ctx = ctxRef := by
        rintro ctx ⟨-, -, -, href⟩
        rw [hctx, Option.some_inj, Prod.mk.injEq] at href
        exact href.1.symm
      split at hrun
      next hnowhere =>
        cases hrun
        refine ⟨.refl _, fun ctx hmount => ?_⟩
        have hsomewhere := hmount.2.1
        rw [hsame ctx hmount, hnowhere] at hsomewhere
        cases hsomewhere
      next =>
        rw [Prog.run_bind_eq_some] at hrun
        obtain ⟨geometry, s₃, hcontext, hrun⟩ := hrun
        rw [run_context, Option.some_inj, Prod.mk.injEq] at hcontext
        obtain ⟨rfl, rfl⟩ := hcontext
        split at hrun
        next hclosed =>
          cases hrun
          refine ⟨.refl _, fun ctx hmount hopen => ?_⟩
          rw [hsame ctx hmount, hclosed] at hopen
          cases hopen
        next =>
          have hsync : ((s₂.devices ctxRef).fsDeviceSync.1,
              s₂.setDevice ctxRef (s₂.devices ctxRef).fsDeviceSync.2) = (true, s') :=
            Option.some.inj hrun
          obtain ⟨hanswer, rfl⟩ := Prod.mk.inj hsync
          have hsynced : (s₂.devices ctxRef).SyncedTo
              ((s₂.setDevice ctxRef (s₂.devices ctxRef).fsDeviceSync.2).devices ctxRef) := by
            rw [VfsState.setDevice_devices]
            exact .of_answer hanswer
          refine ⟨⟨rfl, fun ctx => ?_⟩, fun ctx hmount _ => hsame ctx hmount ▸ hsynced⟩
          by_cases heq : ctx = ctxRef
          · exact .inr (heq ▸ hsynced)
          · exact .inl (VfsState.setDevice_devices_ne heq _ _)

theorem run_syncMounts {remaining : Nat} {index : UInt32} {ok : Bool}
    (hrun : (syncMounts mnt remaining index ok).run n VfsState.handle s = some (true, s')) :
    ok = true ∧ Flushed s s' ∧ ∀ ctx, ∀ i < remaining,
      MountedAt n s.kernel mnt (index + .ofNat i) ctx →
      (s.devices ctx).ctx.geometry.isOpen = true → (s.devices ctx).SyncedTo (s'.devices ctx) := by
  induction remaining generalizing s index ok with
  | zero =>
      obtain ⟨rfl, rfl⟩ := Prod.mk.inj (Option.some.inj hrun)
      exact ⟨rfl, .refl _, fun ctx i hi => absurd hi (Nat.not_lt_zero i)⟩
  | succ remaining ih =>
      rw [syncMounts, Prog.run_bind_eq_some] at hrun
      obtain ⟨mount, s₁, hmount, hrun⟩ := hrun
      rw [run_kernel_readOnly (KernelM.readOnly_getReference _ _)] at hmount
      obtain ⟨hmount, rfl⟩ := hmount
      rw [Prog.run_bind_eq_some] at hrun
      obtain ⟨synced, s₂, hsync, hrun⟩ := hrun
      obtain ⟨hok, hrest, hvisited⟩ := ih hrun
      rw [Bool.and_eq_true] at hok
      obtain ⟨rfl, rfl⟩ := hok
      obtain ⟨hfirst, hthis⟩ := run_syncMount hsync
      refine ⟨rfl, hfirst.trans hrest, fun ctx i hi hmounted hopen => ?_⟩
      cases i with
      | zero =>
          obtain ⟨mount', hmount', hof⟩ := hmounted
          rw [show index + .ofNat 0 = index from UInt32.add_zero _, hmount, Option.some_inj,
            Prod.mk.injEq] at hmount'
          obtain ⟨rfl, -⟩ := hmount'
          exact (hthis ctx hof hopen).then (hrest.devices ctx)
      | succ i =>
          rcases hfirst.devices ctx with hsame | hsynced
          · rw [← hsame] at hopen ⊢
            refine hvisited ctx i (Nat.lt_of_succ_lt_succ hi) ?_ hopen
            rwa [hfirst.kernel, UInt32.add_assoc, UInt32.add_comm 1, ← UInt32.ofNat_one,
              ← UInt32.ofNat_add]
          · exact hsynced.then (hrest.devices ctx)

/-- If everything has been flushed, so has every open device that is mounted. -/
theorem run_syncAll (hrun : doSyncAll.run n VfsState.handle s = some (true, s')) {ctx : UInt32}
    (hmounted : Mounted n s.kernel ctx) (hopen : (s.devices ctx).ctx.geometry.isOpen = true) :
    (s.devices ctx).SyncedTo (s'.devices ctx) := by
  obtain ⟨mnt, count, index, hmnt, hnode, hcount, hindex, hat⟩ := hmounted
  rw [doSyncAll, Prog.run_bind_eq_some] at hrun
  obtain ⟨root, s₁, hroot, hrun⟩ := hrun
  rw [run_kernel_readOnly KernelM.readOnly_getRoot] at hroot
  obtain ⟨hroot, rfl⟩ := hroot
  have hroot' : s₁.kernel.root = root := (Prod.mk.inj (Option.some.inj hroot)).1
  subst hroot'
  rw [Prog.run_bind_eq_some] at hrun
  obtain ⟨mnt', s₂, hmnt', hrun⟩ := hrun
  rw [run_kernel_readOnly (KernelM.readOnly_findByName _ _), hmnt, Option.some_inj,
    Prod.mk.injEq] at hmnt'
  obtain ⟨⟨rfl, -⟩, rfl⟩ := hmnt'
  rw [if_neg hnode, Prog.run_bind_eq_some] at hrun
  obtain ⟨count', s₃, hcount', hrun⟩ := hrun
  rw [run_kernel_readOnly (KernelM.readOnly_getReferenceCount _), hcount, Option.some_inj,
    Prod.mk.injEq] at hcount'
  obtain ⟨⟨rfl, -⟩, rfl⟩ := hcount'
  refine (run_syncMounts hrun).2.2 ctx index.toNat (UInt32.lt_iff_toNat_lt.mp hindex) ?_ hopen
  rwa [UInt32.ofNat_toNat, UInt32.zero_add]

end VfsM

/-- From the opening of a device on, if the accesses to it are heeded, a heeded flush that
reports success leaves all that was written on the disk, and so does `vfs_sync_all` where the
device is mounted. A program that goes on with the device makes such accesses too. -/
theorem flush_is_honest {disk d d₁ : Device} {deviceType : FSDeviceType} {part : FSPartitionBlock}
    {ops : List AccessOp} {answers : List (Option Bool)} {m : Bytes.Mem}
    (hattached : (disk.blank deviceType).Attached)
    (hopen : disk.fsDeviceOpen deviceType = some (part, d))
    (hheeded : Trace.Permitted (Trace.total AccessOp.run) (fun s op => op.Heeded s.1)
      (d, disk.drive.byte) ops)
    (hrun : Trace.run (Trace.total AccessOp.run) (d, disk.drive.byte) ops =
      some (answers, (d₁, m))) :
    (∀ op : AccessOp, op.Heeded d₁ → (op.run (d₁, m)).1 = some true →
      (op.step d₁).drive.byte = m) ∧
    (∀ (n : Nat) (s s' : VfsState) (ctx : UInt32), s.devices ctx = d₁ →
      AccessOp.deviceSync.Heeded d₁ → VfsM.doSyncAll.run n VfsState.handle s = some (true, s') →
        Mounted n s.kernel ctx → d₁.ctx.geometry.isOpen = true →
          (s'.devices ctx).drive.byte = m) ∧
    ∀ (α : Type) (p : FS α) (n : Nat) (value : α) (d₂ : Device),
      p.run n Device.handle d₁ = some (value, d₂) →
        ∃ (more : List AccessOp) (answers' : List (Option Bool)) (m' : Bytes.Mem),
          Trace.run (Trace.total AccessOp.run) (d, disk.drive.byte) (ops ++ more) =
            some (answers ++ answers', (d₂, m')) := by
  obtain ⟨hintact, hcontents⟩ := Device.Intact.of_open hattached hopen
  obtain ⟨hintact₁, hcontents₁⟩ : d₁.Intact ∧ d₁.contents = m := by
    rw [← hcontents] at hheeded hrun
    exact AccessOp.run_contents hintact hheeded hrun
  refine ⟨fun op hop hanswer => ?_, ?_, ?_⟩
  · rw [AccessOp.flush_contents hintact₁ (AccessOp.isFlush_of_answer hanswer) hop, hcontents₁]
  · rintro n s s' ctx rfl hop hsync hmounted hisOpen
    have hsynced := VfsM.run_syncAll hsync hmounted hisOpen
    rw [hsynced.byte, ← hcontents₁]
    exact @AccessOp.flush_contents _ hintact₁ .deviceSync trivial hop
  · intro α p n value d₂ hprogram
    obtain ⟨more, answers', m', hmore⟩ := (Device.accesses_run hprogram).exists_run m
    exact ⟨more, answers', m', Trace.run_append.mpr ⟨answers, (d₁, m), answers', hrun, hmore, rfl⟩⟩

/-- What a write of a byte and a flush answer on a disk, and the byte. -/
def writeAndFlush (disk : Device) (address : UInt32) (byte : UInt8) (flush : AccessOp) :
    Option (List (Option Bool) × UInt8 × UInt8) := do
  let (_, d) ← disk.fsDeviceOpen .ata
  let (answers, d', m) ← Trace.run (Trace.total AccessOp.run) (d, disk.drive.byte)
    [.writeb address byte, flush]
  return (answers, d'.drive.byte address, m address)

theorem writeAndFlush_eq {disk : Device} {address : UInt32} {byte : UInt8} {flush : AccessOp}
    {answers : List (Option Bool)} {stored written : UInt8}
    (h : writeAndFlush disk address byte flush = some (answers, stored, written)) :
    ∃ part d d' m, disk.fsDeviceOpen .ata = some (part, d) ∧
      Trace.run (Trace.total AccessOp.run) (d, disk.drive.byte) [.writeb address byte, flush] =
        some (answers, (d', m)) ∧ d'.drive.byte address = stored ∧ m address = written := by
  simp only [writeAndFlush, Option.bind_eq_bind, Option.bind_eq_some_iff] at h
  obtain ⟨⟨part, d⟩, hopen, ⟨answers', d', m⟩, hrun, heq⟩ := h
  cases heq
  exact ⟨part, d, d', m, hopen, hrun, rfl, rfl⟩

/-- With a drive whose transfers succeed and no frame loaded a write, a bitmap bit and a flush
are heeded. -/
theorem heeded_writeAndSync {d d₁ : Device} (hsound : d.Sound) (hframe : d.FrameOk)
    (hunloaded : d.ctx.frame.offset = fsInvalidFrame) {address index : UInt32} {byte : UInt8}
    {m m₁ : Bytes.Mem} {answers : List (Option Bool)}
    (hoff : (address - fsBitmapAddress).toNat < fsInvalidFrame.toNat)
    (hindex : index.toNat < 8 * d.ctx.geometry.bitmapSize.toNat)
    (hrun : Trace.run (Trace.total AccessOp.run) (d, m) [.writeb address byte, .bitmapSet index] =
      some (answers, (d₁, m₁))) :
    Trace.Permitted (Trace.total AccessOp.run) (fun s op => op.Heeded s.1) (d, m)
      [.writeb address byte, .bitmapSet index] ∧ AccessOp.deviceSync.Heeded d₁ := by
  have hcan := hsound.io.canFetch (sectorOf address)
  have hfree : d.OffFrame address := by
    rintro - ⟨hcovered, -⟩
    rw [hunloaded] at hcovered
    omega
  have hintact : d.Intact := ⟨hsound.io.attached, hsound.coherent, hframe⟩
  obtain ⟨hwritten, hlogical⟩ := hsound.writeb address byte
  have hframe' := (hintact.writeb hcan hfree byte).1.frameOk
  have hgeometry : (d.fsWriteb address byte).ctx.geometry = d.ctx.geometry :=
    congrArg Device.Logical.geometry hlogical
  have hindex' : index.toNat < 8 * (d.fsWriteb address byte).ctx.geometry.bitmapSize.toNat := by
    rwa [hgeometry]
  have hstep := (hwritten.bitmapSet hframe' (Device.windowStart_le hindex')).1
  have hset := hstep.sound hwritten
  have hflushed := (hset.bitmapFlush hstep.frameOk).step.sound hset
  obtain rfl : (d.fsWriteb address byte).fsBitmapSet index = d₁ :=
    congrArg (fun r => r.2.1) (Option.some.inj hrun)
  refine ⟨⟨⟨hcan, hfree⟩, fun answer s hfirst => ?_⟩, hset.canFlush, fun _ => hflushed.io.writes _⟩
  obtain ⟨-, rfl⟩ := Prod.mk.inj (Option.some.inj hfirst)
  exact ⟨⟨hindex', hwritten.canMove hframe' index⟩, fun _ _ _ => trivial⟩

/-- What accesses to the disk at `/mnt/ata0` answer, whether it is open, what `vfs_sync_all`
answers then, and some bytes on the disk before and as written. -/
def accessAndSync (disk : Device) (ops : List AccessOp) :
    Option (List (Option Bool) × Bool × Bool × List (UInt8 × UInt8)) := do
  let (_, d) ← disk.fsDeviceOpen .ata
  let (answers, d₁, m) ← Trace.run (Trace.total AccessOp.run) (d, disk.drive.byte) ops
  let (answer, _) ← VfsM.doSyncAll.run 16 VfsState.handle
    { VfsState.small with kernel := overlaidKernel, devices := fun _ => d₁ }
  return (answers, d₁.ctx.geometry.isOpen, answer,
    [500, 48].map fun address => (d₁.drive.byte address, m address))

set_option maxRecDepth 100000 in
/-- The small kernel has a device at `/mnt/ata0`. -/
theorem mounted_small : Mounted 16 smallKernel 0x5000 := by
  rw [smallKernel_eq]
  have hmnt : (KernelM.knodeFindByName overlaidKernel.root [0x6D, 0x6E, 0x74]).run 16
      KernelState.handle overlaidKernel = some (0x100070, overlaidKernel) :=
    (KernelM.readOnly_findByName _ _).run_eq (by decide +kernel)
  have hcount : (KernelM.knodeGetReferenceCount 0x100070).run 16 KernelState.handle
      overlaidKernel = some (1, overlaidKernel) :=
    (KernelM.readOnly_getReferenceCount _).run_eq (by decide +kernel)
  have hmount : (KernelM.knodeGetReference 0x100070 0).run 16 KernelState.handle
      overlaidKernel = some (0x1000C0, overlaidKernel) :=
    (KernelM.readOnly_getReference _ _).run_eq (by decide +kernel)
  have hflags : (KernelM.kmallocGetFlags 0x1000C0).run 16 KernelState.handle overlaidKernel =
      some (kmallocFlagDirectory ||| kmallocFlagMount, overlaidKernel) :=
    (KernelM.readOnly_getFlags _).run_eq (by decide +kernel)
  have hctx : (KernelM.knodeGetReference 0x1000C0 1).run 16 KernelState.handle overlaidKernel =
      some (0x5000, overlaidKernel) :=
    (KernelM.readOnly_getReference _ _).run_eq (by decide +kernel)
  exact ⟨0x100070, 1, 0, hmnt, by decide, hcount, by decide, 0x1000C0, hmount, by decide, by decide,
    ⟨_, hflags, by decide⟩, hctx⟩

set_option maxRecDepth 100000 in
/-- A byte and a bitmap bit of a formatted disk whose writes succeed: `vfs_sync_all` puts both on
the disk. -/
theorem flush_is_honest_byte :
    ∃ (disk d d₁ : Device) (part : FSPartitionBlock) (m : Bytes.Mem) (s : VfsState),
      disk.fsDeviceOpen .ata = some (part, d) ∧
      Trace.run (Trace.total AccessOp.run) (d, disk.drive.byte) [.writeb 500 7, .bitmapSet 5] =
        some ([none, none], (d₁, m)) ∧
      VfsM.doSyncAll.run 16 VfsState.handle { VfsState.small with devices := fun _ => d₁ } =
        some (true, s) ∧
      (s.devices 0x5000).drive.byte = m ∧ m 500 = 7 ∧ m 48 = 0x21 ∧
      d₁.drive.byte 500 = 0 ∧ d₁.drive.byte 48 = 0x01 := by
  have hanswers : ((zeroDevice.fsDeviceFormat 1024 64 .ata).bind fun disk =>
      accessAndSync disk [.writeb 500 7, .bitmapSet 5]) =
        some ([none, none], true, true, [(0, 7), (0x01, 0x21)]) := by
    decide +kernel
  rw [Option.bind_eq_some_iff] at hanswers
  obtain ⟨disk, hformat, hanswers⟩ := hanswers
  simp only [accessAndSync, Option.bind_eq_bind, Option.bind_eq_some_iff] at hanswers
  obtain ⟨⟨part, d⟩, hopen, ⟨answers, d₁, m⟩, hrun, ⟨answer, s⟩, hsync, heq⟩ := hanswers
  rw [Option.pure_def, Option.some_inj, Prod.mk.injEq, Prod.mk.injEq, Prod.mk.injEq] at heq
  obtain ⟨rfl, hisOpen, rfl, hbytes⟩ := heq
  simp only [List.map_cons, List.map_nil, List.cons.injEq, Prod.mk.injEq, and_true] at hbytes
  obtain ⟨⟨hold, hnew⟩, holdBit, hnewBit⟩ := hbytes
  obtain ⟨-, rfl, hfresh⟩ := Device.format_open zeroDevice_io hformat hopen
  obtain ⟨hheeded, hlast⟩ := heeded_writeAndSync hfresh.sound hfresh.frameOk hfresh.unloaded
    (by decide) (by rw [hfresh.geometry]; decide) hrun
  rw [← smallKernel_eq] at hsync
  obtain ⟨-, hall, -⟩ := flush_is_honest (.inl rfl) hopen hheeded hrun
  exact ⟨disk, d, d₁, _, m, s, hopen, hrun, hsync,
    hall 16 _ s 0x5000 rfl hlast hsync mounted_small hisOpen, hnew, hnewBit, hold, holdBit⟩

set_option maxRecDepth 100000 in
/-- On a disk that takes no writes a flush reports success, and the byte is not there. -/
theorem flush_not_honest : ∃ (disk d d' : Device) (part : FSPartitionBlock) (m : Bytes.Mem),
    (disk.blank .ata).Attached ∧ disk.fsDeviceOpen .ata = some (part, d) ∧
      Trace.run (Trace.total AccessOp.run) (d, disk.drive.byte) [.writeb 0 1, .cacheFlush] =
        some ([none, some true], (d', m)) ∧ m 0 = 1 ∧ d'.drive.byte 0 = 0x13 := by
  have hanswers : ((zeroDevice.fsDeviceFormat 1024 64 .ata).bind fun formatted =>
      writeAndFlush { formatted with drive := { formatted.drive with writeOk := fun _ => false } }
        0 1 .cacheFlush) = some ([none, some true], 0x13, 1) := by
    decide +kernel
  rw [Option.bind_eq_some_iff] at hanswers
  obtain ⟨formatted, -, hanswers⟩ := hanswers
  obtain ⟨part, d, d', m, hopen, hrun, hstored, hwritten⟩ := writeAndFlush_eq hanswers
  exact ⟨_, d, d', part, m, .inl rfl, hopen, hrun, hwritten, hstored⟩

end Vfs

end AvrKernel
