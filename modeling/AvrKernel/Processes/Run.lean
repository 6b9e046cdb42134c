import AvrKernel.Processes.Creation

/-!
# Runs of `CreateProcess` and `DestroyProcess`

Creations and destructions of any number of threads keep the slots in order, as long
as no process is destroyed before the id of its creation is read.
-/

namespace AvrKernel.Processes

variable {Thread : Type} [DecidableEq Thread]

namespace Table

variable {s s' : Table Thread} {t : Thread} {slot : Fin processMax}

/-! ## Steps -/

/-- No process is destroyed before the `CreateProcess` that made it has read its id. -/
def Undisturbed (s : Table Thread) : ProcessOp Thread → Prop
  | .destroy pid => ∀ slot, s.processLookup pid = some slot → ∀ t, s.phase t ≠ .returning slot
  | _ => True

instance [Fintype Thread] (s : Table Thread) :
    (op : ProcessOp Thread) → Decidable (s.Undisturbed op)
  | .destroy pid => inferInstanceAs
      (Decidable (∀ slot, s.processLookup pid = some slot → ∀ t, s.phase t ≠ .returning slot))
  | .create .. | .fill .. | .start .. | .fail .. | .ret .. | .reap .. => .isTrue trivial

omit [DecidableEq Thread] in
theorem Inv.destroyed (hinv : s.Inv) {pid : ProcessId} (hok : s.Undisturbed (.destroy pid)) :
    (s.destroyProcess pid).2.Inv := by
  cases hlookup : s.processLookup pid with
  | none =>
      unfold destroyProcess
      rw [hlookup]
      exact hinv
  | some slot =>
      by_cases hrunning : (s.processTable slot).state = .running
      · refine hinv.freed (by simp [hrunning])
          (destroyProcess_freed hlookup hrunning fun u hu => ?_)
        -- only a thread that is about to return has a slot of a running process
        have hholds := hinv.phases u
        cases hphase : s.phase u <;> rw [hphase] at hu hholds
        · cases hu
        · cases hu
          exact absurd (hrunning.symm.trans hholds) (by simp)
        · cases hu
          exact absurd (hrunning.symm.trans hholds.1) (by simp)
        · cases hu
          exact absurd (hrunning.symm.trans hholds.1) (by simp)
        · cases hu
          exact hok _ hlookup u hphase
      · unfold destroyProcess
        rw [hlookup]
        dsimp only
        rw [if_pos hrunning]
        exact hinv

theorem Inv.step {op : ProcessOp Thread} {answer : Option Int32} (hinv : s.Inv)
    (hok : s.Undisturbed op) (hstep : s.step op = some (answer, s')) : s'.Inv := by
  cases op with
  | create t imagePath priority cr0 =>
      simp only [Table.step] at hstep
      split at hstep
      next hidle =>
        split at hstep
        · cases hstep
          exact hinv
        · obtain rfl : (s.create t priority).2 = s' := congrArg Prod.snd (Option.some.inj hstep)
          exact hinv.reserved hidle priority
      · cases hstep
  | fill t memory =>
      simp only [Table.step] at hstep
      split at hstep
      next hphase =>
        cases hstep
        exact hinv.filled hphase memory
      · cases hstep
  | start t thread node =>
      simp only [Table.step] at hstep
      split at hstep
      next hphase =>
        cases hstep
        exact hinv.started hphase thread node
      · cases hstep
  | fail t =>
      simp only [Table.step] at hstep
      split at hstep
      next hphase =>
        cases hstep
        have hholds := hinv.phases t
        rw [hphase] at hholds
        exact hinv.freed (by simp [hholds.1]) (fail_freed hinv hphase)
      · cases hstep
  | ret t =>
      simp only [Table.step] at hstep
      split at hstep
      next hphase =>
        cases hstep
        exact hinv.logged hphase
      · cases hstep
  | destroy pid =>
      cases hstep
      exact hinv.destroyed hok
  | reap thread =>
      simp only [Table.step] at hstep
      split at hstep
      · cases hstep
        exact hinv.reaped thread
      · cases hstep

/-! ## What is promised -/

omit [DecidableEq Thread] in
theorem processLookup_idAt (s : Table Thread) (slot : Fin processMax) (releases : Nat) :
    s.processLookup (idAt slot releases) =
      if (s.processTable slot).state = .free ∨ (s.processTable slot).pid ≠
        idAt slot releases then none
      else some slot := by
  have hlt : ((idAt slot releases).toUInt32 &&& pidSlotMask).toNat < processMax := by
    rw [idAt_slot]
    exact slot.isLt
  unfold processLookup
  rw [if_neg (Int32.not_le.mpr (idAt_pos slot releases)), dif_pos hlt]
  simp only [idAt_slot, Fin.eta]

end Table

/-- The thread of a step of `CreateProcess` before it returns an id. -/
def ProcessOp.creator : ProcessOp Thread → Option Thread
  | .create t .. | .fill t _ | .start t .. | .fail t => some t
  | .ret _ | .destroy _ | .reap _ => none

/-- What `process_count` counts of a thread in `CreateProcess`. -/
def Phase.counted (phase : Phase) : UInt32 := if phase.slot = none then 0 else 1

namespace Table

/-- Ids and slots are in order. -/
structure Promised (s : Table Thread) : Prop where
  /-- Two creations return the same id only if its slot has been released often in between. -/
  separated : s.returned.Pairwise fun e e' =>
    e.pid = e'.pid → e.slot = e'.slot ∧ e.releases + generations ≤ e'.releases
  positive : ∀ e ∈ s.returned, 0 < e.pid
  found : ∀ slot, (s.processTable slot).state = .running →
    s.processLookup (s.processTable slot).pid = some slot
  stale : ∀ e ∈ s.returned, e.releases < s.releases e.slot →
    s.releases e.slot < e.releases + generations → s.processLookup e.pid = none
  count : s.processCount.toNat = s.taken.card
  /-- The steps of a creation change no slot but its own. -/
  others : ∀ op t answer s', op.creator = some t → s.step op = some (answer, s') →
    ∀ slot, (s.phase t).slot ≠ some slot → (s'.phase t).slot ≠ some slot →
      s'.processTable slot = s.processTable slot
  /-- What a creation adds to the count it takes back when it fails. -/
  restored : ∀ op t answer s', op.creator = some t → s.step op = some (answer, s') →
    s'.processCount + (s.phase t).counted = s.processCount + (s'.phase t).counted
  /-- A creation that fails frees its slot and what it has made; a thread that there was
  no node for is dead, and the reaper frees it. -/
  failed : ∀ t slot error made left, s.phase t = .failing slot error made left →
    ((s.fail t slot).processTable slot).state = .free ∧ (s.fail t slot).phase t = .idle ∧
      ∀ b ∈ made, b ∈ (s.fail t slot).heap.live → b ∈ left ∧ b ∈ (s.fail t slot).dead

variable {s s' : Table Thread} {t : Thread} {slot : Fin processMax}

/-- What a step of a creation does to the table. -/
structure Creation (s s' : Table Thread) (t : Thread) : Prop where
  others : ∀ slot, (s.phase t).slot ≠ some slot → (s'.phase t).slot ≠ some slot →
    s'.processTable slot = s.processTable slot
  restored : s'.processCount + (s.phase t).counted = s.processCount + (s'.phase t).counted

theorem create_creation (hidle : s.phase t = .idle) (priority : Int32) :
    s.Creation (s.create t priority).2 t := by
  unfold create
  split
  · exact ⟨fun _ _ _ => rfl, rfl⟩
  next slot hslot =>
    constructor
    case others =>
      intro slot' _ hne
      simp only [setPhase, setProcess, Function.update_self, Phase.slot, ne_eq,
        Option.some.injEq] at hne ⊢
      rw [Function.update_of_ne (Ne.symm hne)]
    case restored => simp [setPhase, hidle, Phase.counted, Phase.slot]

theorem Moved.creation {p : Process} {next : Phase} (hmoved : s.Moved s' t slot p next)
    (hslot : (s.phase t).slot = some slot) : s.Creation s' t := by
  constructor
  case others =>
    intro slot' hne _
    rw [hmoved.table, Function.update_of_ne]
    rintro rfl
    exact hne hslot
  case restored =>
    rw [hmoved.count, hmoved.phase, Function.update_self, Phase.counted, Phase.counted, hslot,
      hmoved.slot]

theorem fail_creation {error : Int32} {made left : Finset Nat}
    (hphase : s.phase t = .failing slot error made left) : s.Creation (s.fail t slot) t := by
  constructor
  case others =>
    intro slot' hne _
    simp only [fail, setPhase, processReleaseSlot, setProcess]
    rw [Function.update_of_ne]
    rintro rfl
    exact hne (by rw [hphase]; rfl)
  case restored =>
    simp [fail, setPhase, processReleaseSlot, hphase, Phase.counted, Phase.slot]

theorem Inv.creation {op : ProcessOp Thread} {answer : Option Int32} (hinv : s.Inv)
    (ht : op.creator = some t) (hstep : s.step op = some (answer, s')) : s.Creation s' t := by
  cases op <;> cases ht <;> simp only [Table.step] at hstep
  case create imagePath priority cr0 =>
    split at hstep
    next hidle =>
      split at hstep
      · cases hstep
        exact ⟨fun _ _ _ => rfl, rfl⟩
      · obtain rfl : (s.create t priority).2 = s' := congrArg Prod.snd (Option.some.inj hstep)
        exact create_creation hidle priority
    · cases hstep
  case fill memory =>
    split at hstep
    next hphase =>
      cases hstep
      have hholds := hinv.phases t
      rw [hphase] at hholds
      obtain ⟨p, next, hmoved⟩ := fill_moved hholds t _ memory
      exact hmoved.creation (by rw [hphase]; rfl)
    · cases hstep
  case start thread node =>
    split at hstep
    next hphase =>
      cases hstep
      have hholds := hinv.phases t
      rw [hphase] at hholds
      obtain ⟨p, next, hmoved⟩ := start_moved hholds.1 hholds.2 t thread node
      exact hmoved.creation (by rw [hphase]; rfl)
    · cases hstep
  case fail =>
    split at hstep
    next hphase =>
      cases hstep
      exact fail_creation hphase
    · cases hstep

theorem Inv.fail_frees {error : Int32} {made left : Finset Nat} (hinv : s.Inv)
    (hphase : s.phase t = .failing slot error made left) {b : Nat} (hmade : b ∈ made)
    (hlive : b ∈ (s.fail t slot).heap.live) : b ∈ left ∧ b ∈ (s.fail t slot).dead := by
  have hholds := hinv.phases t
  rw [hphase] at hholds
  obtain ⟨-, hresources, hleft⟩ := hholds
  have hmem : b ∈ s.heap.live \ (s.processTable slot).resources := by
    rw [← processFreeResources_live]
    exact hlive
  obtain ⟨hlive, hnot⟩ := Finset.mem_sdiff.mp hmem
  have hb : b ∈ left := by
    by_contra hb
    exact hnot (hresources (Finset.mem_sdiff.mpr ⟨hmade, hb⟩))
  exact ⟨hb, (hleft b hb).2 hlive⟩

theorem Inv.promised (hinv : s.Inv) : s.Promised := by
  constructor
  case separated =>
    refine hinv.ordered.imp_of_mem fun {e e'} he he' hlt heq => ?_
    rw [hinv.named e he, hinv.named e' he'] at heq
    have hslot := (idAt_inj heq).1
    exact ⟨hslot, generations_le_of_idAt_eq heq (hlt hslot)⟩
  case positive =>
    intro e he
    rw [hinv.named e he]
    exact idAt_pos e.slot e.releases
  case found =>
    intro slot hrunning
    have hpid := (hinv.numbered slot).pid (by simp [hrunning])
    rw [hpid, processLookup_idAt, if_neg]
    simp [hrunning, hpid]
  case stale =>
    intro e he hlt hbound
    rw [hinv.named e he, processLookup_idAt, if_pos]
    by_cases hfree : (s.processTable e.slot).state = .free
    · exact .inl hfree
    · refine .inr fun heq => ?_
      rw [(hinv.numbered e.slot).pid hfree] at heq
      have hle := generations_le_of_idAt_eq heq.symm hlt
      omega
  case count => exact hinv.count
  case others => exact fun op t answer s' ht hstep => (hinv.creation ht hstep).others
  case restored => exact fun op t answer s' ht hstep => (hinv.creation ht hstep).restored
  case failed =>
    intro t slot error made left hphase
    refine ⟨?_, ?_, fun b hmade hlive => hinv.fail_frees hphase hmade hlive⟩
    · simp [fail, setPhase, processReleaseSlot, setProcess, Process.zero]
    · simp [fail, setPhase]

/-- In every run in which no process is destroyed before its id is read, ids and slots
are in order. -/
theorem run_promised {ops : List (ProcessOp Thread)} {answers : List (Option Int32)}
    (hok : Trace.Permitted step Undisturbed init ops)
    (hrun : Trace.run step init ops = some (answers, s)) : s.Promised := by
  have hinv : s.Inv := Trace.run_preserves
    (fun s op answer s' hinv hok hstep => Inv.step hinv hok hstep) init_inv hok hrun
  exact hinv.promised

/-- A creation of a process with nothing missing, up to the reading of its id. -/
def creation (t : Thread) : List (ProcessOp Thread) :=
  [.create t (some [97]) priorityIdle cr0Pg, .fill t fun _ => true, .start t true true]

/-- A creation without memory, and a process that is made, destroyed and made again. -/
def ordinaryRun : List (ProcessOp Bool) :=
  [.create true (some [97]) priorityIdle cr0Pg, .fill true fun _ => false, .fail true] ++
    creation true ++ [.ret true, .destroy 512] ++ creation false ++ [.ret false]

theorem run_promised_ordinary : ∃ answers s,
    Trace.run step init ordinaryRun = some (answers, s) ∧ s.Promised := by
  obtain ⟨⟨answers, s⟩, hrun, -⟩ := Option.map_eq_some_iff.mp
    (show (Trace.run step init ordinaryRun).map (fun result => result.2.returned.map Returned.pid) =
      some [512, 768] by decide +kernel)
  exact ⟨answers, s, hrun, run_promised (by decide +kernel) hrun⟩

/-- A process is destroyed and its slot reused before its id is read. -/
def disturbedRun : List (ProcessOp Bool) :=
  creation true ++ [.destroy 256] ++ creation false ++ [.ret false, .ret true]

/-- Both creations return the id of the second one. -/
theorem not_promised : ¬ ∀ ops answers (s : Table Bool),
    Trace.run step init ops = some (answers, s) → s.Promised := by
  intro hall
  obtain ⟨⟨answers, s⟩, hrun, hreturned⟩ := Option.map_eq_some_iff.mp
    (show (Trace.run step init disturbedRun).map (fun result => result.2.returned) =
      some (List.replicate 2 { pid := 512, slot := ⟨0, by decide⟩,
                               releases := 1 }) by decide +kernel)
  have hseparated := (hall disturbedRun answers s hrun).separated
  rw [show s.returned = _ from hreturned] at hseparated
  have hle := (List.rel_of_pairwise_cons hseparated (List.mem_singleton.mpr rfl) rfl).2
  simp [generations] at hle

end Table

end AvrKernel.Processes
