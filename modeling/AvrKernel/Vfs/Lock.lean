import AvrKernel.Lib.FifoLock
import AvrKernel.Lib.Trace
import Mathlib.Data.UInt
import Mathlib.Tactic.Tauto

/-!
# The lock of the file system

`vfs_lock.c`: one mutex around all calls, which its owner may lock again. A
thread can be preempted between any two accesses to `vfs_depth` and `vfs_owner`;
the calls of the mutex are atomic.
-/

namespace AvrKernel.Vfs.Lock

/-- What a thread does next in `vfs_lock` or `vfs_unlock`. -/
inductive Point
  | outside
  | lockReadDepth
  | lockReadOwner
  | nestReadDepth
  | nestWriteDepth (depth : UInt32)
  | mutexLock
  /-- In `mutex_lock`, for as long as the thread is queued. -/
  | mutexLocking
  | lockWriteOwner
  | lockWriteDepth
  | unlockReadDepth
  | unlockReadOwner
  | leaveReadDepth
  | leaveWriteDepth (depth : UInt32)
  | unlockWriteOwner
  | mutexUnlock
  deriving DecidableEq

/-- The variables of `vfs_lock.c` and the threads that use them. How deep a thread
has nested its calls is known to nobody but itself. -/
structure LockState (Thread : Type) where
  vfsDepth : UInt32
  vfsOwner : Option Thread
  vfsMutex : FifoLock Thread
  point : Thread → Point
  nesting : Thread → Nat

inductive Event (Thread : Type)
  | vfsLock (t : Thread)
  | vfsUnlock (t : Thread)
  | advance (t : Thread)

namespace LockState

variable {Thread : Type} [DecidableEq Thread]

def init : LockState Thread :=
  { vfsDepth := 0, vfsOwner := none, vfsMutex := FifoLock.free, point := fun _ => .outside
    nesting := fun _ => 0 }

variable (s : LockState Thread) (t : Thread)

def goto (p : Point) : LockState Thread := { s with point := Function.update s.point t p }

/-- The thread returns from a call with its nesting changed. -/
def leave (depth : Nat) : LockState Thread :=
  { s.goto t .outside with nesting := Function.update s.nesting t depth }

/-- The next access of a thread; `none` while it is blocked or outside. -/
def advance : Option (LockState Thread) :=
  match s.point t with
  | .outside => none
  | .lockReadDepth => some (s.goto t (if s.vfsDepth ≠ 0 then .lockReadOwner else .mutexLock))
  | .lockReadOwner =>
      some (s.goto t (if s.vfsOwner = some t then .nestReadDepth else .mutexLock))
  | .nestReadDepth => some (s.goto t (.nestWriteDepth s.vfsDepth))
  | .nestWriteDepth depth => some ({ s with vfsDepth := depth + 1 }.leave t (s.nesting t + 1))
  | .mutexLock => some ({ s with vfsMutex := s.vfsMutex.step (.acquire t) }.goto t .mutexLocking)
  | .mutexLocking => if t ∈ s.vfsMutex.queue then none else some (s.goto t .lockWriteOwner)
  | .lockWriteOwner => some ({ s with vfsOwner := some t }.goto t .lockWriteDepth)
  | .lockWriteDepth => some ({ s with vfsDepth := 1 }.leave t (s.nesting t + 1))
  | .unlockReadDepth => some (s.goto t (if s.vfsDepth = 0 then .outside else .unlockReadOwner))
  | .unlockReadOwner =>
      some (s.goto t (if s.vfsOwner = some t then .leaveReadDepth else .outside))
  | .leaveReadDepth => some (s.goto t (.leaveWriteDepth s.vfsDepth))
  | .leaveWriteDepth depth =>
      if depth - 1 ≠ 0 then some ({ s with vfsDepth := depth - 1 }.leave t (s.nesting t - 1))
      else some ({ s with vfsDepth := depth - 1 }.goto t .unlockWriteOwner)
  | .unlockWriteOwner => some ({ s with vfsOwner := none }.goto t .mutexUnlock)
  | .mutexUnlock =>
      some ({ s with vfsMutex := s.vfsMutex.step (.release t) }.leave t (s.nesting t - 1))

/-- A thread begins a call when it is outside of both. -/
def next : Event Thread → Option (LockState Thread)
  | .vfsLock t => if s.point t = .outside then some (s.goto t .lockReadDepth) else none
  | .vfsUnlock t => if s.point t = .outside then some (s.goto t .unlockReadDepth) else none
  | .advance t => s.advance t

def step (e : Event Thread) : Option (Unit × LockState Thread) := (s.next e).map fun s' => ((), s')

/-- The thread is between its outermost `vfs_lock` and the matching `vfs_unlock`. -/
def Inside : Prop := 0 < s.nesting t

end LockState

/-- In `vfs_unlock`. -/
def Point.Unlocking : Point → Prop
  | unlockReadDepth | unlockReadOwner | leaveReadDepth | leaveWriteDepth _ | unlockWriteOwner
  | mutexUnlock => True
  | _ => False

open LockState

variable {Thread : Type} [DecidableEq Thread] {s s' : LockState Thread} {t u : Thread}
  {e : Event Thread} {p : Point} {depth : UInt32} {owner : Option Thread} {n : Nat}

/-- What the lock is for. -/
structure Recursive (s : LockState Thread) : Prop where
  exclusive : ∀ t u, s.Inside t → s.Inside u → t = u
  /-- Neither `vfs_lock` nor `vfs_unlock` blocks the thread inside. -/
  nested : ∀ t, s.Inside t → s.point t ≠ .outside → ∃ s', s.advance t = some s'
  /-- `vfs_unlock` of any other thread runs to its end and changes nothing. -/
  foreign : ∀ t, ¬ s.Inside t → (s.point t).Unlocking →
    ∃ p : Point, s.advance t = some (s.goto t p) ∧ (p.Unlocking ∨ p = .outside)
  released : ∀ e s', s.next e = some s' → ∀ t,
    (s.vfsMutex.holder = some t ∧ s'.vfsMutex.holder ≠ some t) ↔ (s.Inside t ∧ ¬ s'.Inside t)

/-- No thread nests its calls deeper than `vfs_depth` can count. -/
def NestsBelow (s : LockState Thread) : Event Thread → Prop
  | .vfsLock t => s.nesting t + 1 < 2 ^ 32
  | _ => True

instance (s : LockState Thread) : (e : Event Thread) → Decidable (NestsBelow s e)
  | .vfsLock _ => inferInstanceAs (Decidable (_ < _))
  | .vfsUnlock _ | .advance _ => .isTrue trivial

/-! ## The invariant -/

/-- The variables as the thread that owns the mutex left them. -/
def Owned (t : Thread) (depth : UInt32) (owner : Option Thread) (nesting : Nat) : Prop :=
  owner = some t ∧ depth.toNat = nesting ∧ 0 < nesting

/-- What the variables are while the owner of the mutex is at a point. -/
def Point.Holds (t : Thread) (depth : UInt32) (owner : Option Thread) (nesting : Nat) :
    Point → Prop
  | outside | unlockReadDepth | unlockReadOwner | leaveReadDepth => Owned t depth owner nesting
  | leaveWriteDepth read => Owned t depth owner nesting ∧ read = depth
  | lockReadDepth | lockReadOwner | nestReadDepth =>
      Owned t depth owner nesting ∧ nesting + 1 < 2 ^ 32
  | nestWriteDepth read => Owned t depth owner nesting ∧ nesting + 1 < 2 ^ 32 ∧ read = depth
  | mutexLock => False
  | mutexLocking | lockWriteOwner => depth = 0 ∧ owner = none ∧ nesting = 0
  | lockWriteDepth => depth = 0 ∧ owner = some t ∧ nesting = 0
  | unlockWriteOwner => depth = 0 ∧ owner = some t ∧ nesting = 1
  | mutexUnlock => depth = 0 ∧ owner = none ∧ nesting = 1

/-- Where the other threads can be that are not queued. -/
def Point.Away : Point → Prop
  | outside | lockReadDepth | lockReadOwner | mutexLock | unlockReadDepth | unlockReadOwner => True
  | _ => False

structure Inv (s : LockState Thread) : Prop where
  sound : s.vfsMutex.Sound
  free : s.vfsMutex.holder = none → s.vfsDepth = 0 ∧ s.vfsOwner = none
  held : ∀ t, s.vfsMutex.holder = some t →
    (s.point t).Holds t s.vfsDepth s.vfsOwner (s.nesting t)
  queued : ∀ t ∈ s.vfsMutex.queue, s.point t = .mutexLocking
  away : ∀ t, s.vfsMutex.holder ≠ some t → t ∉ s.vfsMutex.queue → (s.point t).Away
  apart : ∀ t, s.vfsMutex.holder ≠ some t → s.nesting t = 0

omit [DecidableEq Thread] in
theorem inv_init : Inv (init : LockState Thread) where
  sound := FifoLock.sound_free
  free _ := ⟨rfl, rfl⟩
  held _ := nofun
  queued _ := nofun
  away _ _ _ := trivial
  apart _ _ := rfl

/-- A thread outside of the mutex reads a variable. -/
theorem Inv.goto_away (h : Inv s) (ht : s.vfsMutex.holder ≠ some t) (hp : p.Away)
    (hqueue : t ∉ s.vfsMutex.queue) : Inv (s.goto t p) where
  sound := h.sound
  free := h.free
  held u hu := by
    have hne : u ≠ t := by
      rintro rfl
      exact ht hu
    simpa [LockState.goto, hne] using h.held u hu
  queued u hu := by
    have hne : u ≠ t := by
      rintro rfl
      exact hqueue hu
    simpa [LockState.goto, hne] using h.queued u hu
  away u hu hout := by
    by_cases heq : u = t
    · subst u
      simpa [LockState.goto] using hp
    · simpa [LockState.goto, heq] using h.away u hu hout
  apart := h.apart

/-- The owner of the mutex may change the variables. -/
theorem Inv.owner_step (h : Inv s) (ht : s.vfsMutex.holder = some t)
    (hp : p.Holds t depth owner n) :
    Inv { s with
      vfsDepth := depth, vfsOwner := owner, point := Function.update s.point t p
      nesting := Function.update s.nesting t n } where
  sound := h.sound
  free hfree := absurd (ht.symm.trans hfree) nofun
  held u hu := by
    obtain rfl : t = u := Option.some.inj (ht.symm.trans hu)
    simpa using hp
  queued u hu := by
    have hne : u ≠ t := by
      rintro rfl
      exact h.sound.others u hu ht
    simpa [hne] using h.queued u hu
  away u hu hout := by
    have hne : u ≠ t := by
      rintro rfl
      exact hu ht
    simpa [hne] using h.away u hu hout
  apart u hu := by
    have hne : u ≠ t := by
      rintro rfl
      exact hu ht
    simpa [hne] using h.apart u hu

/-- The owner of the mutex goes on without a change of its nesting. -/
theorem Inv.owner_goto (h : Inv s) (ht : s.vfsMutex.holder = some t)
    (hp : p.Holds t depth owner (s.nesting t)) :
    Inv ({ s with vfsDepth := depth, vfsOwner := owner }.goto t p) := by
  have hstep := h.owner_step ht hp
  rwa [Function.update_eq_self] at hstep

omit [DecidableEq Thread] in
/-- `vfs_owner` names nobody but the owner of the mutex. -/
theorem Inv.owner_ne (h : Inv s) (ht : s.vfsMutex.holder ≠ some t) : s.vfsOwner ≠ some t := by
  cases hholder : s.vfsMutex.holder with
  | none =>
      rw [(h.free hholder).2]
      nofun
  | some u =>
      have hne : u ≠ t := by
        rintro rfl
        exact ht hholder
      have hheld := h.held u hholder
      have hcases : s.vfsOwner = some u ∨ s.vfsOwner = none := by
        cases hp : s.point u <;> simp only [hp, Point.Holds, Owned] at hheld <;> tauto
      rcases hcases with heq | heq
      · rw [heq]
        exact fun hsome => hne (Option.some.inj hsome)
      · rw [heq]
        nofun

omit [DecidableEq Thread] in
/-- A thread that asks for the mutex neither has it nor waits for it already. -/
theorem Inv.fresh (h : Inv s) (hp : s.point t = .mutexLock) :
    s.vfsMutex.holder ≠ some t ∧ t ∉ s.vfsMutex.queue := by
  constructor
  · intro ht
    have hheld := h.held t ht
    rw [hp] at hheld
    exact hheld
  · intro ht
    rw [h.queued t ht] at hp
    cases hp

theorem Inv.acquire (h : Inv s) (hp : s.point t = .mutexLock) :
    Inv ({ s with vfsMutex := s.vfsMutex.step (.acquire t) }.goto t .mutexLocking) := by
  obtain ⟨hnot, hqueue⟩ := h.fresh hp
  have hnesting := h.apart t hnot
  have hsound : (s.vfsMutex.step (.acquire t)).Sound := by
    apply h.sound.step
    rintro u heq
    cases heq
    exact ⟨hnot, hqueue⟩
  cases hholder : s.vfsMutex.holder with
  | none =>
      -- the mutex is free, so the variables are as an owner expects them
      obtain ⟨hdepth, howner⟩ := h.free hholder
      have hempty := h.sound.free hholder
      have hstep : s.vfsMutex.step (.acquire t) = { s.vfsMutex with holder := some t } := by
        simp [FifoLock.step, hholder]
      rw [hstep] at hsound ⊢
      have hothers : ∀ u, some t ≠ some u → u ≠ t ∧ s.vfsMutex.holder ≠ some u := by
        intro u hu
        refine ⟨?_, by simp [hholder]⟩
        rintro rfl
        exact hu rfl
      refine ⟨hsound, nofun, ?_, ?_, ?_, ?_⟩
      · rintro u heq
        obtain rfl : t = u := Option.some.inj heq
        simpa [LockState.goto] using ⟨hdepth, howner, hnesting⟩
      · intro u hu
        change u ∈ s.vfsMutex.queue at hu
        rw [hempty] at hu
        cases hu
      · intro u hu hout
        obtain ⟨hne, hfree⟩ := hothers u hu
        simpa [LockState.goto, hne] using h.away u hfree hout
      · intro u hu
        exact h.apart u (hothers u hu).2
  | some v =>
      have hstep : s.vfsMutex.step (.acquire t) =
          { s.vfsMutex with queue := s.vfsMutex.queue ++ [t] } := by
        simp [FifoLock.step, hholder]
      rw [hstep] at hsound ⊢
      refine ⟨hsound, h.free, ?_, ?_, ?_, h.apart⟩
      · intro u hu
        have hne : u ≠ t := by
          rintro rfl
          exact hnot hu
        simpa [LockState.goto, hne] using h.held u hu
      · intro u hu
        by_cases heq : u = t
        · subst u
          simp [LockState.goto]
        · rcases List.mem_append.mp hu with hin | hlast
          · simpa [LockState.goto, heq] using h.queued u hin
          · exact absurd (List.mem_singleton.mp hlast) heq
      · intro u hu hout
        obtain ⟨hin, hne⟩ := not_or.mp fun hor => hout (List.mem_append.mpr hor)
        have hdiff : u ≠ t := fun heq => hne (List.mem_singleton.mpr heq)
        simpa [LockState.goto, hdiff] using h.away u hu hin

theorem Inv.release (h : Inv s) (ht : s.vfsMutex.holder = some t) (hp : s.point t = .mutexUnlock) :
    Inv ({ s with vfsMutex := s.vfsMutex.step (.release t) }.leave t 0) := by
  have hheld := h.held t ht
  rw [hp] at hheld
  obtain ⟨hdepth, howner, -⟩ := hheld
  have hsound : (s.vfsMutex.step (.release t)).Sound := h.sound.step nofun
  have hstep : s.vfsMutex.step (.release t) =
      { holder := s.vfsMutex.queue.head?, queue := s.vfsMutex.queue.tail } := by
    simp [FifoLock.step, ht]
  rw [hstep] at hsound ⊢
  have hother : ∀ u ∈ s.vfsMutex.queue, u ≠ t := by
    rintro u hu rfl
    exact h.sound.others u hu ht
  have hnot : ∀ u, u ≠ t → s.vfsMutex.holder ≠ some u := by
    intro u hne hsome
    exact hne (Option.some.inj (hsome.symm.trans ht))
  refine ⟨hsound, fun _ => ⟨hdepth, howner⟩, ?_, ?_, ?_, ?_⟩
  · -- who is next has not looked at the variables since it asked for the mutex
    intro u hu
    have hin : u ∈ s.vfsMutex.queue := List.mem_of_head? hu
    have hne := hother u hin
    have hnesting := h.apart u (h.sound.others u hin)
    simpa [LockState.leave, LockState.goto, hne, h.queued u hin] using ⟨hdepth, howner, hnesting⟩
  · intro u hu
    have hin : u ∈ s.vfsMutex.queue := List.mem_of_mem_tail hu
    simpa [LockState.leave, LockState.goto, hother u hin] using h.queued u hin
  · intro u hu hout
    by_cases heq : u = t
    · subst u
      simp [LockState.leave, LockState.goto, Point.Away]
    · have hin : u ∉ s.vfsMutex.queue := by
        intro hmem
        cases hqueue : s.vfsMutex.queue with
        | nil => exact absurd (hqueue ▸ hmem) List.not_mem_nil
        | cons v rest =>
            simp only [hqueue, List.head?_cons, List.tail_cons] at hu hout
            rcases List.mem_cons.mp (hqueue ▸ hmem) with rfl | htail
            · exact hu rfl
            · exact hout htail
      simpa [LockState.leave, LockState.goto, heq] using h.away u (hnot u heq) hin
  · intro u hu
    by_cases heq : u = t
    · subst u
      simp [LockState.leave]
    · simpa [LockState.leave, LockState.goto, heq] using h.apart u (hnot u heq)

theorem Inv.goto (h : Inv s) (hnot : s.point t ≠ .mutexLocking)
    (hheld : s.vfsMutex.holder = some t → p.Holds t s.vfsDepth s.vfsOwner (s.nesting t))
    (haway : s.vfsMutex.holder ≠ some t → p.Away) : Inv (s.goto t p) := by
  by_cases ht : s.vfsMutex.holder = some t
  · exact h.owner_goto ht (hheld ht)
  · exact h.goto_away ht (haway ht) fun hin => hnot (h.queued t hin)

omit [DecidableEq Thread] in
theorem Inv.holder_of_not_away (h : Inv s) (hqueue : t ∉ s.vfsMutex.queue)
    (hp : ¬ (s.point t).Away) : s.vfsMutex.holder = some t := by
  by_contra ht
  exact hp (h.away t ht hqueue)

theorem Inv.advance (h : Inv s) (hs : s.advance t = some s') : Inv s' := by
  have hheld := h.held t
  have hmine : s.point t ≠ .mutexLocking → ¬ (s.point t).Away → s.vfsMutex.holder = some t :=
    fun hne => h.holder_of_not_away fun hin => hne (h.queued t hin)
  cases hp : s.point t <;> simp only [LockState.advance, hp] at hs <;>
    simp only [hp, Point.Holds, Point.Away] at hheld hmine
  case outside => cases hs
  case lockReadDepth =>
    obtain rfl := Option.some.inj hs
    apply h.goto (by rw [hp]; nofun)
    · intro ht
      obtain ⟨howned, hbelow⟩ := hheld ht
      have hdepth : s.vfsDepth ≠ 0 := by
        intro hzero
        have := howned.2
        rw [hzero] at this
        simp at this
        omega
      rw [if_pos hdepth]
      exact ⟨howned, hbelow⟩
    · intro _
      split <;> trivial
  case lockReadOwner =>
    obtain rfl := Option.some.inj hs
    apply h.goto (by rw [hp]; nofun)
    · intro ht
      obtain ⟨howned, hbelow⟩ := hheld ht
      rw [if_pos howned.1]
      exact ⟨howned, hbelow⟩
    · intro ht
      rw [if_neg (h.owner_ne ht)]
      trivial
  case nestReadDepth =>
    obtain rfl := Option.some.inj hs
    have ht := hmine nofun not_false
    obtain ⟨howned, hbelow⟩ := hheld ht
    exact h.owner_goto ht ⟨howned, hbelow, rfl⟩
  case nestWriteDepth read =>
    obtain rfl := Option.some.inj hs
    have ht := hmine nofun not_false
    obtain ⟨⟨howner, hdepth, hinside⟩, hbelow, rfl⟩ := hheld ht
    apply h.owner_step ht
    refine ⟨howner, ?_, Nat.succ_pos _⟩
    change (s.vfsDepth + 1).toNat = s.nesting t + 1
    rw [UInt32.toNat_add, hdepth]
    exact Nat.mod_eq_of_lt hbelow
  case mutexLock =>
    obtain rfl := Option.some.inj hs
    exact h.acquire hp
  case mutexLocking =>
    split at hs
    · cases hs
    · next hout =>
        obtain rfl := Option.some.inj hs
        have ht := h.holder_of_not_away hout (by rw [hp]; exact not_false)
        exact h.owner_goto ht (hheld ht)
  case lockWriteOwner =>
    obtain rfl := Option.some.inj hs
    have ht := hmine nofun not_false
    obtain ⟨hdepth, -, hnesting⟩ := hheld ht
    exact h.owner_goto ht ⟨hdepth, rfl, hnesting⟩
  case lockWriteDepth =>
    obtain rfl := Option.some.inj hs
    have ht := hmine nofun not_false
    obtain ⟨-, howner, hnesting⟩ := hheld ht
    apply h.owner_step ht
    rw [hnesting]
    exact ⟨howner, rfl, Nat.one_pos⟩
  case unlockReadDepth =>
    obtain rfl := Option.some.inj hs
    apply h.goto (by rw [hp]; nofun)
    · intro ht
      split
      · exact hheld ht
      · exact hheld ht
    · intro _
      split <;> trivial
  case unlockReadOwner =>
    obtain rfl := Option.some.inj hs
    apply h.goto (by rw [hp]; nofun)
    · intro ht
      split
      · exact hheld ht
      · exact hheld ht
    · intro ht
      rw [if_neg (h.owner_ne ht)]
      trivial
  case leaveReadDepth =>
    obtain rfl := Option.some.inj hs
    have ht := hmine nofun not_false
    exact h.owner_goto ht ⟨hheld ht, rfl⟩
  case leaveWriteDepth read =>
    have ht := hmine nofun not_false
    obtain ⟨⟨howner, hdepth, hinside⟩, rfl⟩ := hheld ht
    have hone : (1 : UInt32) ≤ s.vfsDepth := by
      apply UInt32.le_iff_toNat_le.mpr
      rw [hdepth]
      exact hinside
    have hsub : (s.vfsDepth - 1).toNat = s.nesting t - 1 := by
      rw [UInt32.toNat_sub_of_le _ _ hone, hdepth]
      rfl
    split at hs
    · next hmore =>
        obtain rfl := Option.some.inj hs
        apply h.owner_step ht
        refine ⟨howner, hsub, ?_⟩
        have hne : (s.vfsDepth - 1).toNat ≠ 0 := fun hzero => hmore (UInt32.toNat_inj.mp hzero)
        omega
    · next hlast =>
        obtain rfl := Option.some.inj hs
        have hzero : s.vfsDepth - 1 = 0 := not_not.mp hlast
        apply h.owner_goto ht
        refine ⟨hzero, howner, ?_⟩
        rw [hzero] at hsub
        simp at hsub
        omega
  case unlockWriteOwner =>
    obtain rfl := Option.some.inj hs
    have ht := hmine nofun not_false
    obtain ⟨hdepth, -, hnesting⟩ := hheld ht
    exact h.owner_goto ht ⟨hdepth, rfl, hnesting⟩
  case mutexUnlock =>
    obtain rfl := Option.some.inj hs
    have ht := hmine nofun not_false
    obtain ⟨-, -, hnesting⟩ := hheld ht
    rw [hnesting]
    exact h.release ht hp

theorem Inv.next (h : Inv s) (hbelow : NestsBelow s e) (hs : s.next e = some s') : Inv s' := by
  cases e with
  | vfsLock t =>
      simp only [LockState.next] at hs
      split at hs
      · next hp =>
          obtain rfl := Option.some.inj hs
          apply h.goto (by rw [hp]; nofun)
          · intro ht
            have hheld := h.held t ht
            rw [hp] at hheld
            exact ⟨hheld, hbelow⟩
          · exact fun _ => trivial
      · cases hs
  | vfsUnlock t =>
      simp only [LockState.next] at hs
      split at hs
      · next hp =>
          obtain rfl := Option.some.inj hs
          apply h.goto (by rw [hp]; nofun)
          · intro ht
            have hheld := h.held t ht
            rw [hp] at hheld
            exact hheld
          · exact fun _ => trivial
      · cases hs
  | advance t => exact h.advance hs

/-! ## What follows from it -/

omit [DecidableEq Thread] in
theorem Inv.holder_of_inside (h : Inv s) (ht : s.Inside t) : s.vfsMutex.holder = some t := by
  by_contra hne
  exact absurd (h.apart t hne) (Nat.ne_of_gt ht)

/-- The thread inside is never blocked. -/
theorem Inv.nested (h : Inv s) (ht : s.Inside t) (hp : s.point t ≠ .outside) :
    ∃ s', s.advance t = some s' := by
  have hqueue : t ∉ s.vfsMutex.queue := fun hin =>
    h.sound.others t hin (h.holder_of_inside ht)
  cases hpoint : s.point t <;> simp only [LockState.advance, hpoint, hqueue, if_false]
  case outside => exact absurd hpoint hp
  case leaveWriteDepth read => split <;> exact ⟨_, rfl⟩
  all_goals exact ⟨_, rfl⟩

omit [DecidableEq Thread] in
/-- A thread that owns the mutex and is not inside is on its way in. -/
theorem Inv.not_inside (h : Inv s) (ht : ¬ s.Inside t) (hp : (s.point t).Unlocking) :
    s.vfsMutex.holder ≠ some t := by
  intro hholder
  have hheld := h.held t hholder
  refine ht (show 0 < s.nesting t from ?_)
  generalize s.point t = p at hp hheld
  cases p <;> try exact hp.elim
  case unlockReadDepth => exact hheld.2.2
  case unlockReadOwner => exact hheld.2.2
  case leaveReadDepth => exact hheld.2.2
  case leaveWriteDepth => exact hheld.1.2.2
  case unlockWriteOwner => exact hheld.2.2 ▸ Nat.one_pos
  case mutexUnlock => exact hheld.2.2 ▸ Nat.one_pos

theorem Inv.foreign (h : Inv s) (ht : ¬ s.Inside t) (hp : (s.point t).Unlocking) :
    ∃ p : Point, s.advance t = some (s.goto t p) ∧ (p.Unlocking ∨ p = .outside) := by
  have hholder := h.not_inside ht hp
  have hqueue : t ∉ s.vfsMutex.queue := by
    intro hin
    rw [h.queued t hin] at hp
    exact hp
  have haway := h.away t hholder hqueue
  cases hpoint : s.point t
  all_goals rw [hpoint] at hp haway
  case unlockReadDepth =>
    refine ⟨if s.vfsDepth = 0 then .outside else .unlockReadOwner, ?_, ?_⟩
    · simp only [LockState.advance, hpoint]
    · split
      · exact Or.inr rfl
      · exact Or.inl trivial
  case unlockReadOwner =>
    refine ⟨.outside, ?_, Or.inr rfl⟩
    simp only [LockState.advance, hpoint, if_neg (h.owner_ne hholder)]
  all_goals first | exact hp.elim | exact haway.elim

/-- Every step but the call of `mutex_unlock` leaves the mutex with its owner and
the thread inside where it is. -/
theorem Inv.advance_keeps (h : Inv s) (hs : s.advance t = some s')
    (hp : s.point t ≠ .mutexUnlock) :
    (∀ u, s.vfsMutex.holder = some u → s'.vfsMutex.holder = some u) ∧
      ∀ u, s.Inside u → s'.Inside u := by
  have hheld := h.held t
  have hmine : s.point t ≠ .mutexLocking → ¬ (s.point t).Away → s.vfsMutex.holder = some t :=
    fun hne => h.holder_of_not_away fun hin => hne (h.queued t hin)
  cases hpoint : s.point t <;> simp only [LockState.advance, hpoint] at hs <;>
    simp only [hpoint, Point.Holds, Point.Away] at hheld hmine
  case outside => cases hs
  case mutexUnlock => exact absurd hpoint hp
  case mutexLock =>
    obtain rfl := Option.some.inj hs
    exact ⟨fun u hu => FifoLock.holder_step hu nofun, fun u hu => hu⟩
  case mutexLocking =>
    split at hs
    · cases hs
    · obtain rfl := Option.some.inj hs
      exact ⟨fun u hu => hu, fun u hu => hu⟩
  case nestWriteDepth read =>
    obtain rfl := Option.some.inj hs
    refine ⟨fun u hu => hu, fun u hu => ?_⟩
    by_cases heq : u = t
    · subst u
      simp [Inside, LockState.leave]
    · simpa [Inside, LockState.leave, LockState.goto, heq] using hu
  case lockWriteDepth =>
    obtain rfl := Option.some.inj hs
    refine ⟨fun u hu => hu, fun u hu => ?_⟩
    by_cases heq : u = t
    · subst u
      simp [Inside, LockState.leave]
    · simpa [Inside, LockState.leave, LockState.goto, heq] using hu
  case leaveWriteDepth read =>
    obtain ⟨⟨-, hdepth, hinside⟩, rfl⟩ := hheld (hmine nofun not_false)
    split at hs
    · next hmore =>
        obtain rfl := Option.some.inj hs
        refine ⟨fun u hu => hu, fun u hu => ?_⟩
        by_cases heq : u = t
        · subst u
          -- a depth other than 1 leaves the thread inside
          have hne : s.vfsDepth ≠ 1 := by
            rintro hone
            exact hmore (by rw [hone]; rfl)
          have hone : s.vfsDepth.toNat ≠ 1 := fun hnat => hne (UInt32.toNat_inj.mp hnat)
          simp only [Inside, LockState.leave, Function.update_self]
          omega
        · simpa [Inside, LockState.leave, LockState.goto, heq] using hu
    · obtain rfl := Option.some.inj hs
      exact ⟨fun u hu => hu, fun u hu => hu⟩
  all_goals
    obtain rfl := Option.some.inj hs
    exact ⟨fun u hu => hu, fun u hu => hu⟩

/-- The call of `mutex_unlock` ends the outermost `vfs_lock`. -/
theorem Inv.advance_unlock (h : Inv s) (hs : s.advance t = some s')
    (hp : s.point t = .mutexUnlock) :
    (s.vfsMutex.holder = some t ∧ s'.vfsMutex.holder ≠ some t) ∧ s.Inside t ∧ ¬ s'.Inside t := by
  have hqueue : t ∉ s.vfsMutex.queue := by
    intro hin
    rw [h.queued t hin] at hp
    cases hp
  have ht := h.holder_of_not_away hqueue (by rw [hp]; exact not_false)
  have hheld := h.held t ht
  rw [hp] at hheld
  obtain ⟨-, -, hnesting⟩ := hheld
  simp only [LockState.advance, hp] at hs
  obtain rfl := Option.some.inj hs
  refine ⟨⟨ht, ?_⟩, ?_, ?_⟩
  · intro hagain
    simp only [LockState.leave, LockState.goto, FifoLock.step, ht, if_true] at hagain
    exact h.sound.others t (List.mem_of_head? hagain) ht
  · rw [Inside, hnesting]
    exact Nat.one_pos
  · simp [Inside, LockState.leave, hnesting]

theorem Inv.released (h : Inv s) (hs : s.next e = some s') (t : Thread) :
    (s.vfsMutex.holder = some t ∧ s'.vfsMutex.holder ≠ some t) ↔ (s.Inside t ∧ ¬ s'.Inside t) := by
  have hkept : (∀ u, s.vfsMutex.holder = some u → s'.vfsMutex.holder = some u) →
      (∀ u, s.Inside u → s'.Inside u) →
      ((s.vfsMutex.holder = some t ∧ s'.vfsMutex.holder ≠ some t) ↔
        (s.Inside t ∧ ¬ s'.Inside t)) := by
    intro hholder hinside
    exact iff_of_false (fun hboth => hboth.2 (hholder t hboth.1))
      fun hboth => hboth.2 (hinside t hboth.1)
  cases e with
  | vfsLock u =>
      simp only [LockState.next] at hs
      split at hs
      · obtain rfl := Option.some.inj hs
        exact hkept (fun _ hu => hu) fun _ hu => hu
      · cases hs
  | vfsUnlock u =>
      simp only [LockState.next] at hs
      split at hs
      · obtain rfl := Option.some.inj hs
        exact hkept (fun _ hu => hu) fun _ hu => hu
      · cases hs
  | advance u =>
      by_cases hp : s.point u = .mutexUnlock
      · by_cases heq : t = u
        · subst u
          have hboth := h.advance_unlock hs hp
          exact iff_of_true hboth.1 hboth.2
        · have hu := (h.advance_unlock hs hp).1.1
          have hnot : s.vfsMutex.holder ≠ some t := fun ht =>
            heq (Option.some.inj (ht.symm.trans hu))
          exact iff_of_false (fun hboth => hnot hboth.1)
            fun hboth => hnot (h.holder_of_inside hboth.1)
      · obtain ⟨hholder, hinside⟩ := h.advance_keeps hs hp
        exact hkept hholder hinside

theorem Inv.recursive (h : Inv s) : Recursive s where
  exclusive _ _ ht hu :=
    Option.some.inj ((h.holder_of_inside ht).symm.trans (h.holder_of_inside hu))
  nested _ := h.nested
  foreign _ := h.foreign
  released _ _ := h.released

/-- The lock is recursive in every run in which `vfs_depth` does not overflow. -/
theorem run_recursive {events : List (Event Thread)} {answers : List Unit}
    (hbelow : Trace.Permitted LockState.step NestsBelow init events)
    (hrun : Trace.run LockState.step init events = some (answers, s)) : Recursive s := by
  have hinv : Inv s := by
    refine Trace.run_preserves ?_ inv_init hbelow hrun
    rintro s e answer s' hinv hok hstep
    obtain ⟨s₁, hnext, hpair⟩ := Option.map_eq_some_iff.mp hstep
    cases hpair
    exact hinv.next hok hnext
  exact hinv.recursive

/-- Two threads that both find the lock free. The one that is second waits while the first one
nests its calls and leaves them; then it has the lock, and the first one calls `vfs_unlock` once
too often. -/
def handOver : List (Event Bool) :=
  [.vfsLock true, .vfsLock false, .advance true, .advance false, .advance true, .advance false] ++
    List.replicate 3 (.advance true) ++ .vfsLock true :: List.replicate 4 (.advance true) ++
    .vfsUnlock true :: List.replicate 4 (.advance true) ++
    .vfsUnlock true :: List.replicate 6 (.advance true) ++ List.replicate 3 (.advance false) ++
    [.vfsUnlock true, .vfsLock false, .advance true]

theorem run_recursive_handOver : ∃ (answers : List Unit) (s : LockState Bool),
    Trace.run LockState.step init handOver = some (answers, s) ∧
      s.Inside false ∧ ¬s.Inside true ∧ (s.point true).Unlocking ∧ s.point false = .lockReadDepth ∧
      Recursive s := by
  have hshown : (Trace.run LockState.step (init : LockState Bool) handOver).map (fun r =>
      (r.2.nesting false, r.2.nesting true, r.2.point false, r.2.point true)) =
        some (1, 0, .lockReadDepth, .unlockReadOwner) := by
    decide
  obtain ⟨⟨answers, s⟩, hrun, hs⟩ := Option.map_eq_some_iff.mp hshown
  simp only [Prod.mk.injEq] at hs
  obtain ⟨hinside, houtside, hfirst, hsecond⟩ := hs
  refine ⟨answers, s, hrun, ?_, ?_, ?_, hfirst, run_recursive (by decide) hrun⟩
  · rw [Inside, hinside]
    exact Nat.one_pos
  · rw [Inside, houtside]
    exact Nat.lt_irrefl 0
  · rw [hsecond]
    trivial

/-! ## Nesting too deep -/

/-- A thread with the mutex to itself, for which it may wait again. -/
def alone (queue : List Unit) (p : Point) (depth : UInt32) (n : Nat) : LockState Unit :=
  { vfsDepth := depth, vfsOwner := some (), vfsMutex := { holder := some (), queue }
    point := fun _ => p, nesting := fun _ => n }

def nestEvents : List (Event Unit) := .vfsLock () :: List.replicate 4 (.advance ())

theorem update_unit {α : Type} (f : Unit → α) (value : α) :
    Function.update f () value = fun _ => value := by
  funext u
  simp

theorem run_nestEvents (n : Nat) (hdepth : depth ≠ 0) :
    Trace.run LockState.step (alone [] .outside depth n) nestEvents =
      some (List.replicate 5 (), alone [] .outside (depth + 1) (n + 1)) := by
  simp [nestEvents, alone, Trace.run, LockState.step, LockState.next, LockState.advance,
    LockState.goto, LockState.leave, update_unit, hdepth, List.replicate]

/-- A single thread can nest its calls as deep as it likes. -/
theorem run_nested {n : Nat} (hn : 0 < n) (hle : n ≤ 2 ^ 32) :
    ∃ events answers, Trace.run LockState.step init events =
      some (answers, alone [] .outside (.ofNat n) n) := by
  induction n with
  | zero => cases hn
  | succ n ih =>
      cases n with
      | zero =>
          refine ⟨.vfsLock () :: List.replicate 5 (.advance ()), List.replicate 6 (), ?_⟩
          simp [alone, init, Trace.run, LockState.step, LockState.next, LockState.advance,
            LockState.goto, LockState.leave, update_unit, FifoLock.step, FifoLock.free,
            List.replicate]
      | succ n =>
          obtain ⟨events, answers, hrun⟩ := ih (Nat.succ_pos n) (by omega)
          have hdepth : UInt32.ofNat (n + 1) ≠ 0 := by
            intro hzero
            have hnat := congrArg UInt32.toNat hzero
            rw [UInt32.toNat_ofNat_of_lt' (Nat.lt_of_lt_of_le (Nat.lt_succ_self _) hle)] at hnat
            cases hnat
          have hnest := run_nestEvents (n + 1) hdepth
          rw [show UInt32.ofNat (n + 1) + 1 = UInt32.ofNat (n + 1 + 1) from
            (UInt32.ofNat_add (n + 1) 1).symm] at hnest
          exact ⟨events ++ nestEvents, _,
            Trace.run_append.mpr ⟨answers, _, _, hrun, hnest, rfl⟩⟩

/-- After 2^32 calls `vfs_depth` is 0 again, and one more call blocks the thread for ever. -/
theorem not_recursive_nested :
    ∃ (events : List (Event Unit)) (answers : List Unit) (s : LockState Unit),
      Trace.run LockState.step init events = some (answers, s) ∧ ¬ Recursive s := by
  obtain ⟨events, answers, hrun⟩ := run_nested (Nat.two_pow_pos 32) (Nat.le_refl _)
  rw [show UInt32.ofNat (2 ^ 32) = 0 by decide] at hrun
  have hblock : Trace.run LockState.step (alone [] .outside 0 (2 ^ 32))
      [.vfsLock (), .advance (), .advance ()] =
        some ([(), (), ()], alone [()] .mutexLocking 0 (2 ^ 32)) := by
    simp [alone, Trace.run, LockState.step, LockState.next, LockState.advance,
      LockState.goto, update_unit, FifoLock.step]
  refine ⟨_, _, _, Trace.run_append.mpr ⟨answers, _, _, hrun, hblock, rfl⟩, fun h => ?_⟩
  have hinside : (alone [()] .mutexLocking 0 (2 ^ 32)).Inside () := Nat.two_pow_pos 32
  obtain ⟨s', hsome⟩ := h.nested () hinside (by rintro ⟨⟩)
  simp [LockState.advance, alone] at hsome

end AvrKernel.Vfs.Lock
