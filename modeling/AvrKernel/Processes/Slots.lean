import AvrKernel.Processes.Ids
import AvrKernel.Processes.Memory
import Mathlib.Order.Interval.Finset.Nat

/-!
# The slots over a run

Every slot has the generation that its releases give, the threads in `CreateProcess`
work on different slots, and the ids that were returned are those of their slots.
-/

namespace AvrKernel.Processes

variable {Thread : Type}

/-- The slot that a thread in `CreateProcess` works on. -/
def Phase.slot : Phase → Option (Fin processMax)
  | .idle => none
  | .filling slot _ => some slot
  | .starting slot _ => some slot
  | .failing slot _ _ _ => some slot
  | .returning slot => some slot

/-- What a thread in `CreateProcess` relies on. What it has allocated is in its slot, but
for a thread without a node, which is freed already or left to the reaper. -/
def Phase.Holds (s : Table Thread) : Phase → Prop
  | .idle => True
  | .filling slot _ => (s.processTable slot).state = .creating
  | .starting slot made =>
      (s.processTable slot).state = .creating ∧ made ⊆ (s.processTable slot).resources
  | .failing slot _ made left =>
      (s.processTable slot).state = .creating ∧ made \ left ⊆ (s.processTable slot).resources ∧
        ∀ b ∈ left, b < s.heap.fresh ∧ (b ∈ s.heap.live → b ∈ s.dead)
  | .returning slot => (s.processTable slot).state = .running

/-- A slot that has been released so often. -/
structure Process.Numbered (p : Process) (slot : Fin processMax) (releases : Nat) : Prop where
  generation : p.generation = generationAt releases ∨
    p.generation = 0 ∧ releases = 0 ∧ p.state = .free
  pid : p.state ≠ .free → p.pid = idAt slot releases

namespace Table

/-- The slots in use. -/
def taken (s : Table Thread) : Finset (Fin processMax) :=
  Finset.univ.filter fun slot => (s.processTable slot).state ≠ .free

structure Inv (s : Table Thread) : Prop where
  numbered : ∀ slot, (s.processTable slot).Numbered slot (s.releases slot)
  count : s.processCount.toNat = s.taken.card
  phases : ∀ t, (s.phase t).Holds s
  exclusive : ∀ t u slot, (s.phase t).slot = some slot → (s.phase u).slot = some slot → t = u
  named : ∀ e ∈ s.returned, e.pid = idAt e.slot e.releases
  released : ∀ e ∈ s.returned, e.releases ≤ s.releases e.slot
  /-- An id that was returned and whose slot is not released is that of a running process. -/
  current : ∀ e ∈ s.returned, e.releases = s.releases e.slot →
    (s.processTable e.slot).state = .running ∧ ∀ t, (s.phase t).slot ≠ some e.slot
  ordered : s.returned.Pairwise fun e e' => e.slot = e'.slot → e.releases < e'.releases

/-- Nothing that was freed is allocated again, and a dead thread is left to the reaper
until it is freed. -/
def Later (s s' : Table Thread) : Prop :=
  s.heap.fresh ≤ s'.heap.fresh ∧
    ∀ b < s.heap.fresh, b ∈ s'.heap.live → b ∈ s.heap.live ∧ (b ∈ s.dead → b ∈ s'.dead)

theorem Later.rfl {s : Table Thread} : s.Later s := ⟨le_rfl, fun _ _ hb => ⟨hb, id⟩⟩

theorem Later.of_grown {s s' : Table Thread} {blocks : Finset Nat}
    (hgrown : s.heap.Grown s'.heap blocks) (hdead : s.dead ⊆ s'.dead) : s.Later s' :=
  ⟨hgrown.fresh, fun _ hlt hb => ⟨hgrown.live_of_lt hlt hb, fun hmem => hdead hmem⟩⟩

end Table

open Table

theorem Phase.Holds.later {s s' : Table Thread} {phase : Phase} (hholds : phase.Holds s)
    (hlater : s.Later s')
    (hslot : ∀ slot, phase.slot = some slot → s'.processTable slot = s.processTable slot) :
    phase.Holds s' := by
  cases phase with
  | idle => trivial
  | filling slot priority =>
      simp only [Phase.Holds, hslot slot rfl]
      exact hholds
  | starting slot made =>
      simp only [Phase.Holds, hslot slot rfl]
      exact hholds
  | failing slot error made left =>
      simp only [Phase.Holds, hslot slot rfl]
      obtain ⟨hstate, hmade, hleft⟩ := hholds
      refine ⟨hstate, hmade, ?_⟩
      intro b hb
      obtain ⟨hlt, hdead⟩ := hleft b hb
      refine ⟨hlt.trans_le hlater.1, ?_⟩
      intro hlive
      exact (hlater.2 b hlt hlive).2 (hdead (hlater.2 b hlt hlive).1)
  | returning slot =>
      simp only [Phase.Holds, hslot slot rfl]
      exact hholds

theorem Phase.Holds.taken {s : Table Thread} {phase : Phase} {slot : Fin processMax}
    (hholds : phase.Holds s) (hslot : phase.slot = some slot) :
    (s.processTable slot).state ≠ .free := by
  cases phase with
  | idle => simp [Phase.slot] at hslot
  | filling slot' priority =>
      cases hslot
      simp [show (s.processTable slot).state = .creating from hholds]
  | starting slot' made =>
      cases hslot
      simp [hholds.1]
  | failing slot' error made left =>
      cases hslot
      simp [hholds.1]
  | returning slot' =>
      cases hslot
      simp [show (s.processTable slot).state = .running from hholds]

namespace Table

variable {s s' : Table Thread} {t : Thread} {slot : Fin processMax}

theorem mem_taken : slot ∈ s.taken ↔ (s.processTable slot).state ≠ .free := by
  simp [taken]

theorem taken_card_le (s : Table Thread) : s.taken.card ≤ 64 := by
  have hle := Finset.card_le_univ s.taken
  rwa [Fintype.card_fin] at hle

theorem init_inv : (init : Table Thread).Inv := by
  constructor
  case numbered => exact fun slot => ⟨.inr ⟨rfl, rfl, rfl⟩, fun hstate => absurd rfl hstate⟩
  case count => simp [taken, init, Process.zero]
  case phases => exact fun t => trivial
  case exclusive => simp [init, Phase.slot]
  case named => simp [init]
  case released => simp [init]
  case current => simp [init]
  case ordered => exact List.Pairwise.nil

variable [DecidableEq Thread]

/-- A thread goes on in its slot. -/
structure Moved (s s' : Table Thread) (t : Thread) (slot : Fin processMax) (p : Process)
    (next : Phase) : Prop where
  table : s'.processTable = Function.update s.processTable slot p
  state : p.state ≠ .free
  generation : p.generation = (s.processTable slot).generation
  pid : p.pid = (s.processTable slot).pid
  count : s'.processCount = s.processCount
  later : s.Later s'
  phase : s'.phase = Function.update s.phase t next
  slot : next.slot = some slot
  holds : next.Holds s'
  releases : s'.releases = s.releases
  returned : s'.returned = s.returned

theorem Inv.moved {p : Process} {next : Phase} (hinv : s.Inv)
    (hslot : (s.phase t).slot = some slot) (hcreating : (s.processTable slot).state = .creating)
    (hmoved : s.Moved s' t slot p next) : s'.Inv := by
  obtain ⟨htable, hstate, hgeneration, hpid, hcount, hlater, hphase, hphaseSlot, hholds,
    hreleases, hreturned⟩ := hmoved
  have hphases : ∀ u, (s'.phase u).slot = (s.phase u).slot := by
    intro u
    rw [hphase]
    rcases eq_or_ne u t with rfl | hne
    · rw [Function.update_self, hphaseSlot, hslot]
    · rw [Function.update_of_ne hne]
  have hnumbered := hinv.numbered slot
  constructor
  case numbered =>
    intro slot'
    rw [htable, hreleases]
    rcases eq_or_ne slot' slot with rfl | hne
    · rw [Function.update_self]
      refine ⟨.inl ?_, fun _ => ?_⟩
      · rw [hgeneration]
        refine hnumbered.generation.resolve_right fun hfree => ?_
        simp [hcreating] at hfree
      · rw [hpid]
        exact hnumbered.pid (by simp [hcreating])
    · rw [Function.update_of_ne hne]
      exact hinv.numbered slot'
  case count =>
    have htaken : s'.taken = s.taken := by
      ext slot'
      rw [mem_taken, mem_taken, htable]
      rcases eq_or_ne slot' slot with rfl | hne
      · simp [hstate, hcreating]
      · rw [Function.update_of_ne hne]
    rw [hcount, htaken]
    exact hinv.count
  case phases =>
    intro u
    rcases eq_or_ne u t with rfl | hne
    · rw [hphase, Function.update_self]
      exact hholds
    · have hother := hphases u
      rw [hphase, Function.update_of_ne hne] at hother ⊢
      refine (hinv.phases u).later hlater fun slot' hslot' => ?_
      rw [htable, Function.update_of_ne]
      rintro rfl
      exact hne (hinv.exclusive u t slot' hslot' hslot)
  case exclusive =>
    intro u v slot' hu hv
    rw [hphases] at hu hv
    exact hinv.exclusive u v slot' hu hv
  case named => exact fun e he => hinv.named e (hreturned ▸ he)
  case released =>
    intro e he
    rw [hreleases]
    exact hinv.released e (hreturned ▸ he)
  case current =>
    intro e he heq
    rw [hreleases] at heq
    obtain ⟨hrunning, hnobody⟩ := hinv.current e (hreturned ▸ he) heq
    refine ⟨?_, fun u => hphases u ▸ hnobody u⟩
    rw [htable, Function.update_of_ne, hrunning]
    rintro rfl
    simp [hcreating] at hrunning
  case ordered => exact hreturned ▸ hinv.ordered

/-- A slot that nobody works on is released. -/
structure Freed (s s' : Table Thread) (slot : Fin processMax) : Prop where
  table : s'.processTable = Function.update s.processTable slot
    { Process.zero with generation := nextGeneration (s.processTable slot).generation }
  count : s'.processCount = s.processCount - 1
  later : s.Later s'
  phase : ∀ u, s'.phase u = s.phase u ∧ (s.phase u).slot ≠ some slot ∨ s'.phase u = .idle
  releases : s'.releases = Function.update s.releases slot (s.releases slot + 1)
  returned : s'.returned = s.returned

omit [DecidableEq Thread] in
theorem Inv.generation_of_taken (hinv : s.Inv) (hstate : (s.processTable slot).state ≠ .free) :
    (s.processTable slot).generation = generationAt (s.releases slot) :=
  (hinv.numbered slot).generation.resolve_right fun hfree => hstate hfree.2.2

omit [DecidableEq Thread] in
theorem Freed.slot_of_slot (hfreed : s.Freed s' slot) {u : Thread} {slot' : Fin processMax}
    (hu : (s'.phase u).slot = some slot') : (s.phase u).slot = some slot' ∧ slot' ≠ slot := by
  rcases hfreed.phase u with ⟨hsame, hne⟩ | hidle
  · rw [hsame] at hu
    refine ⟨hu, ?_⟩
    rintro rfl
    exact hne hu
  · simp [hidle, Phase.slot] at hu

omit [DecidableEq Thread] in
theorem Inv.freed (hinv : s.Inv) (hstate : (s.processTable slot).state ≠ .free)
    (hfreed : s.Freed s' slot) : s'.Inv := by
  have hother : ∀ slot' ≠ slot, s'.processTable slot' = s.processTable slot' := by
    intro slot' hne
    rw [hfreed.table, Function.update_of_ne hne]
  have hreleases : ∀ slot' ≠ slot, s'.releases slot' = s.releases slot' := by
    intro slot' hne
    rw [hfreed.releases, Function.update_of_ne hne]
  have hself : s'.releases slot = s.releases slot + 1 := by
    rw [hfreed.releases, Function.update_self]
  constructor
  case numbered =>
    intro slot'
    rcases eq_or_ne slot' slot with rfl | hne
    · rw [hself, hfreed.table, Function.update_self]
      refine ⟨.inl ?_, fun hfree => absurd rfl hfree⟩
      rw [hinv.generation_of_taken hstate, nextGeneration_generationAt]
    · rw [hother slot' hne, hreleases slot' hne]
      exact hinv.numbered slot'
  case count =>
    have htaken : s'.taken = s.taken.erase slot := by
      ext slot'
      rw [Finset.mem_erase, mem_taken, mem_taken]
      rcases eq_or_ne slot' slot with rfl | hne
      · simp [hfreed.table, Process.zero]
      · simp [hother slot' hne, hne]
    have hmem : slot ∈ s.taken := mem_taken.mpr hstate
    have hpos := Finset.card_pos.mpr ⟨slot, hmem⟩
    have hle : (1 : UInt32) ≤ s.processCount := by
      rw [UInt32.le_iff_toNat_le, hinv.count, UInt32.toNat_one]
      exact hpos
    rw [hfreed.count, htaken, Finset.card_erase_of_mem hmem, UInt32.toNat_sub_of_le _ _ hle,
      hinv.count, UInt32.toNat_one]
  case phases =>
    intro u
    rcases hfreed.phase u with ⟨hsame, hne⟩ | hidle
    · rw [hsame]
      refine (hinv.phases u).later hfreed.later fun slot' hslot' => hother slot' ?_
      rintro rfl
      exact hne hslot'
    · rw [hidle]
      trivial
  case exclusive =>
    intro u v slot' hu hv
    exact hinv.exclusive u v slot' (hfreed.slot_of_slot hu).1 (hfreed.slot_of_slot hv).1
  case named => exact fun e he => hinv.named e (hfreed.returned ▸ he)
  case released =>
    intro e he
    have hle := hinv.released e (hfreed.returned ▸ he)
    rcases eq_or_ne e.slot slot with heq | hne
    · rw [heq] at hle ⊢
      omega
    · rw [hreleases _ hne]
      exact hle
  case current =>
    intro e he heq
    have hle := hinv.released e (hfreed.returned ▸ he)
    have hne : e.slot ≠ slot := by
      intro hslot
      rw [hslot] at heq hle
      omega
    rw [hreleases _ hne] at heq
    obtain ⟨hrunning, hnobody⟩ := hinv.current e (hfreed.returned ▸ he) heq
    rw [hother _ hne]
    exact ⟨hrunning, fun u hu => hnobody u (hfreed.slot_of_slot hu).1⟩
  case ordered => exact hfreed.returned ▸ hinv.ordered

/-- The id of the slot is returned. -/
theorem Inv.logged (hinv : s.Inv) (hphase : s.phase t = .returning slot) :
    (s.ret t slot).2.Inv := by
  have hrunning : (s.processTable slot).state = .running := by
    have hholds := hinv.phases t
    rwa [hphase] at hholds
  have hslot : (s.phase t).slot = some slot := by rw [hphase]; rfl
  have hphases : ∀ u slot', (((s.ret t slot).2.phase u)).slot = some slot' →
      (s.phase u).slot = some slot' ∧ u ≠ t := by
    intro u slot' hu
    simp only [ret, setPhase] at hu
    rcases eq_or_ne u t with rfl | hne
    · simp [Phase.slot] at hu
    · rw [Function.update_of_ne hne] at hu
      exact ⟨hu, hne⟩
  have hpid : (s.processTable slot).pid = idAt slot (s.releases slot) :=
    (hinv.numbered slot).pid (by simp [hrunning])
  have hentry : ∀ e ∈ (s.ret t slot).2.returned, e ∈ s.returned ∨
      e = { pid := idAt slot (s.releases slot), slot, releases := s.releases slot } := by
    intro e he
    simpa [ret, hpid] using he
  constructor
  case numbered => exact hinv.numbered
  case count => exact hinv.count
  case phases =>
    intro u
    simp only [ret, setPhase]
    rcases eq_or_ne u t with rfl | hne
    · rw [Function.update_self]
      trivial
    · rw [Function.update_of_ne hne]
      exact (hinv.phases u).later Later.rfl fun _ _ => rfl
  case exclusive =>
    intro u v slot' hu hv
    exact hinv.exclusive u v slot' (hphases u slot' hu).1 (hphases v slot' hv).1
  case named =>
    intro e he
    rcases hentry e he with he | rfl
    · exact hinv.named e he
    · rfl
  case released =>
    intro e he
    rcases hentry e he with he | rfl
    · exact hinv.released e he
    · exact le_rfl
  case current =>
    intro e he heq
    rcases hentry e he with he | rfl
    · obtain ⟨hstate, hnobody⟩ := hinv.current e he heq
      exact ⟨hstate, fun u hu => hnobody u (hphases u e.slot hu).1⟩
    · refine ⟨hrunning, fun u hu => ?_⟩
      obtain ⟨hu, hne⟩ := hphases u slot hu
      exact hne (hinv.exclusive u t slot hu hslot)
  case ordered =>
    simp only [ret]
    rw [List.pairwise_append]
    refine ⟨hinv.ordered, List.pairwise_singleton _ _, ?_⟩
    intro e he e' he' heq
    obtain rfl := List.mem_singleton.mp he'
    dsimp only at heq ⊢
    have hle := hinv.released e he
    have hne : e.releases ≠ s.releases e.slot := fun hsame =>
      (hinv.current e he hsame).2 t (heq ▸ hslot)
    rw [heq] at hle hne
    omega

end Table

end AvrKernel.Processes
