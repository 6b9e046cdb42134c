import AvrKernel.Processes.Slots

/-!
# Creating and destroying a process

What each part of `CreateProcess`, `DestroyProcess` and the reaper do to the table.
-/

namespace AvrKernel.Processes

variable {Thread : Type} [DecidableEq Thread]

namespace Table

variable {s s' : Table Thread} {t : Thread} {slot : Fin processMax}

/-! ## The steps of a creation -/

omit [DecidableEq Thread] in
theorem freeSlot_free (h : s.freeSlot = some slot) : (s.processTable slot).state = .free := by
  simpa using List.find?_some h

/-- The slot is reserved. -/
theorem Inv.reserved (hinv : s.Inv) (hidle : s.phase t = .idle) (priority : Int32) :
    (s.create t priority).2.Inv := by
  unfold create
  split
  · exact hinv
  next slot hslot =>
    have hfree := freeSlot_free hslot
    have hnumbered := hinv.numbered slot
    have hgeneration : (if (s.processTable slot).generation = 0 then 1
        else (s.processTable slot).generation) = generationAt (s.releases slot) := by
      rcases hnumbered.generation with heq | ⟨hzero, hreleases, -⟩
      · rw [if_neg (heq ▸ generationAt_ne_zero _), heq]
      · rw [if_pos hzero, hreleases]
        rfl
    have hnobody : ∀ u, (s.phase u).slot ≠ some slot := fun u hu =>
      (hinv.phases u).taken hu hfree
    constructor
    case numbered =>
      intro slot'
      dsimp only [setPhase, setProcess]
      rcases eq_or_ne slot' slot with rfl | hne
      · rw [Function.update_self]
        refine ⟨.inl hgeneration, fun _ => ?_⟩
        dsimp only
        rw [hgeneration]
        rfl
      · rw [Function.update_of_ne hne]
        exact hinv.numbered slot'
    case count =>
      dsimp only [setPhase, setProcess]
      have hnot : slot ∉ s.taken := fun hmem => mem_taken.mp hmem hfree
      have hle := s.taken_card_le
      rw [UInt32.toNat_add, hinv.count, UInt32.toNat_one, Nat.mod_eq_of_lt (by omega),
        ← Finset.card_insert_of_notMem hnot]
      congr 1
      ext slot'
      rw [Finset.mem_insert, mem_taken, mem_taken]
      dsimp only
      rcases eq_or_ne slot' slot with rfl | hne
      · simp
      · simp [hne]
    case phases =>
      intro u
      dsimp only [setPhase, setProcess]
      rcases eq_or_ne u t with rfl | hne
      · rw [Function.update_self]
        simp [Phase.Holds]
      · rw [Function.update_of_ne hne]
        refine (hinv.phases u).later Later.rfl fun slot' hslot' => ?_
        dsimp only
        rw [Function.update_of_ne]
        rintro rfl
        exact hnobody u hslot'
    case exclusive =>
      intro u v slot' hu hv
      dsimp only [setPhase, setProcess] at hu hv
      rcases eq_or_ne u t with rfl | hnu <;> rcases eq_or_ne v u with rfl | hnv
      · rfl
      · rw [Function.update_self, Phase.slot, Option.some.injEq] at hu
        rw [Function.update_of_ne hnv, ← hu] at hv
        exact absurd hv (hnobody v)
      · rfl
      · rw [Function.update_of_ne hnu] at hu
        rcases eq_or_ne v t with rfl | hvt
        · rw [Function.update_self, Phase.slot, Option.some.injEq] at hv
          exact absurd (hv ▸ hu) (hnobody u)
        · rw [Function.update_of_ne hvt] at hv
          exact hinv.exclusive u v slot' hu hv
    case named => exact hinv.named
    case released => exact hinv.released
    case current =>
      intro e he heq
      obtain ⟨hrunning, hothers⟩ := hinv.current e he heq
      have hne : e.slot ≠ slot := by
        intro hsame
        rw [hsame, hfree] at hrunning
        cases hrunning
      dsimp only [setPhase, setProcess]
      rw [Function.update_of_ne hne]
      refine ⟨hrunning, fun u hu => ?_⟩
      rcases eq_or_ne u t with rfl | hut
      · rw [Function.update_self, Phase.slot, Option.some.injEq] at hu
        exact hne hu.symm
      · rw [Function.update_of_ne hut] at hu
        exact hothers u hu
    case ordered => exact hinv.ordered

theorem fill_moved (hcreating : (s.processTable slot).state = .creating) (t : Thread)
    (priority : Int32) (memory : ImagePart → Bool) :
    ∃ p next, s.Moved (s.fill t slot priority memory) t slot p next := by
  unfold fill processImageProbe processImageLoad
  dsimp only
  generalize hp : Process.mk _ _ _ priority _ _ _ _ _ _ _ = p
  generalize ProcessImageLayout.mk 0 0 0 0 = layout
  have hsame := imageAlloc_same layout memory p s.heap
  obtain ⟨blocks, hsub, hgrown⟩ := imageAlloc_grown layout memory p s.heap
  generalize imageAlloc layout memory p s.heap = result at hsame hsub hgrown ⊢
  obtain ⟨ok, p', heap⟩ := result
  dsimp only at hsame hsub hgrown ⊢
  have hstate : p'.state = .creating := by
    rw [hsame.state, ← hp]
    exact hcreating
  have hmade : heap.live \ s.heap.live ⊆ p'.resources := hgrown.sdiff_subset.trans hsub
  have hmoved : ∀ next : Phase, next.slot = some slot →
      next.Holds ({ s.setProcess slot p' with heap }.setPhase t next) →
      s.Moved ({ s.setProcess slot p' with heap }.setPhase t next) t slot p' next := by
    intro next hnext hholds
    constructor
    case table => rfl
    case state => simp [hstate]
    case generation => rw [hsame.generation, ← hp]
    case pid => rw [hsame.pid, ← hp]
    case count => rfl
    case later => exact Later.of_grown hgrown (Finset.Subset.refl _)
    case phase => rfl
    case slot => exact hnext
    case holds => exact hholds
    case releases => rfl
    case returned => rfl
  cases ok with
  | false =>
      refine ⟨p', _, hmoved _ rfl ⟨?_, ?_, ?_⟩⟩
      · simp [setPhase, setProcess, hstate]
      · simpa [setPhase, setProcess] using hmade
      · simp
  | true =>
      refine ⟨p', _, hmoved _ rfl ⟨?_, ?_⟩⟩
      · simp [setPhase, setProcess, hstate]
      · simpa [setPhase, setProcess] using hmade

theorem Inv.filled {priority : Int32} (hinv : s.Inv) (hphase : s.phase t = .filling slot priority)
    (memory : ImagePart → Bool) : (s.fill t slot priority memory).Inv := by
  have hcreating : (s.processTable slot).state = .creating := by
    have hholds := hinv.phases t
    rwa [hphase] at hholds
  obtain ⟨p, next, hmoved⟩ := fill_moved hcreating t priority memory
  exact hinv.moved (by rw [hphase]; rfl) hcreating hmoved

theorem start_moved {made : Finset Nat} (hcreating : (s.processTable slot).state = .creating)
    (hmade : made ⊆ (s.processTable slot).resources) (t : Thread) (thread node : Bool) :
    ∃ p next, s.Moved (s.start t slot made thread node) t slot p next := by
  have hself : s.processTable = Function.update s.processTable slot (s.processTable slot) :=
    (Function.update_eq_self slot s.processTable).symm
  have hfirst := s.heap.malloc_grown thread
  unfold start
  split
  next heap halloc =>
    refine ⟨s.processTable slot, .failing slot processErrThread made ∅, ?_⟩
    constructor
    case table => exact hself
    case state => simp [hcreating]
    case later => exact Later.rfl
    case phase => rfl
    case slot => rfl
    case holds => exact ⟨hcreating, Finset.sdiff_subset.trans hmade, by simp⟩
    all_goals rfl
  next block heap halloc =>
    rw [halloc] at hfirst
    have hsecond := heap.malloc_grown node
    split
    next heap' halloc' =>
      rw [halloc'] at hsecond
      refine ⟨s.processTable slot, .failing slot processErrThread (insert block made) {block}, ?_⟩
      constructor
      case table => exact hself
      case state => simp [hcreating]
      case later => exact Later.of_grown (hfirst.trans hsecond) (Finset.subset_insert block s.dead)
      case phase => rfl
      case slot => rfl
      case holds =>
        refine ⟨hcreating, ?_, ?_⟩
        · intro b hb
          rw [Finset.mem_sdiff, Finset.mem_insert, Finset.mem_singleton] at hb
          exact hmade (hb.1.resolve_left hb.2)
        · intro b hb
          rw [Finset.mem_singleton] at hb
          have hlt := (hfirst.trans hsecond).below block (by simp)
          exact ⟨hb ▸ hlt, fun _ => by simp [hb]⟩
      all_goals rfl
    next listNode heap' halloc' =>
      rw [halloc'] at hsecond
      refine ⟨{ s.processTable slot with
        threads := (s.processTable slot).threads ++ [(listNode, block)], threadCount := 1
        state := .running }, .returning slot, ?_⟩
      constructor
      case table => rfl
      case state => simp
      case later => exact Later.of_grown (hfirst.trans hsecond) (Finset.Subset.refl _)
      case phase => rfl
      case slot => rfl
      case holds => simp [Phase.Holds, setPhase, setProcess]
      all_goals rfl

theorem Inv.started {made : Finset Nat} (hinv : s.Inv) (hphase : s.phase t = .starting slot made)
    (thread node : Bool) : (s.start t slot made thread node).Inv := by
  have hholds := hinv.phases t
  rw [hphase] at hholds
  obtain ⟨p, next, hmoved⟩ := start_moved hholds.1 hholds.2 t thread node
  exact hinv.moved (by rw [hphase]; rfl) hholds.1 hmoved

/-! ## Giving slots back -/

omit [DecidableEq Thread] in
theorem later_free (s : Table Thread) {s' : Table Thread} (hfresh : s'.heap.fresh = s.heap.fresh)
    (hlive : s'.heap.live ⊆ s.heap.live) (hdead : s.dead ⊆ s'.dead) : s.Later s' :=
  ⟨hfresh.ge, fun _ _ hb => ⟨hlive hb, fun hmem => hdead hmem⟩⟩

theorem fail_freed {error : Int32} {made left : Finset Nat} (hinv : s.Inv)
    (hphase : s.phase t = .failing slot error made left) : s.Freed (s.fail t slot) slot := by
  constructor
  case table => rfl
  case count => rfl
  case later =>
    apply later_free
    · exact processFreeResources_fresh _ _
    · exact (processFreeResources_live _ _).trans_subset Finset.sdiff_subset
    · exact Finset.Subset.refl _
  case phase =>
    intro u
    simp only [fail, setPhase, processReleaseSlot, setProcess]
    rcases eq_or_ne u t with rfl | hne
    · exact .inr (Function.update_self ..)
    · rw [Function.update_of_ne hne]
      refine .inl ⟨rfl, fun hu => hne (hinv.exclusive u t slot hu ?_)⟩
      rw [hphase]
      rfl
  case releases => rfl
  case returned => rfl

omit [DecidableEq Thread] in
theorem destroyProcess_freed {pid : ProcessId} (hlookup : s.processLookup pid = some slot)
    (hrunning : (s.processTable slot).state = .running)
    (hnobody : ∀ u, (s.phase u).slot ≠ some slot) :
    s.Freed (s.destroyProcess pid).2 slot := by
  unfold destroyProcess
  rw [hlookup]
  dsimp only
  rw [if_neg (by simp [hrunning])]
  constructor
  case table =>
    funext slot'
    simp only [processReleaseSlot, processKillThreads, setProcess]
    rcases eq_or_ne slot' slot with rfl | hne
    · simp
    · simp [Function.update_of_ne hne]
  case count => rfl
  case later =>
    apply later_free
    · exact processFreeResources_fresh _ _
    · apply (processFreeResources_live _ _).trans_subset
      exact Finset.sdiff_subset.trans Finset.sdiff_subset
    · exact Finset.subset_union_left
  case phase => exact fun u => .inl ⟨rfl, hnobody u⟩
  case releases => rfl
  case returned => rfl

omit [DecidableEq Thread] in
theorem Inv.reaped (hinv : s.Inv) (thread : Nat) :
    ({ s with dead := s.dead.erase thread,
              heap := s.heap.free (some thread) } : Table Thread).Inv := by
  have hlater : s.Later { s with dead := s.dead.erase thread,
                                 heap := s.heap.free (some thread) } := by
    refine ⟨le_rfl, fun b _ hb => ?_⟩
    simp only [Heap.free, Option.toFinset_some, Finset.mem_sdiff, Finset.mem_singleton] at hb
    exact ⟨hb.1, fun hdead => Finset.mem_erase.mpr ⟨hb.2, hdead⟩⟩
  exact { hinv with phases := fun u => (hinv.phases u).later hlater fun _ _ => rfl }

end Table

end AvrKernel.Processes
