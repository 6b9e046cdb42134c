import AvrKernel.Lib.Trace
import Mathlib.Data.Finset.Basic
import Mathlib.Data.Finset.Card
import Mathlib.Data.Finset.Lattice.Basic
import Mathlib.Data.Finset.SDiff
import Mathlib.Data.Fintype.Basic
import Mathlib.Data.Finset.Option
import Mathlib.Data.List.FinRange
import Mathlib.Data.UInt
import Mathlib.Logic.Function.Basic
import Mathlib.Tactic.Common

/-!
# The table of processes

`process.c`: `CreateProcess` reserves a slot with interrupts off, fills it in with
interrupts on, starts its thread with interrupts off and returns its id, or gives
the slot back. `DestroyProcess` is one step.
-/

namespace AvrKernel.Processes

def pageSize : UInt32 := 4096
def cr0Pg : UInt32 := 0x80000000

def pidSlotBits : UInt32 := 8
def pidSlotMask : UInt32 := 0xFF
def pidGenMask : UInt32 := 0x007FFFFF

def processMax : Nat := 64
def processPathMax : Nat := 256

abbrev ProcessId := Int32

def processOk : Int32 := 0
def processErrInvalidArg : Int32 := -1
def processErrNoSlots : Int32 := -2
def processErrNoMemory : Int32 := -3
def processErrNoPaging : Int32 := -4
def processErrLoadFailed : Int32 := -5
def processErrNotFound : Int32 := -6
def processErrThread : Int32 := -7

def priorityIdle : Int32 := 1
def priorityRealtime : Int32 := 5

inductive ProcessState
  | free
  | creating
  | running
  | dying
  deriving DecidableEq

/-- The blocks that `malloc` has returned and that are not freed. -/
structure Heap where
  fresh : Nat
  live : Finset Nat
  deriving DecidableEq

/-- One region of the image of a process. -/
structure ProcessSegment where
  raw : Option Nat
  size : UInt32
  owned : Bool
  deriving DecidableEq

/-- The sizes of the sections, as the loader reports them. -/
structure ProcessImageLayout where
  codeSize : UInt32
  dataSize : UInt32
  bssSize : UInt32
  entryOffset : UInt32

/-- The threads are listed with the nodes of the list. -/
structure Process where
  state : ProcessState
  generation : UInt32
  pid : ProcessId
  priority : Int32
  entryOffset : UInt32
  pageDirectoryRaw : Option Nat
  code : ProcessSegment
  data : ProcessSegment
  bss : ProcessSegment
  threads : List (Nat × Nat)
  threadCount : UInt32
  deriving DecidableEq

/-- What `malloc` is asked for while a slot is filled in. -/
inductive ImagePart
  | code
  | data
  | bss
  | directory
  deriving DecidableEq

/-- Where a thread is in `CreateProcess`; `made` are the blocks that it has allocated, and
`left` is the thread that it has left to the reaper. -/
inductive Phase
  | idle
  | filling (slot : Fin processMax) (priority : Int32)
  | starting (slot : Fin processMax) (made : Finset Nat)
  | failing (slot : Fin processMax) (error : Int32) (made left : Finset Nat)
  | returning (slot : Fin processMax)
  deriving DecidableEq

/-- An id that was returned, and how often its slot had been released before. -/
structure Returned where
  pid : ProcessId
  slot : Fin processMax
  releases : Nat
  deriving DecidableEq

structure Table (Thread : Type) where
  processTable : Fin processMax → Process
  processCount : UInt32
  heap : Heap
  /-- The threads that are dead, and not freed yet. -/
  dead : Finset Nat
  phase : Thread → Phase
  /-- How often a slot has been released. -/
  releases : Fin processMax → Nat
  returned : List Returned

inductive ProcessOp (Thread : Type)
  | create (t : Thread) (imagePath : Option (List UInt8)) (priority : Int32) (cr0 : UInt32)
  | fill (t : Thread) (memory : ImagePart → Bool)
  | start (t : Thread) (thread node : Bool)
  | fail (t : Thread)
  | ret (t : Thread)
  | destroy (pid : ProcessId)
  | reap (thread : Nat)

/-! ## Memory -/

namespace Heap

def malloc (h : Heap) (memory : Bool) : Option Nat × Heap :=
  if memory then (some h.fresh,
    { fresh := h.fresh + 1, live := insert h.fresh h.live }) else (none, h)

def free (h : Heap) (raw : Option Nat) : Heap :=
  { h with live := h.live \ raw.toFinset }

end Heap

namespace ProcessSegment

def zero : ProcessSegment := { raw := none, size := 0, owned := false }

end ProcessSegment

def segmentAlloc (size : UInt32) (memory : Bool) (h : Heap) : Bool × ProcessSegment × Heap :=
  if size = 0 then (true, .zero, h)
  else if size > 0xFFFFFFFF - 2 * pageSize then (false, .zero, h)
  else
    match h.malloc memory with
    | (none, h) => (false, .zero, h)
    | (some raw, h) => (true, { raw := some raw, size, owned := true }, h)

def segmentFree (segment : ProcessSegment) (h : Heap) : Heap :=
  if segment.owned then h.free segment.raw else h

namespace Process

/-- A slot that has never been used. -/
def zero : Process :=
  { state := .free, generation := 0, pid := 0, priority := 0, entryOffset := 0
    pageDirectoryRaw := none, code := .zero, data := .zero, bss := .zero, threads := []
    threadCount := 0 }

end Process

def addressSpaceCreate (p : Process) (memory : Bool) (h : Heap) : Bool × Process × Heap :=
  match segmentAlloc pageSize memory h with
  | (false, _, h) => (false, p, h)
  | (true, pd, h) => (true, { p with pageDirectoryRaw := pd.raw }, h)

/-- The executable loader does not exist yet: the image is empty. -/
def processImageProbe : Option ProcessImageLayout :=
  some { codeSize := 0, dataSize := 0, bssSize := 0, entryOffset := 0 }

def processImageLoad : Bool := true

/-- The segments and the address space, up to the first one that there is no memory for. -/
def imageAlloc (layout : ProcessImageLayout) (memory : ImagePart → Bool) (p : Process) (h : Heap) :
    Bool × Process × Heap :=
  match segmentAlloc layout.codeSize (memory .code) h with
  | (false, code, h) => (false, { p with code }, h)
  | (true, code, h) =>
    match segmentAlloc layout.dataSize (memory .data) h with
    | (false, data, h) => (false, { p with code, data }, h)
    | (true, data, h) =>
      match segmentAlloc layout.bssSize (memory .bss) h with
      | (false, bss, h) => (false, { p with code, data, bss }, h)
      | (true, bss, h) => addressSpaceCreate { p with code, data, bss } (memory .directory) h

def processFreeResources (p : Process) (h : Heap) : Heap :=
  (segmentFree p.bss (segmentFree p.data (segmentFree p.code h))).free p.pageDirectoryRaw

/-! ## Ids -/

def pidEncode (generation slot : UInt32) : ProcessId :=
  (((generation &&& pidGenMask) <<< pidSlotBits) ||| (slot &&& pidSlotMask)).toInt32

def nextGeneration (generation : UInt32) : UInt32 :=
  if (generation + 1) &&& pidGenMask = 0 then 1 else (generation + 1) &&& pidGenMask

/-- An error, if the arguments of `CreateProcess` are not valid. -/
def argumentError (imagePath : Option (List UInt8)) (priority : Int32)
    (cr0 : UInt32) : Option Int32 :=
  match imagePath with
  | none => some processErrInvalidArg
  | some bytes =>
      let path := bytes.takeWhile (· ≠ 0)
      if path = [] then some processErrInvalidArg
      else if path.length ≥ processPathMax then some processErrInvalidArg
      else if priority < priorityIdle ∨ priority > priorityRealtime then some processErrInvalidArg
      else if cr0 &&& cr0Pg = 0 then some processErrNoPaging
      else none

namespace Table

variable {Thread : Type} [DecidableEq Thread] (s : Table Thread)

def init : Table Thread :=
  { processTable := fun _ => .zero, processCount := 0, heap := { fresh := 0, live := ∅ }, dead := ∅
    phase := fun _ => .idle, releases := fun _ => 0, returned := [] }

def setProcess (slot : Fin processMax) (p : Process) : Table Thread :=
  { s with processTable := Function.update s.processTable slot p }

def setPhase (t : Thread) (phase : Phase) : Table Thread :=
  { s with phase := Function.update s.phase t phase }

def processLookup (pid : ProcessId) : Option (Fin processMax) :=
  if pid ≤ 0 then none
  else if h : (pid.toUInt32 &&& pidSlotMask).toNat < processMax then
    let p := s.processTable ⟨(pid.toUInt32 &&& pidSlotMask).toNat, h⟩
    if p.state = .free ∨ p.pid ≠ pid then none
    else some ⟨(pid.toUInt32 &&& pidSlotMask).toNat, h⟩
  else none

/-- The first slot that is free. -/
def freeSlot : Option (Fin processMax) :=
  (List.finRange processMax).find? fun slot => (s.processTable slot).state = .free

def processReleaseSlot (slot : Fin processMax) : Table Thread :=
  { s.setProcess slot { Process.zero with
      generation := nextGeneration (s.processTable slot).generation } with
    processCount := s.processCount - 1
    releases := Function.update s.releases slot (s.releases slot + 1) }

/-- The nodes of the threads are freed, and the threads are left to the reaper. -/
def processKillThreads (slot : Fin processMax) : Table Thread :=
  let p := s.processTable slot
  { s.setProcess slot { p with threads := [], threadCount := 0 } with
    heap := { s.heap with live := s.heap.live \ (p.threads.map Prod.fst).toFinset }
    dead := s.dead ∪ (p.threads.map Prod.snd).toFinset }

/-- `CreateProcess` up to where its slot is reserved. -/
def create (t : Thread) (priority : Int32) : Option Int32 × Table Thread :=
  match s.freeSlot with
  | none => (some processErrNoSlots, s)
  | some slot =>
      let p := s.processTable slot
      let generation := if p.generation = 0 then 1 else p.generation
      (none, { (s.setProcess slot { p with
          generation, state := .creating
          pid := pidEncode generation (UInt32.ofNat slot.val) }).setPhase t
            (.filling slot priority) with
        processCount := s.processCount + 1 })

/-- Up to where the thread is made. -/
def fill (t : Thread) (slot : Fin processMax) (priority : Int32) (memory : ImagePart → Bool) :
    Table Thread :=
  let p := { s.processTable slot with priority }
  match processImageProbe with
  | none => (s.setProcess slot p).setPhase t (.failing slot processErrLoadFailed ∅ ∅)
  | some layout =>
      let (ok, p, heap) := imageAlloc layout memory
        { p with entryOffset := layout.entryOffset } s.heap
      let made := heap.live \ s.heap.live
      let s := { s.setProcess slot p with heap }
      if ok = false then s.setPhase t (.failing slot processErrNoMemory made ∅)
      else if processImageLoad = false then s.setPhase t (.failing slot processErrLoadFailed made ∅)
      else s.setPhase t (.starting slot made)

/-- The main thread is made and put on the list of the process, or the creation fails. -/
def start (t : Thread) (slot : Fin processMax) (made : Finset Nat) (thread node : Bool) :
    Table Thread :=
  match s.heap.malloc thread with
  | (none, _) => s.setPhase t (.failing slot processErrThread made ∅)
  | (some block, heap) =>
      match heap.malloc node with
      | (none, heap) =>
          { s.setPhase t (.failing slot processErrThread (insert block made) {block}) with
            heap, dead := insert block s.dead }
      | (some listNode, heap) =>
          { (s.setProcess slot { s.processTable slot with
              threads := (s.processTable slot).threads ++ [(listNode, block)], threadCount := 1
              state := .running }).setPhase t (.returning slot) with heap }

/-- What a creation that fails leaves behind. -/
def fail (t : Thread) (slot : Fin processMax) : Table Thread :=
  ({ s with heap := processFreeResources (s.processTable slot) s.heap }.processReleaseSlot
    slot).setPhase
    t .idle

/-- The id is read from the slot when interrupts are on again. -/
def ret (t : Thread) (slot : Fin processMax) : Int32 × Table Thread :=
  ((s.processTable slot).pid, { s.setPhase t .idle with
    returned := s.returned ++
      [{ pid := (s.processTable slot).pid, slot, releases := s.releases slot }] })

def destroyProcess (pid : ProcessId) : Int32 × Table Thread :=
  match s.processLookup pid with
  | none => (processErrNotFound, s)
  | some slot =>
      if (s.processTable slot).state ≠ .running then (processErrNotFound, s)
      else
        let s := s.setProcess slot { s.processTable slot with state := .dying }
        let s := s.processKillThreads slot
        (processOk, { s with
          heap := processFreeResources (s.processTable slot) s.heap }.processReleaseSlot slot)

/-- A step that returns nothing is inside of a call. -/
def step : ProcessOp Thread → Option (Option Int32 × Table Thread)
  | .create t imagePath priority cr0 =>
      if s.phase t = .idle then
        match argumentError imagePath priority cr0 with
        | some error => some (some error, s)
        | none => some (s.create t priority)
      else none
  | .fill t memory =>
      match s.phase t with
      | .filling slot priority => some (none, s.fill t slot priority memory)
      | _ => none
  | .start t thread node =>
      match s.phase t with
      | .starting slot made => some (none, s.start t slot made thread node)
      | _ => none
  | .fail t =>
      match s.phase t with
      | .failing slot error _ _ => some (some error, s.fail t slot)
      | _ => none
  | .ret t =>
      match s.phase t with
      | .returning slot => some (some (s.ret t slot).1, (s.ret t slot).2)
      | _ => none
  | .destroy pid => some (some (s.destroyProcess pid).1, (s.destroyProcess pid).2)
  | .reap thread =>
      if thread ∈ s.dead then
        some (none, { s with
          dead := s.dead.erase thread, heap := s.heap.free (some thread) })
      else none

end Table

end AvrKernel.Processes
