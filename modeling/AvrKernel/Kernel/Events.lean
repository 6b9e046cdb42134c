import AvrKernel.Lib.Trace
import Mathlib.Data.List.Nodup
import Mathlib.Data.List.Pairwise
import Mathlib.Data.List.TakeWhile
import Mathlib.Data.UInt
import Mathlib.Logic.Function.Basic
import Mathlib.Tactic.Common

/-!
# The event queue of the kernel

`events.c`: threads queue events, and `kernel_event_update` acts on the first one
that asks for something. It gives up the mutex in between, so a run of it is three
steps: marking, acting, and freeing what is marked.
-/

namespace AvrKernel.Kernel.Events

def keventNameLengthMax : Nat := 16
def keventArgLengthMax : Nat := 256

def keventDead : UInt16 := 0x0001
def keventExecute : UInt16 := 0x0002
def keventDwmRefresh : UInt16 := 0x0004

/-- The name and the arguments are the characters in front of the terminator. -/
structure KEvent where
  name : List UInt8
  args : List UInt8
  flags : UInt16
  deriving DecidableEq

inductive EventAction
  | none
  | explorer
  | notepad
  | dwmRefresh
  deriving DecidableEq

namespace KEvent

def has (event : KEvent) (flag : UInt16) : Bool := event.flags &&& flag != 0

def clear (event : KEvent) (flag : UInt16) : KEvent :=
    { event with flags := event.flags &&& ~~~flag }

def mark (event : KEvent) : KEvent := { event with flags := event.flags ||| keventDead }

/-- `"explorer"` and `"notepad"`. -/
def explorerName : List UInt8 := [0x65, 0x78, 0x70, 0x6C, 0x6F, 0x72, 0x65, 0x72]
def notepadName : List UInt8 := [0x6E, 0x6F, 0x74, 0x65, 0x70, 0x61, 0x64]

def program (event : KEvent) : EventAction :=
  if event.name = explorerName then .explorer
  else if event.name = notepadName then .notepad
  else .none

/-- What the event asks for. -/
def due (event : KEvent) : EventAction :=
  if event.has keventExecute then event.program
  else if event.has keventDwmRefresh then .dwmRefresh
  else .none

/-- The event carries `KEVENT_EXECUTE` for a program, or `KEVENT_DWM_REFRESH`. -/
def Due (event : KEvent) : Prop :=
  (event.has keventExecute = true ∧ event.program ≠ .none) ∨ event.has keventDwmRefresh = true

instance (event : KEvent) : Decidable event.Due := inferInstanceAs (Decidable (_ ∨ _))

/-- The event stops a scan of the queue. -/
def Flagged (event : KEvent) : Prop :=
  event.has keventExecute = true ∨ event.has keventDwmRefresh = true

instance (event : KEvent) : Decidable event.Flagged := inferInstanceAs (Decidable (_ ∨ _))

end KEvent

/-- A queued event. Its address is told by the number of events sent before it. -/
structure Node where
  id : Nat
  event : KEvent
  deriving DecidableEq

/-- The local variables of `kernel_event_update`, and the event they are taken from. -/
structure Take where
  id : Nat
  action : EventAction
  args : List UInt8
  deriving DecidableEq

/-- Where a thread is in `kernel_event_update`. -/
inductive Phase
  | idle
  | acting (take : Option Take)
  | acted
  deriving DecidableEq

/-- The queue, the threads that update it, and a record of what has happened. -/
structure QueueState (Thread : Type) where
  queue : List Node
  phase : Thread → Phase
  /-- The events as they were sent. -/
  sent : List KEvent
  taken : List (Thread × Take)
  /-- The handlers that were called. -/
  called : List (Thread × Take)
  removed : List Nat
  freed : List Nat

inductive QueueOp (Thread : Type)
  /-- Whether there is memory for the event is up to the heap. -/
  | send (flags : UInt8) (name arguments : List UInt8) (memory : Bool)
  | remove (name : List UInt8)
  | mark (t : Thread)
  | act (t : Thread)
  | free (t : Thread)

/-! ## The functions -/

def newEvent (flags : UInt8) (name arguments : List UInt8) : KEvent :=
  { name := (name.takeWhile (· ≠ 0)).take (keventNameLengthMax - 1)
    args := (arguments.takeWhile (· ≠ 0)).take (keventArgLengthMax - 1), flags := flags.toUInt16 }

/-- `list_remove`: the first node of an event. -/
def listRemove (id : Nat) : List Node → List Node
  | [] => []
  | node :: rest => if node.id = id then rest else node :: listRemove id rest

/-- The first scan of `kernel_event_update`: what it takes, and the queue it leaves. -/
def markQueue : List Node → Option Take × List Node
  | [] => (none, [])
  | node :: rest =>
      if node.event.has keventExecute then
        (some { id := node.id, action := node.event.program, args := node.event.args },
          { node with event := (node.event.clear keventExecute).mark } :: rest)
      else if node.event.has keventDwmRefresh then
        (some { id := node.id, action := .dwmRefresh, args := [] },
          { node with event := (node.event.clear keventDwmRefresh).mark } :: rest)
      else
        ((markQueue rest).1, { node with event := node.event.mark } :: (markQueue rest).2)

/-- The second scan: it goes through the nodes in order and removes those that are marked. -/
def freeQueue : List Node → List Node → List Node
  | [], queue => queue
  | dead :: rest, queue =>
      freeQueue rest (if dead.event.has keventDead then listRemove dead.id queue else queue)

namespace QueueState

variable {Thread : Type} [DecidableEq Thread]

def init : QueueState Thread :=
  { queue := [], phase := fun _ => .idle, sent := [], taken := [], called := [], removed := []
    freed := [] }

def step (s : QueueState Thread) : QueueOp Thread → Option (Bool × QueueState Thread)
  | .send flags name arguments memory =>
      let event := newEvent flags name arguments
      if memory then
        some (true, { s with
          queue := s.queue ++ [{ id := s.sent.length, event }], sent := s.sent ++ [event] })
      else some (false, s)
  | .remove name =>
      match s.queue.find? fun node => node.event.name = name.takeWhile (· ≠ 0) with
      | some node =>
          some (true, { s with
            queue := listRemove node.id s.queue, removed := s.removed ++ [node.id]
            freed := s.freed ++ [node.id] })
      | none => some (false, s)
  | .mark t =>
      if s.phase t = .idle then
        some (true, { s with
          queue := (markQueue s.queue).2
          phase := Function.update s.phase t (.acting (markQueue s.queue).1)
          taken := s.taken ++ ((markQueue s.queue).1.map fun take => (t, take)).toList })
      else none
  | .act t =>
      match s.phase t with
      | .acting take => some (true, { s with
          phase := Function.update s.phase t .acted
          called := s.called ++
            ((take.filter fun take => take.action ≠ .none).map fun take => (t, take)).toList })
      | _ => none
  | .free t =>
      if s.phase t = .acted then
        some (true, { s with
          queue := freeQueue s.queue s.queue, phase := Function.update s.phase t .idle
          freed := s.freed ++ (s.queue.filter fun node => node.event.has keventDead).map Node.id })
      else none

end QueueState

end AvrKernel.Kernel.Events
