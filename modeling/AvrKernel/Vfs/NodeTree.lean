import Mathlib.Data.Set.Basic
import AvrKernel.Vfs.Parse

/-!
# Trees of nodes

What a path means: a tree of kernel nodes with a volume mounted at some of them,
and the walk along the segments of the path.
-/

namespace AvrKernel.Vfs

open Util

/-- A node that lists others by their names; the root has no parent. -/
structure Folder where
  parent : Option UInt32
  entries : List (List UInt8 × UInt32)
  deriving DecidableEq

/-- The first entry with a name. -/
def Folder.child (folder : Folder) (name : List UInt8) : Option UInt32 :=
  (folder.entries.find? fun entry => entry.1 = name).map Prod.snd

/-- The search among the addresses of the entries, if these have the names. -/
theorem Folder.find_child (folder : Folder) {nameOf : UInt32 → List UInt8}
    (hnames : ∀ entry ∈ folder.entries, nameOf entry.2 = entry.1) (name : List UInt8) :
    ((folder.entries.map Prod.snd).find? fun reference => nameOf reference = name) =
      folder.child name := by
  obtain ⟨parent, entries⟩ := folder
  rw [child]
  induction entries with
  | nil => rfl
  | cons entry rest ih =>
      have hhead := hnames entry List.mem_cons_self
      have hrest := ih fun e he => hnames e (List.mem_cons_of_mem _ he)
      rw [List.map_cons, List.find?_cons, List.find?_cons, hhead]
      split
      · rfl
      · exact hrest

/-- Nodes by their addresses. What the folders among them list are nodes, and so are their
parents. -/
structure Nodes where
  root : UInt32
  all : Set UInt32
  folder : UInt32 → Option Folder
  root_mem : root ∈ all
  entry_mem : ∀ {node f}, node ∈ all → folder node = some f → ∀ entry ∈ f.entries, entry.2 ∈ all
  parent_mem : ∀ {node f parent}, node ∈ all → folder node = some f → f.parent = some parent →
    parent ∈ all

theorem Nodes.child_mem (nodes : Nodes) {node child : UInt32} {f : Folder} {name : List UInt8}
    (hnode : node ∈ nodes.all) (hfolder : nodes.folder node = some f)
    (hchild : f.child name = some child) : child ∈ nodes.all := by
  obtain ⟨entry, hfind, rfl⟩ := Option.map_eq_some_iff.mp hchild
  exact nodes.entry_mem hnode hfolder entry (List.mem_of_find?_eq_some hfind)

/-- The listed nodes, if they list no others and have no other parents. -/
def Nodes.ofList (nodes : List (UInt32 × Option Folder)) (root : UInt32)
    (hroot : root ∈ nodes.map Prod.fst)
    (hentries : ∀ node ∈ nodes, ∀ f ∈ (nodes.lookup node.1).join, ∀ entry ∈ f.entries,
      entry.2 ∈ nodes.map Prod.fst)
    (hparents : ∀ node ∈ nodes, ∀ f ∈ (nodes.lookup node.1).join,
      f.parent.all (fun parent => decide (parent ∈ nodes.map Prod.fst)) = true) : Nodes where
  root
  all := {node | node ∈ nodes.map Prod.fst}
  folder := fun node => (nodes.lookup node).join
  root_mem := hroot
  entry_mem := by
    intro node f hnode hfolder
    obtain ⟨shown, hshown, rfl⟩ := List.mem_map.mp hnode
    exact hentries shown hshown f hfolder
  parent_mem := by
    intro node f parent hnode hfolder hparent
    obtain ⟨shown, hshown, rfl⟩ := List.mem_map.mp hnode
    exact of_decide_eq_true
      ((Option.all_eq_true ..).mp (hparents shown hshown f hfolder) parent hparent)

/-- What is mounted at a kernel node: nothing, something that is no file system, or the volume
on the device with a context. -/
inductive MountPoint
  | nothing
  | foreign
  | volume (ctx : UInt32)
  deriving DecidableEq

structure NodeTree where
  kernel : Nodes
  mounted : UInt32 → MountPoint
  volume : UInt32 → Nodes

/-- Where a walk stands: at a kernel node, or at a node of the volume that is mounted at one. -/
inductive Place
  | knode (node : UInt32)
  | inside (mount ctx node : UInt32)
  deriving DecidableEq

namespace Place

def node : Place → UInt32
  | knode node => node
  | inside _ _ node => node

/-- The device on which a place is, 0 for a kernel node. -/
def ctx : Place → UInt32
  | knode _ => 0
  | inside _ ctx _ => ctx

/-- A place as a walk of the code keeps it. -/
def walk : Place → PathWalk
  | knode node => .start node
  | inside mount ctx node => ⟨mount, node, true, ctx⟩

@[simp] theorem node_walk (place : Place) : place.walk.node = place.node := by
  cases place <;> rfl

end Place

namespace NodeTree

variable (T : NodeTree)

/-- The place that a walk reaches at a kernel node. -/
def enter (node : UInt32) : Option Place :=
  match T.mounted node with
  | .nothing => some (.knode node)
  | .foreign => none
  | .volume ctx => some (.inside node ctx (T.volume ctx).root)

/-- Where a segment other than `.` leads to. -/
def step (place : Place) (segment : List UInt8) : Option Place :=
  match place with
  | .knode node =>
      if segment = dotDot then
        (T.kernel.folder node).bind fun f => T.enter (f.parent.getD node)
      else (T.kernel.folder node).bind fun f => (f.child segment).bind T.enter
  | .inside mount ctx node =>
      if segment = dotDot then
        if node = (T.volume ctx).root then
          (T.kernel.folder mount).map fun f => .knode (f.parent.getD mount)
        else ((T.volume ctx).folder node).bind fun f => f.parent.map (.inside mount ctx)
      else ((T.volume ctx).folder node).bind fun f => (f.child segment).map (.inside mount ctx)

def walk : List (List UInt8) → Place → Option Place
  | [], place => some place
  | segment :: rest, place =>
      if segment = dot then walk rest place else (T.step place segment).bind (walk rest)

/-- Where a path leads to. -/
def resolve (path : List UInt8) : Option Place :=
  T.walk (segments [slash] path) (.knode T.kernel.root)

/-- The address of a place, 0xFFFFFFFF for none. -/
def address (place : Option Place) : UInt32 := (place.map Place.node).getD 0xFFFFFFFF

/-- The places of the tree. -/
def Contains : Place → Prop
  | .knode node => node ∈ T.kernel.all
  | .inside mount ctx node =>
      mount ∈ T.kernel.all ∧ T.mounted mount = .volume ctx ∧ node ∈ (T.volume ctx).all

variable {T} {place place' : Place} {segment : List UInt8} {node : UInt32}

theorem parent_mem {f : Folder} (hnode : node ∈ T.kernel.all)
    (hfolder : T.kernel.folder node = some f) : f.parent.getD node ∈ T.kernel.all := by
  cases hparent : f.parent with
  | none => exact hnode
  | some parent => exact T.kernel.parent_mem hnode hfolder hparent

theorem contains_enter (hnode : node ∈ T.kernel.all) (h : T.enter node = some place) :
    T.Contains place := by
  rw [enter] at h
  cases hmounted : T.mounted node with
  | nothing =>
      rw [hmounted] at h
      cases h
      exact hnode
  | foreign =>
      rw [hmounted] at h
      cases h
  | volume ctx =>
      rw [hmounted] at h
      cases h
      exact ⟨hnode, hmounted, (T.volume ctx).root_mem⟩

/-- No segment leads out of the tree. -/
theorem contains_step (hplace : T.Contains place) (h : T.step place segment = some place') :
    T.Contains place' := by
  cases place with
  | knode node =>
      rw [step] at h
      split at h
      · obtain ⟨f, hfolder, hup⟩ := Option.bind_eq_some_iff.mp h
        exact contains_enter (parent_mem hplace hfolder) hup
      · obtain ⟨f, hfolder, hdown⟩ := Option.bind_eq_some_iff.mp h
        obtain ⟨child, hchild, henter⟩ := Option.bind_eq_some_iff.mp hdown
        exact contains_enter (T.kernel.child_mem hplace hfolder hchild) henter
  | inside mount ctx node =>
      obtain ⟨hmount, hmounted, hnode⟩ := hplace
      rw [step] at h
      split at h
      · split at h
        · obtain ⟨f, hfolder, rfl⟩ := Option.map_eq_some_iff.mp h
          exact parent_mem hmount hfolder
        · obtain ⟨f, hfolder, hup⟩ := Option.bind_eq_some_iff.mp h
          obtain ⟨parent, hparent, rfl⟩ := Option.map_eq_some_iff.mp hup
          exact ⟨hmount, hmounted, (T.volume ctx).parent_mem hnode hfolder hparent⟩
      · obtain ⟨f, hfolder, hdown⟩ := Option.bind_eq_some_iff.mp h
        obtain ⟨child, hchild, rfl⟩ := Option.map_eq_some_iff.mp hdown
        exact ⟨hmount, hmounted, (T.volume ctx).child_mem hnode hfolder hchild⟩

theorem contains_root (T : NodeTree) : T.Contains (.knode T.kernel.root) := T.kernel.root_mem

/-- Dots do not matter for a walk. -/
theorem walk_eq (segments : List (List UInt8)) (place : Place) :
    T.walk segments place = T.walk (segments.filter (· ≠ dot)) place := by
  induction segments generalizing place with
  | nil => rfl
  | cons segment rest ih =>
      rw [walk]
      by_cases hdot : segment = dot
      · rw [if_pos hdot, ih, List.filter_cons_of_neg (by simpa using hdot)]
      · rw [if_neg hdot, List.filter_cons_of_pos (by simpa using hdot), walk, if_neg hdot]
        exact congrArg _ (funext ih)

end NodeTree

end AvrKernel.Vfs
