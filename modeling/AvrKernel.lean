import AvrKernel.BaseFS.Allocator
import AvrKernel.BaseFS.Bitmap
import AvrKernel.BaseFS.ByteFile
import AvrKernel.BaseFS.Calls
import AvrKernel.BaseFS.Device
import AvrKernel.BaseFS.Directory
import AvrKernel.BaseFS.Enumeration
import AvrKernel.BaseFS.File
import AvrKernel.BaseFS.FileContent
import AvrKernel.BaseFS.FlushHonesty
import AvrKernel.BaseFS.Format
import AvrKernel.BaseFS.Growth
import AvrKernel.BaseFS.Heap
import AvrKernel.BaseFS.Isolation
import AvrKernel.BaseFS.Mount
import AvrKernel.BaseFS.ReadOnly
import AvrKernel.BaseFS.ReferenceList
import AvrKernel.BaseFS.ReferenceOps
import AvrKernel.BaseFS.ReferenceRemoval
import AvrKernel.BaseFS.ReferenceSet
import AvrKernel.BaseFS.Rules
import AvrKernel.BaseFS.SectorCache
import AvrKernel.BaseFS.Store
import AvrKernel.BaseFS.Structs
import AvrKernel.BaseFS.Window
import AvrKernel.Display.Line
import AvrKernel.Display.Painting
import AvrKernel.Display.Primitives
import AvrKernel.Drivers.Ata
import AvrKernel.Drivers.Scatter
import AvrKernel.Dwm.Clicks
import AvrKernel.Dwm.Clipboard
import AvrKernel.Dwm.Desktop
import AvrKernel.Dwm.DirtyRegions
import AvrKernel.Dwm.EditField
import AvrKernel.Dwm.Family
import AvrKernel.Dwm.Forest
import AvrKernel.Dwm.Handles
import AvrKernel.Dwm.IconLayout
import AvrKernel.Dwm.Interactions
import AvrKernel.Dwm.Kin
import AvrKernel.Dwm.MouseQueue
import AvrKernel.Dwm.Painting
import AvrKernel.Dwm.Pointers
import AvrKernel.Dwm.Steps
import AvrKernel.Dwm.Update
import AvrKernel.Dwm.Upload
import AvrKernel.Dwm.WindowBuffer
import AvrKernel.Emulation.Calls
import AvrKernel.Emulation.Slices
import AvrKernel.Emulation.Yield
import AvrKernel.Kernel.Allocations
import AvrKernel.Kernel.Blocks
import AvrKernel.Kernel.EventRun
import AvrKernel.Kernel.EventUpdate
import AvrKernel.Kernel.Events
import AvrKernel.Kernel.Handles
import AvrKernel.Kernel.Heap
import AvrKernel.Kernel.HeapOrder
import AvrKernel.Kernel.HeapRun
import AvrKernel.Kernel.Knode
import AvrKernel.Kernel.Listing
import AvrKernel.Kernel.ReadOnly
import AvrKernel.Lib.Acyclic
import AvrKernel.Lib.BitArray
import AvrKernel.Lib.BlockList
import AvrKernel.Lib.Blocks
import AvrKernel.Lib.Boxes
import AvrKernel.Lib.Bytes
import AvrKernel.Lib.CircularQueue
import AvrKernel.Lib.Counters
import AvrKernel.Lib.DoublyLinked
import AvrKernel.Lib.FifoLock
import AvrKernel.Lib.Finds
import AvrKernel.Lib.FirstFit
import AvrKernel.Lib.Intervals
import AvrKernel.Lib.Linked
import AvrKernel.Lib.Loops
import AvrKernel.Lib.Masks
import AvrKernel.Lib.Outcome
import AvrKernel.Lib.Ownership
import AvrKernel.Lib.Pool
import AvrKernel.Lib.Program
import AvrKernel.Lib.Rounds
import AvrKernel.Lib.Runs
import AvrKernel.Lib.Signals
import AvrKernel.Lib.Signed
import AvrKernel.Lib.Sinks
import AvrKernel.Lib.Trace
import AvrKernel.Memory.Bookkeeping
import AvrKernel.Memory.Boot
import AvrKernel.Memory.Frames
import AvrKernel.Memory.Heap
import AvrKernel.Memory.HeapSteps
import AvrKernel.Memory.KernelMemory
import AvrKernel.Memory.Malloc
import AvrKernel.Memory.MallocBlocks
import AvrKernel.Memory.MallocRun
import AvrKernel.Memory.MallocSteps
import AvrKernel.Memory.PageEntries
import AvrKernel.Memory.PageRun
import AvrKernel.Memory.PageSteps
import AvrKernel.Memory.PageTables
import AvrKernel.Memory.PhysicalFrames
import AvrKernel.Memory.Slab
import AvrKernel.Memory.Filling
import AvrKernel.Memory.SlabRun
import AvrKernel.Memory.SlabSteps
import AvrKernel.Memory.Translation
import AvrKernel.Memory.Virtual
import AvrKernel.Notepad.Document
import AvrKernel.Notepad.Layout
import AvrKernel.Notepad.Redraw
import AvrKernel.Processes.Run
import AvrKernel.Registry.Hive
import AvrKernel.Registry.Import
import AvrKernel.Registry.Initiate
import AvrKernel.Registry.Owned
import AvrKernel.Registry.RoundTrip
import AvrKernel.Registry.Saved
import AvrKernel.Registry.Store
import AvrKernel.Scheduler.Account
import AvrKernel.Scheduler.Choice
import AvrKernel.Scheduler.DeadRun
import AvrKernel.Scheduler.Dynamic
import AvrKernel.Scheduler.DynamicRun
import AvrKernel.Scheduler.Entry
import AvrKernel.Scheduler.EventRun
import AvrKernel.Scheduler.EventSteps
import AvrKernel.Scheduler.Handler
import AvrKernel.Scheduler.Invariant
import AvrKernel.Scheduler.Life
import AvrKernel.Scheduler.Machine
import AvrKernel.Scheduler.MutexRun
import AvrKernel.Scheduler.MutexSteps
import AvrKernel.Scheduler.Outside
import AvrKernel.Scheduler.Passes
import AvrKernel.Scheduler.RingSteps
import AvrKernel.Scheduler.Rotation
import AvrKernel.Scheduler.Run
import AvrKernel.Scheduler.Starvation
import AvrKernel.Scheduler.Step
import AvrKernel.Scheduler.Thread
import AvrKernel.Scheduler.Turns
import AvrKernel.Scheduler.Waiting
import AvrKernel.Util.Decimal
import AvrKernel.Util.Div6432
import AvrKernel.Util.IntegerMath
import AvrKernel.Util.KernelList
import AvrKernel.Util.Snprint
import AvrKernel.Util.Strings
import AvrKernel.Util.Tok
import AvrKernel.Util.Tokenizers
import AvrKernel.Vfs.AddressSpaces
import AvrKernel.Vfs.Context
import AvrKernel.Vfs.Descriptor
import AvrKernel.Vfs.FileIds
import AvrKernel.Vfs.Isolation
import AvrKernel.Vfs.Lock
import AvrKernel.Vfs.Mount
import AvrKernel.Vfs.NodeTransfer
import AvrKernel.Vfs.NodeTree
import AvrKernel.Vfs.OpenFile
import AvrKernel.Vfs.Parse
import AvrKernel.Vfs.Position
import AvrKernel.Vfs.Protection
import AvrKernel.Vfs.Resolvers
import AvrKernel.Vfs.Run
import AvrKernel.Vfs.State
import AvrKernel.Vfs.SyncAll
import AvrKernel.Vfs.Tree
import AvrKernel.Vfs.Truncation
import AvrKernel.Vfs.Walk
