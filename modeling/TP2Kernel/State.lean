import Mathlib.Tactic
import TP2Kernel.Lib.CircularBuffer

/-!
# Kernel state

The data of `sched.h`, `fd.h`, `pipe.h`, `semaphore.h` and `tty.c`, with the static
variables of the files that use them. A `pcb_t *` is an index of the static table
`procs[]`; the link fields of a PCB (`queue_next`, `cleanup_next`, `child_head`,
`sibling_next`) are kept as one array each, so that a linked list is a `next` function
and a head pointer. Fields that the kernel writes but never reads (`waiter_head`,
`exited`, the `next`/`prev` list of active processes) are left out.
-/

namespace TP2Kernel

/-! ### Constants -/

abbrev maxProcs : Nat := 128
abbrev maxPrios : Nat := 4
def minPrio : Int := 0
def highestPrio : Int := 3
def defaultPrio : Int := 2
def timeSliceTicks : Int := 5
def agingThreshold : Int := 10
abbrev fdMax : Nat := 64
abbrev pipeCap : Nat := 4096
def pipeNameMax : Nat := 32
abbrev pipeHashBuckets : Nat := 16
def ksemNameMax : Nat := 32
abbrev ksemHashBuckets : Nat := 32
abbrev ksemHandleMax : Nat := 128
def uint32Max : Nat := 4294967295
abbrev ttyBufferCap : Nat := 256
/-- `E_BG_INPUT`: a background process reads the terminal. -/
def eBgInput : Int := -7

/-- A `pcb_t *`. -/
abbrev Slot := Fin maxProcs

instance : NeZero maxProcs := ⟨by decide⟩

instance : NeZero maxPrios := ⟨by decide⟩

instance : NeZero fdMax := ⟨by decide⟩

/-- The bytes of a C string before its terminator. -/
abbrev CStr := List UInt8

/-! ### Heap blocks -/

/-- What a heap block was allocated for. -/
inductive BlockKind
  | stack | waitResult | table | file | pipe | pipeWaiter | sem | semWaiter | ttyWaiter
  deriving DecidableEq, Repr

/-- A heap block; its number is the position of its allocation in the run. -/
structure Block where
  kind : BlockKind
  id : Nat
  deriving DecidableEq, Repr

/-- The allocator behind `mm_malloc`: the `n`-th request fails when `fails n` holds, and a
successful one returns a new block. `freed` lists the blocks passed to `mm_free`. -/
structure Heap where
  next : Nat
  fails : Nat → Bool
  freed : List Block

/-! ### Saved contexts -/

/-- Where a saved context continues: at `trampoline`, in the process's own code, in the
`hlt` loop behind `proc_exit`, or behind the `sched_force_yield` of a system call, with
the locals that the rest of the call uses. -/
inductive Pc
  | trampoline
  | user
  | hlt
  | wait (parent : Slot) (targetPid : Int)
  | semWait (sem : Nat)
  | pipeRead (pipe : Nat) (n : Nat)
  | pipeWrite (pipe : Nat) (src : List UInt8)
  | ttyRead (n : Nat)
  deriving DecidableEq, Repr

/-- A register frame: the process whose kernel stack it lies on, and where it continues. -/
structure Frame where
  owner : Slot
  pc : Pc
  deriving DecidableEq, Repr

/-! ### Processes -/

inductive ProcState
  | new | ready | running | blocked | exited
  deriving DecidableEq, Repr

/-- `wait_result_t`: the result of a finished child. -/
structure WaitResult where
  node : Nat
  childPid : Int
  exitCode : Int
  deriving DecidableEq, Repr

/-- `pcb_t`. -/
structure Pcb where
  pid : Int
  name : CStr
  priority : Int
  basePriority : Int
  state : ProcState
  kframe : Option Frame
  kstackBase : Option Nat
  parentPid : Int
  fg : Bool
  ticksLeft : Int
  exitCode : Int
  used : Bool
  waitingFor : Int
  waitRes : List WaitResult
  pendingExitPid : Int
  pendingExitCode : Int
  pendingExitValid : Bool
  zombieReapable : Bool
  fdTable : Option Nat
  agingTicks : Int

/-- A slot after `memset(&procs[i], 0, sizeof(pcb_t))`. -/
def Pcb.zero : Pcb where
  pid := 0
  name := []
  priority := 0
  basePriority := 0
  state := .new
  kframe := none
  kstackBase := none
  parentPid := 0
  fg := false
  ticksLeft := 0
  exitCode := 0
  used := false
  waitingFor := 0
  waitRes := []
  pendingExitPid := 0
  pendingExitCode := 0
  pendingExitValid := false
  zombieReapable := false
  fdTable := none
  agingTicks := 0

/-! ### Files, pipes, semaphores, terminal -/

/-- The resource behind a `file_t`, with the operations that its type selects. -/
inductive FilePtr
  | tty
  | pipe (p : Nat)
  deriving DecidableEq, Repr

/-- `file_t`. -/
structure File where
  ptr : FilePtr
  canRead : Bool
  canWrite : Bool
  fgReadGuard : Bool
  refcount : Int

/-- `fd_table_t`. -/
abbrev FdTable := Fin fdMax → Option Nat

/-- A node of a queue of blocked processes: its heap block and the process. -/
structure Waiter where
  node : Nat
  proc : Slot
  deriving DecidableEq, Repr

/-- `kpipe_t`. -/
structure Kpipe where
  name : CStr
  ring : CircularBuffer UInt8 pipeCap
  readers : Int
  writers : Int
  unlinked : Bool
  rWaiters : List Waiter
  wWaiters : List Waiter

/-- `ksem_t`. -/
structure Ksem where
  name : CStr
  count : Nat
  refcount : Nat
  unlinked : Bool
  destroying : Bool
  waiters : List Waiter

/-- `sem_handle_t`, for an entry in use. -/
structure SemHandle where
  sem : Nat
  ownerPid : Int
  deriving DecidableEq, Repr

/-- `struct tty`. -/
structure Tty where
  ring : CircularBuffer UInt8 ttyBufferCap
  eof : Bool
  waiters : List Waiter
  fgPid : Int

/-- The static data of the kernel. `bailouts` is not in the source: it counts the calls of
`schedule` that returned at their first test. -/
structure Kernel where
  procs : Slot → Pcb
  queueNext : Slot → Option Slot
  cleanupNext : Slot → Option Slot
  childHead : Slot → Option Slot
  siblingNext : Slot → Option Slot
  nextPid : Int
  zombieHead : Option Slot
  readyHead : Fin maxPrios → Option Slot
  readyTail : Fin maxPrios → Option Slot
  schedulerEnabled : Bool
  current : Option Slot
  idleProc : Option Slot
  bailouts : Nat
  heap : Heap
  files : Nat → File
  tables : Nat → FdTable
  stdinFile : Option Nat
  stdoutFile : Option Nat
  stderrFile : Option Nat
  pipes : Nat → Kpipe
  pipeBuckets : Fin pipeHashBuckets → List Nat
  sems : Nat → Ksem
  semBuckets : Fin ksemHashBuckets → List Nat
  semHandles : Fin ksemHandleMax → Option SemHandle
  tty : Tty

namespace Kernel

/-- Write to the PCB of one slot. -/
def modify (k : Kernel) (p : Slot) (f : Pcb → Pcb) : Kernel :=
  { k with procs := Function.update k.procs p (f (k.procs p)) }

@[simp] lemma modify_procs_self (k : Kernel) (p : Slot) (f : Pcb → Pcb) :
    (k.modify p f).procs p = f (k.procs p) := by simp [modify]

lemma modify_procs_of_ne (k : Kernel) {p q : Slot} (f : Pcb → Pcb) (h : q ≠ p) :
    (k.modify p f).procs q = k.procs q := by simp [modify, h]

lemma modify_procs (k : Kernel) (p q : Slot) (f : Pcb → Pcb) :
    (k.modify p f).procs q = if q = p then f (k.procs p) else k.procs q := by
  simp only [modify, Function.update_apply]

lemma modify_modify (k : Kernel) (p : Slot) (f g : Pcb → Pcb) :
    (k.modify p f).modify p g = k.modify p fun c => g (f c) := by simp [modify]

/-- `mm_malloc`: the new block's number, or `none` when the request fails. -/
def mmMalloc (k : Kernel) : Kernel × Option Nat :=
  ({ k with heap := { k.heap with next := k.heap.next + 1 } },
    if k.heap.fails k.heap.next then none else some k.heap.next)

/-- `mm_free` of a non-null pointer. The bytes of the block stay, as under `buddy_free`;
`first_fit_free` clears them, so a call that frees the stack it runs on does not return there. -/
def mmFree (k : Kernel) (b : Block) : Kernel :=
  { k with heap := { k.heap with freed := k.heap.freed ++ [b] } }

lemma mmFrees_eq (k : Kernel) (bs : List Block) :
    bs.foldl mmFree k = { k with heap := { k.heap with freed := k.heap.freed ++ bs } } := by
  induction bs generalizing k with
  | nil => simp
  | cons b bs ih =>
    rw [List.foldl_cons, ih, mmFree]
    simp

end Kernel

end TP2Kernel
