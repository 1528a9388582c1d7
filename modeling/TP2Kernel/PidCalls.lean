import TP2Kernel.Proc
import TP2Kernel.Lib.Transition

/-!
# Pids as a system

The functions of `proc.c` that give out pids and release slots, each of them one step. Between
two of them the rest of the kernel may do anything but touch the pids, the marks of the slots in
use and the counter `next_pid`.
-/

namespace TP2Kernel

/-- `proc_create` finds a free slot, and memory for a stack and a descriptor table. -/
structure HasRoom (k : Kernel) : Prop where
  slot : ∃ p, (k.procs p).used = false
  stack : k.heap.fails k.heap.next = false
  table : k.heap.fails (k.heap.next + 1) = false

/-- No two slots in use have the same pid. -/
def DistinctPids (k : Kernel) : Prop :=
  ∀ p q, (k.procs p).used → (k.procs q).used → (k.procs p).pid = (k.procs q).pid → p = q

/-- A `proc_create` that succeeds does not give out the pid of a slot in use. -/
def FreshPid (k : Kernel) : Prop :=
  HasRoom (collectZombies k) → ∀ p, ((collectZombies k).procs p).used →
    ((collectZombies k).procs p).pid ≠ k.nextPid

inductive PidEvent
  | create (entry : Option Nat) (prio : Int) (fg : Bool) (name : Option CStr)
  | exit (exec : Slot) (code : Int)
  | kill (exec : Slot) (pid : Int)
  | collect
  | elsewhere (k' : Kernel) (allocs : Nat)

namespace PidSystem

/-- The pids of `k` in a kernel whose other data is that of `k'`. -/
def graft (k k' : Kernel) (allocs : Nat) : Kernel :=
  { k' with
    procs := fun p => { k'.procs p with pid := (k.procs p).pid, used := (k.procs p).used }
    nextPid := k.nextPid
    heap := { k'.heap with next := k.heap.next + allocs, fails := k.heap.fails } }

def step (k : Kernel) : PidEvent → Option Kernel
  | .create entry prio fg name => some (procCreate k entry prio fg name).1
  | .exit exec code => some (procExit k exec code).1
  | .kill exec pid => some (procKill k exec pid).1
  | .collect => some (collectZombies k)
  | .elsewhere k' allocs => some (graft k k' allocs)

/-- No process has been created. -/
def Start (k : Kernel) : Prop := k.nextPid = 1 ∧ ∀ p, (k.procs p).used = false

/-- A process is created only under a pid that is not in use. -/
def CreatesFresh (k : Kernel) (e : PidEvent) : Prop :=
  ∀ entry prio fg name, e = .create (some entry) prio fg (some name) → FreshPid k

end PidSystem

end TP2Kernel
