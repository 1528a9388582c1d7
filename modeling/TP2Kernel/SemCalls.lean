import TP2Kernel.Syscalls
import TP2Kernel.Lib.Transition

/-!
# Semaphores and their handles as a system

The calls of `syscalls.c` on semaphores, with the two cleanup functions that terminations
run. Each of them is one step of the model; between two of them the rest of the kernel may do
anything to its own data. System calls run with interrupts disabled. The `proc_exit` behind an
entry that returns does not, and that its cleanup is one step is a choice of the model.
-/

namespace TP2Kernel

/-- The system calls on semaphores. -/
def Syscall.onSem : Syscall → Bool
  | .semOpen .. | .semWait .. | .semPost .. | .semClose .. | .semUnlink .. => true
  | _ => false

/-- A step of the semaphore system. `elsewhere` is what the rest of the kernel does. -/
inductive SemEvent
  | call (exec : Slot) (c : Syscall)
  | cleanup (pid : Int)
  | removeWaiters (proc : Slot)
  | elsewhere (k' : Kernel) (allocs : Nat)

namespace SemSystem

/-- The semaphores of `k` in a kernel whose other data is that of `k'`. -/
def graft (k k' : Kernel) (allocs : Nat) : Kernel :=
  { k' with
    sems := k.sems, semBuckets := k.semBuckets, semHandles := k.semHandles
    heap := { k.heap with next := k.heap.next + allocs } }

def step (k : Kernel) : SemEvent → Option Kernel
  | .call exec c => if c.onSem then some (syscall k exec c).1 else none
  | .cleanup pid => some (semCleanupProcessHandles k pid)
  | .removeWaiters proc => some (ksemRemoveWaitersFor k proc)
  | .elsewhere k' allocs => some (graft k k' allocs)

/-- No semaphore has been opened. -/
structure Fresh (k : Kernel) : Prop where
  handles : ∀ i, k.semHandles i = none
  buckets : ∀ b, k.semBuckets b = []
  sems : ∀ s, (k.sems s).refcount = 0
  freed : ∀ s, (⟨.sem, s⟩ : Block) ∉ k.heap.freed

end SemSystem

/-- The number of handles that point to a semaphore. -/
def semHandleCount (k : Kernel) (s : Nat) : Nat :=
  (Finset.univ.filter fun i => (k.semHandles i).map SemHandle.sem = some s).card

end TP2Kernel
