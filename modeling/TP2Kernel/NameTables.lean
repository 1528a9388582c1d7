import TP2Kernel.Semaphore
import TP2Kernel.Lib.BucketTable
import TP2Kernel.Lib.Transition

/-!
# The tables of names

The calls that work on the hash tables of semaphores and of pipes, as two systems. Each call
runs with interrupts disabled wherever it looks at its table.
-/

namespace TP2Kernel

/-- A call on the names of semaphores. `close` is called with the result of an earlier
`ksem_open`, or with anything else. -/
inductive SemNameEvent
  | openSem (name : CStr) (init : Nat)
  | close (s : Nat)
  | unlink (name : CStr)

namespace SemNames

def step (k : Kernel) : SemNameEvent → Option Kernel
  | .openSem name init => some (ksemOpen k name init).1
  | .close s => some (ksemClose k s).1
  | .unlink name => some (ksemUnlink k name).1

/-- The table is empty. -/
def Start (k : Kernel) : Prop := ∀ b, k.semBuckets b = []

/-- The semaphore `s` is in the hash table. -/
def InTable (k : Kernel) (s : Nat) : Prop := BucketTable.Mem k.semBuckets s

end SemNames

/-- A call on the names of pipes. -/
inductive PipeNameEvent
  | openPipe (name : CStr) (forRead forWrite : Bool)
  | unlink (name : CStr)

/-- The name that a call is given. -/
def PipeNameEvent.name : PipeNameEvent → CStr
  | .openPipe name _ _ => name
  | .unlink name => name

namespace PipeNames

def step (k : Kernel) : PipeNameEvent → Option Kernel
  | .openPipe name forRead forWrite => some (kpipeOpen k name forRead forWrite).1
  | .unlink name => some (kpipeUnlink k name).1

/-- The table is empty, and no allocation will fail. -/
def Start (k : Kernel) : Prop := (∀ b, k.pipeBuckets b = []) ∧ ∀ n, k.heap.fails n = false

/-- `kpipe_open` and `kpipe_unlink` come to the pipe `p` when they look for `name`. -/
def Reachable (k : Kernel) (name : CStr) (p : Nat) : Prop :=
  p ∈ k.pipeBuckets (pipeHash name) ∧ (k.pipes p).unlinked = false ∧ (k.pipes p).name = name

end PipeNames

end TP2Kernel
