import TP2Kernel.Pipe
import TP2Kernel.Lib.Transition

/-!
# Concurrent calls on one pipe

The processes that call `kpipe_read`, `kpipe_write` and `kpipe_close` on one pipe, one
interrupt-disabled section at a time: any other call may run between two sections of a
call. Five fields are not in the code: the lists `input` and `output` collect the bytes that
the sections copy in and out, `writes` the finished calls of `kpipe_write`, and `noReaders`
and `noWriters` name the process whose `kpipe_close` brought that counter to 0.
-/

namespace TP2Kernel
open Function

/-- Where a process stands in its call on the pipe. -/
inductive Call
  /-- It is in no call. -/
  | away
  /-- `kpipe_read` before the first section of an iteration. -/
  | read (n : Nat)
  /-- `kpipe_read` between its sections, where it allocates a waiter. -/
  | readAlloc (n : Nat)
  /-- `kpipe_read` behind its yield. -/
  | readSleep (n : Nat)
  | write (src : List UInt8)
  | writeAlloc (src : List UInt8)
  | writeSleep (src : List UInt8)
  | close (wasRead wasWrite : Bool)
  /-- `kpipe_close` in the loop that wakes the readers, with the writers still to come. -/
  | drainReaders (wakeWriters : Bool)
  /-- `kpipe_close` in the loop that wakes the writers. -/
  | drainWriters
  deriving DecidableEq

/-- A call that a process can start. -/
def Call.starts : Call → Bool
  | .read n => decide (0 < n)
  | .write src => decide (src ≠ [])
  | .close _ _ => true
  | _ => false

/-- A finished `kpipe_write`: its buffer, its result, and the bytes it stored. -/
structure WriteCall where
  src : List UInt8
  result : Int
  stored : List UInt8

/-- A pipe and the calls that run on it. -/
structure PipeSystem where
  pipe : Kpipe
  calls : Slot → Call
  input : List UInt8
  output : List UInt8
  writes : List WriteCall
  noReaders : Option Slot
  noWriters : Option Slot

/-- What can happen next: a call starts, a process runs its next section, or it gets the
result of `mm_malloc` and runs the section behind it. -/
inductive PipeEvent
  | start (p : Slot) (c : Call)
  | run (p : Slot)
  | alloc (p : Slot) (node : Option Nat)

namespace PipeSystem

/-- The call of `p` goes on at `c`. -/
def goto (σ : PipeSystem) (p : Slot) (c : Call) : PipeSystem :=
  { σ with calls := update σ.calls p c }

/-- The first section of an iteration of `kpipe_read`. -/
def runRead (σ : PipeSystem) (p : Slot) (n : Nat) : PipeSystem :=
  match σ.pipe.readSection n with
  | .transfer c bytes _ => { σ.goto p .away with pipe := c, output := σ.output ++ bytes }
  | .eof => σ.goto p .away
  | .block => σ.goto p (.readAlloc n)

/-- The first section of an iteration of `kpipe_write`. -/
def runWrite (σ : PipeSystem) (p : Slot) (src : List UInt8) : PipeSystem :=
  match σ.pipe.writeSection src with
  | .transfer c count _ =>
    { σ.goto p .away with
      pipe := c, input := σ.input ++ src.take count
      writes := σ.writes ++ [⟨src, count, src.take count⟩] }
  | .epipe => { σ.goto p .away with writes := σ.writes ++ [⟨src, -1, []⟩] }
  | .block => σ.goto p (.writeAlloc src)

/-- The section of `kpipe_close` that counts one user less and looks at the queues. -/
def runClose (σ : PipeSystem) (p : Slot) (wasRead wasWrite : Bool) : PipeSystem :=
  let c := pipeDropUser σ.pipe wasRead wasWrite
  let wakeReaders := decide (c.writers = 0) && !c.rWaiters.isEmpty
  let wakeWriters := decide (c.readers = 0) && !c.wWaiters.isEmpty
  { σ.goto p (if wakeReaders then .drainReaders wakeWriters
      else if wakeWriters then .drainWriters else .away) with
    pipe := c
    noReaders := if σ.pipe.readers ≠ 0 ∧ c.readers = 0 then some p else σ.noReaders
    noWriters := if σ.pipe.writers ≠ 0 ∧ c.writers = 0 then some p else σ.noWriters }

/-- One turn of the loop that wakes the readers. -/
def runDrainReaders (σ : PipeSystem) (p : Slot) (wakeWriters : Bool) : PipeSystem :=
  match σ.pipe.dequeueReader with
  | (c, some _) => { σ with pipe := c }
  | (_, none) => σ.goto p (if wakeWriters then .drainWriters else .away)

/-- One turn of the loop that wakes the writers. -/
def runDrainWriters (σ : PipeSystem) (p : Slot) : PipeSystem :=
  match σ.pipe.dequeueWriter with
  | (c, some _) => { σ with pipe := c }
  | (_, none) => σ.goto p .away

/-- A reader that is behind its yield and no longer queued: it was woken and has to rerun its
loop. -/
def wokenReader (σ : PipeSystem) (p : Slot) : Bool :=
  match σ.calls p with
  | .readSleep _ => σ.pipe.rWaiters.all fun w => decide (w.proc ≠ p)
  | _ => false

/-- A writer that was woken and has to rerun its loop. -/
def wokenWriter (σ : PipeSystem) (p : Slot) : Bool :=
  match σ.calls p with
  | .writeSleep _ => σ.pipe.wWaiters.all fun w => decide (w.proc ≠ p)
  | _ => false

/-- The next section of `p`. A process that sleeps in a queue has none until it is woken. -/
def run (σ : PipeSystem) (p : Slot) : Option PipeSystem :=
  match σ.calls p with
  | .read n => some (σ.runRead p n)
  | .readSleep n => if σ.wokenReader p then some (σ.runRead p n) else none
  | .write src => some (σ.runWrite p src)
  | .writeSleep src => if σ.wokenWriter p then some (σ.runWrite p src) else none
  | .close wasRead wasWrite => some (σ.runClose p wasRead wasWrite)
  | .drainReaders wakeWriters => some (σ.runDrainReaders p wakeWriters)
  | .drainWriters => some (σ.runDrainWriters p)
  | .away | .readAlloc _ | .writeAlloc _ => none

/-- The section of `kpipe_read` behind the allocation of `node`. -/
def recheckRead (σ : PipeSystem) (p : Slot) (n node : Nat) : PipeSystem :=
  match σ.pipe.readRecheck ⟨node, p⟩ with
  | .retry => σ.goto p (.read n)
  | .eof => σ.goto p .away
  | .sleep c => { σ.goto p (.readSleep n) with pipe := c }

/-- The section of `kpipe_write` behind the allocation of `node`. -/
def recheckWrite (σ : PipeSystem) (p : Slot) (src : List UInt8) (node : Nat) : PipeSystem :=
  match σ.pipe.writeRecheck ⟨node, p⟩ with
  | .sleep c => { σ.goto p (.writeSleep src) with pipe := c }
  | _ => σ.goto p (.write src)

/-- The allocation of a waiter, and the section behind it; without memory the call returns
-1. -/
def alloc (σ : PipeSystem) (p : Slot) (node : Option Nat) : Option PipeSystem :=
  match σ.calls p, node with
  | .readAlloc n, some node => some (σ.recheckRead p n node)
  | .readAlloc _, none => some (σ.goto p .away)
  | .writeAlloc src, some node => some (σ.recheckWrite p src node)
  | .writeAlloc src, none => some { σ.goto p .away with writes := σ.writes ++ [⟨src, -1, []⟩] }
  | _, _ => none

def step (σ : PipeSystem) : PipeEvent → Option PipeSystem
  | .start p c => if σ.calls p = .away ∧ c.starts then some (σ.goto p c) else none
  | .run p => σ.run p
  | .alloc p node => σ.alloc p node

/-- A pipe with nothing in it, as `kpipe_open` creates it, after any number of further calls
of `kpipe_open`, and no call under way. -/
structure Fresh (σ : PipeSystem) : Prop where
  empty : σ.pipe.ring.r = 0 ∧ σ.pipe.ring.w = 0 ∧ σ.pipe.ring.size = 0
  readers : 0 ≤ σ.pipe.readers
  writers : 0 ≤ σ.pipe.writers
  linked : σ.pipe.unlinked = false
  queues : σ.pipe.rWaiters = [] ∧ σ.pipe.wWaiters = []
  calls : ∀ p, σ.calls p = .away
  history : σ.input = [] ∧ σ.output = [] ∧ σ.writes = []

end PipeSystem

end TP2Kernel
