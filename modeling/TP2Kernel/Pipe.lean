import TP2Kernel.Sched

/-!
# Pipes

The functions of `pipe.c`. `kpipe_read` and `kpipe_write` are split at the points where
they restore interrupts: the first critical section of a loop iteration, and the second
one behind the allocation of the waiter. `kpipe_close` wakes processes through
`proc_unblock`, which is passed to it because `proc.c` itself closes pipes.
-/

namespace TP2Kernel
open Function

/-- The hash that `pipe_hash` and `sem_hash` reduce; `char` is signed. -/
def nameHash (name : CStr) : UInt32 :=
  name.foldl (fun hash c => ((hash <<< 5) + hash) + c.toInt8.toInt32.toUInt32) 5381

/-- `pipe_hash`. -/
def pipeHash (name : CStr) : Fin pipeHashBuckets :=
  Fin.ofNat pipeHashBuckets (nameHash name).toNat

/-- `pipe_name_copy`. -/
def pipeNameCopy (src : CStr) : CStr := src.take (pipeNameMax - 1)

/-- What a system call leaves to the processor: a return value, the bytes a read copied
out, the child and exit code that a wait reports, or another frame to continue at. -/
inductive Outcome
  | ret (v : Int)
  | read (bytes : List UInt8)
  | waited (pid exitCode : Int)
  | load (f : Frame)
  deriving DecidableEq

namespace Kernel

/-- Write to one pipe. -/
def modifyPipe (k : Kernel) (p : Nat) (f : Kpipe → Kpipe) : Kernel :=
  { k with pipes := update k.pipes p (f (k.pipes p)) }

/-- `sched_force_yield` in a system call, which continues at `rsp` when its process runs
again, and at once when `schedule` returns 0. -/
def yield (k : Kernel) (rsp : Frame) : Kernel × Outcome :=
  let (k, f) := schedForceYield k rsp
  (k, .load (f.getD rsp))

/-- Block the process and yield. -/
def blockAndYield (k : Kernel) (proc : Slot) (rsp : Frame) : Kernel × Outcome :=
  (k.modify proc fun c => { c with state := .blocked, ticksLeft := 0 }).yield rsp

end Kernel

/-- The first critical section of an iteration of `kpipe_read`. -/
inductive ReadSection
  | transfer (p : Kpipe) (bytes : List UInt8) (writer : Option Waiter)
  | eof
  | block

/-- The first critical section of an iteration of `kpipe_write`. -/
inductive WriteSection
  | transfer (p : Kpipe) (count : Nat) (reader : Option Waiter)
  | epipe
  | block

/-- The critical section behind the allocation of a waiter. -/
inductive Recheck
  | retry
  | eof
  | sleep (p : Kpipe)

namespace Kpipe

/-- `dequeue_reader`. -/
def dequeueReader (p : Kpipe) : Kpipe × Option Waiter :=
  match p.rWaiters with
  | [] => (p, none)
  | w :: ws => ({ p with rWaiters := ws }, some w)

/-- `dequeue_writer`. -/
def dequeueWriter (p : Kpipe) : Kpipe × Option Waiter :=
  match p.wWaiters with
  | [] => (p, none)
  | w :: ws => ({ p with wWaiters := ws }, some w)

/-- `enqueue_reader`. -/
def enqueueReader (p : Kpipe) (w : Waiter) : Kpipe := { p with rWaiters := p.rWaiters ++ [w] }

/-- `enqueue_writer`. -/
def enqueueWriter (p : Kpipe) (w : Waiter) : Kpipe := { p with wWaiters := p.wWaiters ++ [w] }

def readSection (p : Kpipe) (n : Nat) : ReadSection :=
  if 0 < p.ring.size then
    let toRead := if p.ring.size < n then p.ring.size else n
    let (bytes, ring) := p.ring.takeList toRead
    let (p, writer) := { p with ring := ring }.dequeueWriter
    .transfer p bytes writer
  else if p.writers = 0 then .eof
  else .block

def readRecheck (p : Kpipe) (w : Waiter) : Recheck :=
  if 0 < p.ring.size then .retry
  else if p.writers = 0 then .eof
  else .sleep (p.enqueueReader w)

def writeSection (p : Kpipe) (src : List UInt8) : WriteSection :=
  if p.readers = 0 then .epipe
  else if p.ring.size < pipeCap then
    let space := pipeCap - p.ring.size
    let toWrite := if space < src.length then space else src.length
    let (p, reader) := { p with ring := p.ring.putList (src.take toWrite) }.dequeueReader
    .transfer p toWrite reader
  else .block

def writeRecheck (p : Kpipe) (w : Waiter) : Recheck :=
  if p.ring.size < pipeCap then .retry
  else .sleep (p.enqueueWriter w)

end Kpipe

/-- The walk over a bucket of `pipe_buckets`. -/
def findPipe (k : Kernel) (name : CStr) : Option Nat :=
  (k.pipeBuckets (pipeHash name)).find? fun p =>
    !(k.pipes p).unlinked && decide ((k.pipes p).name = name)

/-- Count one more user of a pipe. -/
def pipeAddUser (k : Kernel) (p : Nat) (forRead forWrite : Bool) : Kernel :=
  k.modifyPipe p fun c =>
    { c with
      readers := if forRead then c.readers + 1 else c.readers
      writers := if forWrite then c.writers + 1 else c.writers }

/-- `pipe_free`. -/
def pipeFree (k : Kernel) (p : Nat) : Kernel :=
  let nodes := ((k.pipes p).rWaiters ++ (k.pipes p).wWaiters).map fun w =>
    (⟨.pipeWaiter, w.node⟩ : Block)
  (nodes.foldl Kernel.mmFree k).mmFree ⟨.pipe, p⟩

/-- `kpipe_open`: the pipe, or `none` for the return value -1. -/
def kpipeOpen (k : Kernel) (name : CStr) (forRead forWrite : Bool) : Kernel × Option Nat :=
  match findPipe k name with
  | some p => (pipeAddUser k p forRead forWrite, some p)
  | none =>
    match k.mmMalloc with
    | (k, none) => (k, none)
    | (k, some p) =>
      let k := k.modifyPipe p fun c =>
        { name := pipeNameCopy name
          ring := { c.ring with r := 0, w := 0, size := 0, buf := fun _ => 0 }
          readers := if forRead then 1 else 0
          writers := if forWrite then 1 else 0
          unlinked := false
          rWaiters := []
          wWaiters := [] }
      match findPipe k name with
      | some q => (pipeFree (pipeAddUser k q forRead forWrite) p, some q)
      | none =>
        let bucket := pipeHash name
        ({ k with pipeBuckets := update k.pipeBuckets bucket (p :: k.pipeBuckets bucket) }, some p)

/-- The loop of `kpipe_close` that wakes every reader. -/
def drainReaders (unblock : Kernel → Int → Kernel) (p : Nat) : Nat → Kernel → Kernel
  | 0, k => k
  | n + 1, k =>
    match (k.pipes p).dequeueReader with
    | (_, none) => k
    | (c, some w) =>
      let k := (k.modifyPipe p fun _ => c).mmFree ⟨.pipeWaiter, w.node⟩
      drainReaders unblock p n (unblock k (k.procs w.proc).pid)

/-- The loop of `kpipe_close` that wakes every writer. -/
def drainWriters (unblock : Kernel → Int → Kernel) (p : Nat) : Nat → Kernel → Kernel
  | 0, k => k
  | n + 1, k =>
    match (k.pipes p).dequeueWriter with
    | (_, none) => k
    | (c, some w) =>
      let k := (k.modifyPipe p fun _ => c).mmFree ⟨.pipeWaiter, w.node⟩
      drainWriters unblock p n (unblock k (k.procs w.proc).pid)

/-- The counters of `kpipe_close`. -/
def pipeDropUser (c : Kpipe) (wasRead wasWrite : Bool) : Kpipe :=
  { c with
    readers := if wasRead && decide (0 < c.readers) then c.readers - 1 else c.readers
    writers := if wasWrite && decide (0 < c.writers) then c.writers - 1 else c.writers }

/-- `kpipe_close`. Nothing is queued while it drains, so each loop runs at most once for
every node that is queued when it starts. -/
def kpipeClose (unblock : Kernel → Int → Kernel) (k : Kernel) (p : Nat)
    (wasRead wasWrite : Bool) : Kernel :=
  let k := k.modifyPipe p fun c => pipeDropUser c wasRead wasWrite
  let c := k.pipes p
  let wakeReaders := decide (c.writers = 0) && !c.rWaiters.isEmpty
  let wakeWriters := decide (c.readers = 0) && !c.wWaiters.isEmpty
  let shouldFree := c.unlinked && decide (c.readers = 0) && decide (c.writers = 0)
  let k := if wakeReaders then drainReaders unblock p c.rWaiters.length k else k
  let k := if wakeWriters then drainWriters unblock p (k.pipes p).wWaiters.length k else k
  if shouldFree then pipeFree k p else k

/-- `kpipe_unlink`. -/
def kpipeUnlink (k : Kernel) (name : CStr) : Kernel × Int :=
  match findPipe k name with
  | none => (k, -1)
  | some p =>
    let bucket := pipeHash name
    let k := { k with
      pipeBuckets := update k.pipeBuckets bucket ((k.pipeBuckets bucket).erase p) }
    let k := k.modifyPipe p fun c => { c with unlinked := true }
    if (k.pipes p).readers = 0 ∧ (k.pipes p).writers = 0 then (pipeFree k p, 0) else (k, 0)

end TP2Kernel
