import TP2Kernel.Syscalls
import TP2Kernel.Lib.Transition

/-!
# Descriptor tables and their files as a system

The calls of `syscalls.c` that create, share and release files, and the creation and the
destruction of descriptor tables. Each of them is one step; between two of them the rest
of the kernel may do anything to its own data, and to what the pipes hold.
-/

namespace TP2Kernel

/-- The system calls that create, share or release files. -/
def Syscall.onFd : Syscall → Bool
  | .pipeOpen .. | .close .. | .dup2 .. | .pipeUnlink .. => true
  | _ => false

/-- `sys_pipe_open` of a process whose descriptor table is `t`. -/
def tablePipeOpen (k : Kernel) (t : Nat) (name : CStr) (flags : Nat) : Kernel × Int :=
  let forRead := flags.testBit 0
  let forWrite := flags.testBit 1
  if !forRead && !forWrite then (k, -1)
  else match kpipeOpen k name forRead forWrite with
    | (k, none) => (k, -1)
    | (k, some p) =>
      match fileCreate k (.pipe p) forRead forWrite with
      | (k, none) => (kpipeClose wake k p forRead forWrite, -1)
      | (k, some f) =>
        let (k, fd) := fdTableAllocate k t f
        if fd < 0 then (fileRelease wake k f, fd) else (k, fd)

/-- The kernel and the descriptor tables that exist. -/
structure FdSystem where
  k : Kernel
  tables : Finset Nat

/-- A step of the file system. `clone` and `attachStd` fill a table that they create. -/
inductive FdEvent
  | call (exec : Slot) (c : Syscall)
  | clone (src : Nat)
  | attachStd
  | destroy (t : Nat)
  | elsewhere (k' : Kernel) (allocs : Nat)

namespace FdSystem

/-- The files of `k` in a kernel whose other data is that of `k'`. -/
def graft (k k' : Kernel) (allocs : Nat) : Kernel :=
  { k' with
    files := k.files, tables := k.tables
    stdinFile := k.stdinFile, stdoutFile := k.stdoutFile, stderrFile := k.stderrFile
    pipes := fun p => { k.pipes p with
      ring := (k'.pipes p).ring, rWaiters := (k'.pipes p).rWaiters
      wWaiters := (k'.pipes p).wWaiters }
    pipeBuckets := k.pipeBuckets
    heap := { k.heap with next := k.heap.next + allocs } }

/-- A new table, filled by `fill`. -/
def create (σ : FdSystem) (fill : Kernel → Nat → Kernel) : FdSystem :=
  match fdTableCreate σ.k with
  | (k, none) => { σ with k := k }
  | (k, some t) => ⟨fill k t, insert t σ.tables⟩

/-- A call is made by a process whose table, if it has one, exists. -/
def step (σ : FdSystem) : FdEvent → Option FdSystem
  | .call exec c =>
    if c.onFd && (callerTable σ.k).all fun x => decide (x.2 ∈ σ.tables) then
      some { σ with k := (syscall σ.k exec c).1 }
    else none
  | .clone src => if src ∈ σ.tables then some (σ.create fun k t => fdTableClone k t src) else none
  | .attachStd => some (σ.create fdTableAttachStd)
  | .destroy t =>
    if t ∈ σ.tables then some ⟨fdTableDestroy wake σ.k t, σ.tables.erase t⟩ else none
  | .elsewhere k' allocs => some { σ with k := graft σ.k k' allocs }

/-- `f` is one of the three global standard files. -/
def IsStd (k : Kernel) (f : Nat) : Prop :=
  k.stdinFile = some f ∨ k.stdoutFile = some f ∨ k.stderrFile = some f

instance (k : Kernel) (f : Nat) : Decidable (IsStd k f) :=
  inferInstanceAs (Decidable (k.stdinFile = some f ∨ k.stdoutFile = some f ∨ k.stderrFile = some f))

/-- No process that `collect_zombies` would reap still has a descriptor table: `Z` holds what
the zombie list leads to. -/
def Bare (k : Kernel) : Prop := ∃ Z : Slot → Prop,
  (∀ p, Z p → (k.procs p).fdTable = none ∨ reapable (k.procs p) = false) ∧
    (∀ p, k.zombieHead = some p → Z p) ∧ ∀ p z, Z p → k.cleanupNext p = some z → Z z

/-- There are only the standard files, and no pipe has been opened. -/
structure Start (σ : FdSystem) : Prop where
  tables : σ.tables = ∅
  files : ∀ f, σ.k.files f = { σ.k.files f with
    ptr := .tty, refcount := if IsStd σ.k f then 1 else 0 }
  std : ∀ f, IsStd σ.k f → f < σ.k.heap.next
  pipes : ∀ p, (σ.k.pipes p).readers = 0 ∧ (σ.k.pipes p).writers = 0 ∧
    (σ.k.pipes p).unlinked = false
  buckets : ∀ b, σ.k.pipeBuckets b = []
  freed : ∀ i, (⟨.file, i⟩ : Block) ∉ σ.k.heap.freed ∧ (⟨.pipe, i⟩ : Block) ∉ σ.k.heap.freed
  bare : Bare σ.k

/-- What the rest of the kernel does leaves no zombie with a table. -/
def BareElsewhere (_ : FdSystem) : FdEvent → Prop
  | .elsewhere k' _ => Bare k'
  | _ => True

end FdSystem

/-- The number of entries of existing tables that point to a file. -/
def fileEntries (tables : Finset Nat) (k : Kernel) (f : Nat) : Nat :=
  ∑ t ∈ tables, (Finset.univ.filter fun fd => k.tables t fd = some f).card

/-- The live files on a pipe: those that still have a reference. -/
def liveFiles (k : Kernel) (p : Nat) : Finset Nat :=
  (Finset.range k.heap.next).filter fun f => (k.files f).ptr = .pipe p ∧ 0 < (k.files f).refcount

/-- What the counters mean: references of files, users of pipes, and who has been freed. -/
structure FdSystem.Counted (σ : FdSystem) : Prop where
  refcount : ∀ f, (σ.k.files f).refcount =
    fileEntries σ.tables σ.k f + if IsStd σ.k f then 1 else 0
  readers : ∀ p, (σ.k.pipes p).readers =
    ((liveFiles σ.k p).filter fun f => (σ.k.files f).canRead).card
  writers : ∀ p, (σ.k.pipes p).writers =
    ((liveFiles σ.k p).filter fun f => (σ.k.files f).canWrite).card
  fileOnce : ∀ f, σ.k.heap.freed.count ⟨.file, f⟩ ≤ 1
  fileFreed : ∀ f, ⟨.file, f⟩ ∈ σ.k.heap.freed ↔
    (σ.k.files f).ptr ≠ .tty ∧ (σ.k.files f).refcount = 0
  pipeOnce : ∀ p, σ.k.heap.freed.count ⟨.pipe, p⟩ ≤ 1
  pipeFreed : ∀ p, ⟨.pipe, p⟩ ∈ σ.k.heap.freed ↔
    (σ.k.pipes p).unlinked = true ∧ liveFiles σ.k p = ∅
  entry : ∀ t ∈ σ.tables, ∀ fd f, σ.k.tables t fd = some f → ⟨.file, f⟩ ∉ σ.k.heap.freed
  file : ∀ f p, 0 < (σ.k.files f).refcount → (σ.k.files f).ptr = .pipe p →
    ⟨.pipe, p⟩ ∉ σ.k.heap.freed

end TP2Kernel
