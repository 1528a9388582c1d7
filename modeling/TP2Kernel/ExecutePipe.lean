import TP2Kernel.Pipe
import TP2Kernel.Lib.Transition

/-!
# The shell's pipelines

`execute_pipe` of `sh.c` with the two processes it spawns and their temporary pipe. The
shell runs the left command to its end before it starts the right one. The processes
inherit the shell's descriptors, so an end of the pipe is closed by `kpipe_close` when the
last process that holds its file drops it. What the shell itself prints for `loop` and the
`test_*` commands while its output is redirected counts as output of the left command.
-/

namespace TP2Kernel

/-- Where the shell stands in `execute_pipe`, named after the call it makes next. -/
inductive ShellPc
  | openWriter | openReader | redirectOut | closeWriter | spawnLeft | waitLeft | restoreOut
  | redirectIn | closeReader | spawnRight | waitRight
  | cleanupIn | cleanupOut | cleanupReader | cleanupWriter | unlink | done
  deriving DecidableEq, Repr

/-- The left command, with the buffers it still writes to its standard output. -/
inductive LeftPc
  | absent
  | running (writes : List (List UInt8))
  /-- `kpipe_write` between its sections, where it allocates a waiter. -/
  | alloc (src : List UInt8) (writes : List (List UInt8))
  /-- Blocked in `kpipe_write`. -/
  | blocked (src : List UInt8) (writes : List (List UInt8))
  | exited
  deriving DecidableEq, Repr

/-- The right command, which reads its standard input to the end. -/
inductive RightPc
  | absent
  | running
  | alloc
  | blocked
  | exited
  deriving DecidableEq, Repr

/-- The descriptors of the shell that hold an end of the pipe. -/
structure ShellFds where
  stdin : Bool
  stdout : Bool
  readFd : Bool
  writeFd : Bool
  deriving DecidableEq, Repr

/-- `execute_pipe` while it runs. `readRefs` and `writeRefs` are the reference counts of the
files of the two ends, `ok` and `created` are the variables `status` and `pipe_created`. -/
structure Pipeline where
  pipe : Kpipe
  readRefs : Nat
  writeRefs : Nat
  shell : ShellPc
  fds : ShellFds
  ok : Bool
  created : Bool
  left : LeftPc
  right : RightPc

/-- What can happen next: the shell makes its next call, a command runs its next section. The
Boolean says whether a call that can fail for want of memory or slots succeeds, or with which
status a command that is waited for has exited. -/
inductive PipelineEvent
  | shell (succeeds : Bool)
  | left (succeeds : Bool)
  | right (n : Nat) (succeeds : Bool)

namespace Pipeline

/-- The slot of the left command. -/
def leftSlot : Slot := 1

/-- The slot of the right command. -/
def rightSlot : Slot := 2

/-- `execute_pipe` at its first `sys_pipe_open`. -/
def start : Pipeline where
  pipe := ⟨[], ⟨fun _ => 0, 0, 0, 0⟩, 0, 0, false, [], []⟩
  readRefs := 0
  writeRefs := 0
  shell := .openWriter
  fds := ⟨false, false, false, false⟩
  ok := true
  created := false
  left := .absent
  right := .absent

/-- Wake the left command if it is blocked. -/
def wakeLeft (σ : Pipeline) : Pipeline :=
  match σ.left with
  | .blocked src writes => { σ with left := .running (src :: writes) }
  | _ => σ

/-- Wake the right command if it is blocked. -/
def wakeRight (σ : Pipeline) : Pipeline :=
  match σ.right with
  | .blocked => { σ with right := .running }
  | _ => σ

/-- `kpipe_close` of one end. -/
def closeEnd (σ : Pipeline) (wasRead wasWrite : Bool) : Pipeline :=
  let c := pipeDropUser σ.pipe wasRead wasWrite
  let σ := { σ with pipe := { c with
    rWaiters := if c.writers = 0 then [] else c.rWaiters
    wWaiters := if c.readers = 0 then [] else c.wWaiters } }
  let σ := if c.writers = 0 then σ.wakeRight else σ
  if c.readers = 0 then σ.wakeLeft else σ

/-- `file_release` of the read end. -/
def dropRead (σ : Pipeline) : Pipeline :=
  let σ := { σ with readRefs := σ.readRefs - 1 }
  if 0 < σ.readRefs then σ else σ.closeEnd true false

/-- `file_release` of the write end. -/
def dropWrite (σ : Pipeline) : Pipeline :=
  let σ := { σ with writeRefs := σ.writeRefs - 1 }
  if 0 < σ.writeRefs then σ else σ.closeEnd false true

/-- The references that a process spawned now inherits. -/
def inherit (σ : Pipeline) : Pipeline :=
  { σ with
    readRefs := σ.readRefs + σ.fds.stdin.toNat + σ.fds.readFd.toNat
    writeRefs := σ.writeRefs + σ.fds.stdout.toNat + σ.fds.writeFd.toNat }

/-- A failed call of the shell. -/
def fail (σ : Pipeline) : Pipeline := { σ with ok := false, shell := .cleanupIn }

/-- The next call of the shell; `none` where it is blocked or at its end. -/
def stepShell (σ : Pipeline) (writes : List (List UInt8)) (succeeds : Bool) : Option Pipeline :=
  match σ.shell with
  | .openWriter => some <| if succeeds then
      { σ with pipe := { σ.pipe with writers := 1 }, writeRefs := 1, shell := .openReader
               fds := { σ.fds with writeFd := true } }
    else σ.fail
  | .openReader => some <| if succeeds then
      { σ with pipe := { σ.pipe with readers := 1 }, readRefs := 1, shell := .redirectOut
               fds := { σ.fds with readFd := true }, created := true }
    else σ.fail
  | .redirectOut => some <| if succeeds then
      { σ with writeRefs := σ.writeRefs + 1, shell := .closeWriter
               fds := { σ.fds with stdout := true } }
    else σ.fail
  | .closeWriter =>
    some { σ.dropWrite with shell := .spawnLeft, fds := { σ.fds with writeFd := false } }
  | .spawnLeft => some <| if succeeds then
      { σ.inherit with shell := .waitLeft, left := .running writes }
    else { σ with ok := false, shell := .restoreOut }
  | .waitLeft => if σ.left = .exited then some { σ with ok := succeeds, shell := .restoreOut }
    else none
  | .restoreOut =>
    some { σ.dropWrite with
      shell := if σ.ok then .redirectIn else .cleanupIn, fds := { σ.fds with stdout := false } }
  | .redirectIn => some <| if succeeds then
      { σ with readRefs := σ.readRefs + 1, shell := .closeReader, fds := { σ.fds with stdin := true } }
    else σ.fail
  | .closeReader =>
    some { σ.dropRead with shell := .spawnRight, fds := { σ.fds with readFd := false } }
  | .spawnRight => some <| if succeeds then
      { σ.inherit with shell := .waitRight, right := .running }
    else σ.fail
  | .waitRight => if σ.right = .exited then some { σ with ok := succeeds, shell := .cleanupIn }
    else none
  | .cleanupIn => some { (if σ.fds.stdin then σ.dropRead else σ) with
      shell := .cleanupOut, fds := { σ.fds with stdin := false } }
  | .cleanupOut => some { (if σ.fds.stdout then σ.dropWrite else σ) with
      shell := .cleanupReader, fds := { σ.fds with stdout := false } }
  | .cleanupReader => some { (if σ.fds.readFd then σ.dropRead else σ) with
      shell := .cleanupWriter, fds := { σ.fds with readFd := false } }
  | .cleanupWriter => some { (if σ.fds.writeFd then σ.dropWrite else σ) with
      shell := if σ.created then .unlink else .done, fds := { σ.fds with writeFd := false } }
  | .unlink => some { σ with pipe := { σ.pipe with unlinked := true }, shell := .done }
  | .done => none

/-- The next section of the left command. Its standard output and `read_fd` are the pipe, and
it does not look at the result of a write. -/
def stepLeft (σ : Pipeline) (succeeds : Bool) : Option Pipeline :=
  match σ.left with
  | .running [] => some ({ σ with left := .exited }.dropWrite.dropRead)
  | .running (src :: writes) =>
    if src = [] then some { σ with left := .running writes }
    else match σ.pipe.writeSection src with
      | .transfer c _ reader =>
        some { (if reader.isSome then σ.wakeRight else σ) with pipe := c, left := .running writes }
      | .epipe => some { σ with left := .running writes }
      | .block => some { σ with left := .alloc src writes }
  | .alloc src writes =>
    if succeeds then
      match σ.pipe.writeRecheck ⟨0, leftSlot⟩ with
      | .sleep c => some { σ with pipe := c, left := .blocked src writes }
      | _ => some { σ with left := .running (src :: writes) }
    else some { σ with left := .running writes }
  | _ => none

/-- The next section of the right command, which reads `n` bytes at a time. -/
def stepRight (σ : Pipeline) (n : Nat) (succeeds : Bool) : Option Pipeline :=
  match σ.right with
  | .running =>
    if n = 0 then none
    else match σ.pipe.readSection n with
      | .transfer c _ writer =>
        some { (if writer.isSome then σ.wakeLeft else σ) with pipe := c }
      | .eof => some ({ σ with right := .exited }.dropRead)
      | .block => some { σ with right := .alloc }
  | .alloc =>
    if succeeds then
      match σ.pipe.readRecheck ⟨0, rightSlot⟩ with
      | .sleep c => some { σ with pipe := c, right := .blocked }
      | _ => some { σ with right := .running }
    else some ({ σ with right := .exited }.dropRead)
  | _ => none

/-- One step of a pipeline whose left command makes the given writes. -/
def step (writes : List (List UInt8)) (σ : Pipeline) : PipelineEvent → Option Pipeline
  | .shell succeeds => σ.stepShell writes succeeds
  | .left succeeds => σ.stepLeft succeeds
  | .right n succeeds => σ.stepRight n succeeds

/-- The left command is blocked in `kpipe_write` while the shell waits for it to end. -/
def Deadlock (σ : Pipeline) : Prop :=
  σ.shell = .waitLeft ∧ ∃ src writes, σ.left = .blocked src writes

/-- Every write that is not empty starts while fewer than `pipeCap` bytes of output precede it,
of which there are `n` before the given writes. -/
def fits (n : Nat) : List (List UInt8) → Bool
  | [] => true
  | src :: writes => (decide (src = []) || decide (n < pipeCap)) && fits (n + src.length) writes

end Pipeline

end TP2Kernel
