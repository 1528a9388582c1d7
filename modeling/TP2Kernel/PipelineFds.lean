import TP2Kernel.FdCalls
import TP2Kernel.Printf
import TP2Kernel.Shell

/-!
# The descriptors of a pipeline

The calls that `execute_pipe` of `sh.c` makes on the shell's own descriptor table, with its
gotos. The commands are other processes, which may make any calls until the shell goes on.
-/

namespace TP2Kernel

/-! ### Calls on a table -/

namespace FdSystem

/-- A call of the kernel that leaves the existence of tables alone. -/
def onKernel (σ : FdSystem) (r : Kernel × Int) : FdSystem × Int := ({ σ with k := r.1 }, r.2)

def dup2 (t : Nat) (σ : FdSystem) (oldfd newfd : Int) : FdSystem × Int :=
  σ.onKernel (fdTableDup2 wake σ.k t oldfd newfd)

/-- `sys_close_fd` and `sys_pipe_close`. -/
def closeFd (t : Nat) (σ : FdSystem) (fd : Int) : FdSystem × Int :=
  σ.onKernel (fdTableClose wake σ.k t fd)

def pipeOpen (t : Nat) (σ : FdSystem) (name : CStr) (flags : Nat) : FdSystem × Int :=
  σ.onKernel (tablePipeOpen σ.k t name flags)

def pipeUnlink (σ : FdSystem) (name : CStr) : FdSystem × Int := σ.onKernel (kpipeUnlink σ.k name)

/-- What happens while the process with the table `t` does not run, or makes no call on it. -/
def Outside (t : Nat) (σ : FdSystem) : FdEvent → Prop
  | .call _ _ => ∀ y, callerTable σ.k = some y → y.2 ≠ t
  | .destroy t' => t' ≠ t
  | .elsewhere k' _ => Bare k'
  | .clone _ | .attachStd => True

/-- `σ'` comes after `σ` without a call on the table `t`. -/
def OutsideRun (t : Nat) (σ σ' : FdSystem) : Prop :=
  Transition.Reach (· = σ) FdSystem.step (Outside t) σ'

end FdSystem

open FdSystem

/-! ### The commands -/

/-- What the commands of a pipeline do to the system while the shell with the table `t` waits for
them or runs them itself: `spawn` is `spawn_pipeline_process`, with its result. -/
structure PipelineEnv (t : Nat) where
  spawn : CStr → FdSystem → FdSystem × Int
  builtin : CStr → CStr → FdSystem → FdSystem
  spawnOutside : ∀ cmd σ, OutsideRun t σ (spawn cmd σ).1
  builtinOutside : ∀ cmd param σ, OutsideRun t σ (builtin cmd param σ)

/-- The commands of a pipeline that are processes of their own. -/
def spawnedCommands : List String := ["cat", "wc", "filter"]

/-- The commands of a pipeline that are functions of the shell. -/
def builtinCommands : List String :=
  ["echo", "ps", "help", "ls", "mem", "loop", "time", "mvar", "test_mm", "test_processes",
    "test_priority", "test_synchro", "test_no_synchro"]

/-- `cmd` is one of these names. -/
def isCommand (names : List String) (cmd : CStr) : Bool :=
  names.any fun name => decide (name.toUTF8.toList = cmd)

/-- `run_pipeline_command`. -/
def runPipelineCommand {t : Nat} (env : PipelineEnv t) (cmd param : CStr) (σ : FdSystem) :
    FdSystem × Int :=
  if cmd = [] then (σ, -1)
  else if isCommand spawnedCommands cmd then env.spawn cmd σ
  else if isCommand builtinCommands cmd then (env.builtin cmd param σ, 0)
  else (σ, -1)

/-! ### The pipeline -/

/-- `SHELL_STDIN`. -/
def shellStdin : Int := 0

/-- `SHELL_STDOUT`. -/
def shellStdout : Int := 1

/-- `SHELL_BACKUP_STDIN`. -/
def shellBackupStdin : Int := 60

/-- `SHELL_BACKUP_STDOUT`. -/
def shellBackupStdout : Int := 61

/-- `sprintf(pipe_name, "tmp_pipe_%d", seq)`, on a stack of zeros. -/
def tmpPipeName (seq : Int32) : CStr :=
  match Stdio.sprintf ⟨fun _ => 0, fun _ _ => 0⟩ ⟨fun _ => 0, 32, true⟩
      "tmp_pipe_%d".toUTF8.toList [.int seq] with
  | some (pipeName, _) => CString.read pipeName.mem 0 32
  | none => []

/-- Restore a standard stream from its backup, and close that. -/
def restoreStream (t : Nat) (backup stream : Int) (σ : FdSystem) : FdSystem :=
  if 0 ≤ backup then (closeFd t (dup2 t σ backup stream).1 backup).1 else σ

/-- Close a descriptor of the pipe that is still open. -/
def closeOpen (t : Nat) (fd : Int) (σ : FdSystem) : FdSystem :=
  if 0 ≤ fd then (closeFd t σ fd).1 else σ

/-- The variables of `execute_pipe` that the label `cleanup` reads. -/
structure PipelineVars where
  backupIn : Int
  backupOut : Int
  writeFd : Int
  readFd : Int
  pipeCreated : Bool

/-- `execute_pipe` from the label `cleanup` on. -/
def pipelineCleanup (t : Nat) (name : CStr) (v : PipelineVars) (σ : FdSystem) : FdSystem :=
  let σ := restoreStream t v.backupIn shellStdin σ
  let σ := restoreStream t v.backupOut shellStdout σ
  let σ := closeOpen t v.readFd σ
  let σ := closeOpen t v.writeFd σ
  if v.pipeCreated then (σ.pipeUnlink name).1 else σ

section Execute

variable {t : Nat} (env : PipelineEnv t) (name : CStr) (left right : CStr × CStr)

/-- `execute_pipe` behind `backup_out = -1`: `status` is the result of the left command. -/
def pipelineRight (v : PipelineVars) (status : Int) (σ : FdSystem) : FdSystem :=
  if status = 0 then
    match dup2 t σ v.readFd shellStdin with
    | (σ, r) =>
      if r < 0 then pipelineCleanup t name v σ
      else
        let σ := (closeFd t σ v.readFd).1
        let σ := (runPipelineCommand env right.1 right.2 σ).1
        pipelineCleanup t name { v with readFd := -1 } σ
  else pipelineCleanup t name v σ

/-- `execute_pipe` behind `pipe_created = 1`. -/
def pipelineLeft (v : PipelineVars) (σ : FdSystem) : FdSystem :=
  match dup2 t σ v.writeFd shellStdout with
  | (σ, r) =>
    if r < 0 then pipelineCleanup t name v σ
    else
      let σ := (closeFd t σ v.writeFd).1
      let (σ, r) := runPipelineCommand env left.1 left.2 σ
      let status := if r < 0 then -1 else 0
      let σ := restoreStream t v.backupOut shellStdout σ
      pipelineRight env name right { v with backupOut := -1, writeFd := -1 } status σ

/-- `execute_pipe` behind its two backups. -/
def pipelineOpen (v : PipelineVars) (σ : FdSystem) : FdSystem :=
  match pipeOpen t σ name 2 with
  | (σ, writeFd) =>
    if writeFd < 0 then pipelineCleanup t name { v with writeFd := writeFd } σ
    else match pipeOpen t σ name 1 with
      | (σ, readFd) =>
        if readFd < 0 then
          pipelineCleanup t name { v with writeFd := writeFd, readFd := readFd } σ
        else
          pipelineLeft env name left right
            { v with writeFd := writeFd, readFd := readFd, pipeCreated := true } σ

/-- `execute_pipe` behind the parsing. -/
def pipelineBody (σ : FdSystem) : FdSystem :=
  match dup2 t σ shellStdin shellBackupStdin with
  | (σ, backupIn) =>
    if backupIn < 0 then pipelineCleanup t name ⟨backupIn, -1, -1, -1, false⟩ σ
    else match dup2 t σ shellStdout shellBackupStdout with
      | (σ, backupOut) =>
        if backupOut < 0 then pipelineCleanup t name ⟨backupIn, backupOut, -1, -1, false⟩ σ
        else pipelineOpen env name left right ⟨backupIn, backupOut, -1, -1, false⟩ σ

end Execute

/-- `execute_pipe` with `pipe_seq`: the system when it returns and the name of the temporary
pipe, `none` for lines that it refuses. -/
def executePipe {t : Nat} (env : PipelineEnv t) (seq : Int32) (leftLine rightLine : CStr)
    (σ : FdSystem) : FdSystem × Option CStr :=
  let (l, leftCmd) := parseCommandLine leftLine
  let (r, rightCmd) := parseCommandLine rightLine
  if l < 0 ∨ r < 0 then (σ, none)
  else (pipelineBody env (tmpPipeName seq) leftCmd rightCmd σ, some (tmpPipeName seq))

/-- What the shell owes when `execute_pipe`, entered in `σ`, has returned in `σ'`. The processes
that it spawned have ended when the other tables are again those of the entry. -/
structure PipelineUndone (t : Nat) (name : Option CStr) (σ σ' : FdSystem) : Prop where
  table : σ'.k.tables t = σ.k.tables t
  refcount : ∀ σ'', OutsideRun t σ' σ'' → σ''.tables = σ.tables →
    (∀ t' ∈ σ.tables, t' ≠ t → σ''.k.tables t' = σ.k.tables t') →
    ∀ f, (σ''.k.files f).refcount = (σ.k.files f).refcount
  unlinked : ∀ n ∈ name, findPipe σ'.k n = none

/-- The number of entries of a table that are not in use. -/
def unusedEntries (k : Kernel) (t : Nat) : Nat :=
  (Finset.univ.filter fun fd => k.tables t fd = none).card

/-- With the name `name` in the state `k` before `execute_pipe`: the pipe itself cannot be
allocated, or the pipe, where it does not exist yet, the files of its two ends and their
descriptors can. -/
def PipelineOpens (k : Kernel) (t : Nat) (name : CStr) : Prop :=
  let n := k.heap.next
  let linked := (findPipe k name).isSome
  let file := if linked then n else n + 1
  (linked = false ∧ k.heap.fails n = true) ∨
    ((linked = true ∨ k.heap.fails n = false) ∧ k.heap.fails file = false ∧
      k.heap.fails (file + 1) = false ∧ 4 ≤ unusedEntries k t)

instance (k : Kernel) (t : Nat) (name : CStr) : Decidable (PipelineOpens k t name) :=
  inferInstanceAs (Decidable (_ ∧ _ ∨ _ ∧ _))

end TP2Kernel
