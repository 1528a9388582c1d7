import TP2Kernel.Syscalls
import TP2Kernel.Lib.Transition

/-!
# The running system

The kernel together with the frame the processor executes. The process whose code is
executing is the owner of that frame, whatever `current` says. Between two events the
processor is at a point where interrupts are enabled, or behind the yield of a system
call, which then runs on without interruption.
-/

namespace TP2Kernel
open Function

/-- The kernel and the frame that the processor is executing. -/
structure System where
  k : Kernel
  cpu : Frame

/-- The process whose code is executing. -/
def System.exec (σ : System) : Slot := σ.cpu.owner

/-- What can happen next. A process ends by the system call or a kill. Behind an entry that returns,
`trampoline` runs `proc_exit` with interrupts enabled, where a tick may leave it unfinished; that is
not among the events. -/
inductive Event
  | syscall (c : Syscall)
  | resume
  | tick
  | key (c : UInt8)

/-- Process code that runs with interrupts enabled and may make system calls. -/
def Pc.isUser : Pc → Bool
  | .user | .trampoline => true
  | _ => false

/-- Code that runs with interrupts enabled. -/
def Pc.interruptible : Pc → Bool
  | .user | .trampoline | .hlt => true
  | _ => false

/-- Where the processor continues after a call. -/
def Outcome.frame (o : Outcome) (back : Frame) : Frame :=
  match o with
  | .load f => f
  | _ => back

/-- The rest of a system call behind its yield. -/
def resume (k : Kernel) (exec : Slot) : Pc → Option (Kernel × Outcome)
  | .wait parent target => some (procWaitResume k parent target)
  | .semWait _ => some (k, .ret 0)
  | .pipeRead p n => some (kpipeReadLoop exec p n 2 k)
  | .pipeWrite p src => some (kpipeWriteLoop exec p src 2 k)
  | .ttyRead n => some (ttyReadLoop exec n 2 k)
  | _ => none

/-- One event. The idle process makes no system calls. -/
def System.step (σ : System) : Event → Option System
  | .syscall c =>
    if σ.cpu.pc.isUser ∧ σ.k.idleProc ≠ some σ.exec then
      let r := TP2Kernel.syscall σ.k σ.exec c
      some ⟨r.1, r.2.frame ⟨σ.exec, .user⟩⟩
    else none
  | .resume =>
    (TP2Kernel.resume σ.k σ.exec σ.cpu.pc).map fun r => ⟨r.1, r.2.frame ⟨σ.exec, .user⟩⟩
  | .tick =>
    if σ.cpu.pc.interruptible then
      let r := schedule σ.k σ.cpu
      some ⟨r.1, r.2.getD σ.cpu⟩
    else none
  | .key c =>
    if σ.cpu.pc.interruptible then
      let r := ttyPushChar σ.k σ.exec c
      some ⟨r.1, r.2.frame σ.cpu⟩
    else none

/-- The kernel before `main`: static data is zero, the terminal has no foreground. -/
def kernelZero (fails : Nat → Bool) : Kernel where
  procs _ := Pcb.zero
  queueNext _ := none
  cleanupNext _ := none
  childHead _ := none
  siblingNext _ := none
  nextPid := 1
  zombieHead := none
  readyHead _ := none
  readyTail _ := none
  schedulerEnabled := false
  current := none
  idleProc := none
  bailouts := 0
  heap := { next := 0, fails := fails, freed := [] }
  files _ := ⟨.tty, false, false, false, 0⟩
  tables _ _ := none
  stdinFile := none
  stdoutFile := none
  stderrFile := none
  pipes _ := ⟨[], ⟨fun _ => 0, 0, 0, 0⟩, 0, 0, false, [], []⟩
  pipeBuckets _ := []
  sems _ := ⟨[], 0, 0, false, false, []⟩
  semBuckets _ := []
  semHandles _ := none
  tty := ⟨⟨fun _ => 0, 0, 0, 0⟩, false, [], -1⟩

/-- `fd_init_std`. -/
def fdInitStd (k : Kernel) : Kernel :=
  let (k, f) := fileCreate k .tty true false
  let k := match f with
    | some f => k.modifyFile f fun c => { c with fgReadGuard := true }
    | none => k
  let k := { k with stdinFile := f }
  let (k, f) := fileCreate k .tty false true
  let k := { k with stdoutFile := f }
  let (k, f) := fileCreate k .tty false true
  { k with stderrFile := f }

/-- `"idle"`. -/
def idleName : CStr := [105, 100, 108, 101]

/-- `sched_init`. -/
def schedInit (k : Kernel) : Kernel :=
  let k := { k with
    readyHead := fun _ => none, readyTail := fun _ => none
    schedulerEnabled := false, current := none, idleProc := none }
  let (k, idlePid) := procCreate k (some 0) minPrio false (some idleName)
  if 0 ≤ idlePid then
    let k := { k with idleProc := procByPid k idlePid }
    match k.idleProc with
    | some idle =>
      let k := schedRemove (k.modify idle fun c => { c with fg := false }) idle
      { k.modify idle fun c => { c with state := .running, ticksLeft := timeSliceTicks } with
        current := some idle }
    | none => k
  else k

/-- `sched_start`. -/
def schedStart (k : Kernel) : Kernel := { k with schedulerEnabled := true }

/-- `main` up to its `hlt` loop. -/
def bootKernel (fails : Nat → Bool) : Kernel :=
  let k := schedInit (fdInitStd (kernelZero fails))
  let (k, _) := procCreate k (some 0) defaultPrio true (some shellName)
  schedStart k

/-- A system that has booted: the heap was empty, so the idle process exists, and `main`
goes on as its code. -/
def Boot (σ : System) : Prop :=
  ∃ fails idle, σ.k = bootKernel fails ∧ σ.k.idleProc = some idle ∧ σ.cpu = ⟨idle, .user⟩

end TP2Kernel
