import TP2Kernel.Proc

/-!
# Terminal input and system calls

The blocking calls of `pipe.c` and `tty.c` on the whole kernel, the terminal input path
of `tty.c`, and the wrappers of `syscalls.c`. A system call enters through an interrupt
gate, so it runs to its return or its yield without interruption; the buffers it is
given are non-null.
-/

namespace TP2Kernel
open Function

/-! ### Pipes -/

/-- The loop of `kpipe_read`. Nothing runs between the two critical sections of one
iteration, so an iteration that retries finds data in the next one. -/
def kpipeReadLoop (exec : Slot) (p n : Nat) : Nat → Kernel → Kernel × Outcome
  | 0, k => (k, .load ⟨exec, .pipeRead p n⟩)
  | i + 1, k =>
    match (k.pipes p).readSection n with
    | .transfer c bytes writer =>
      let k := k.modifyPipe p fun _ => c
      match writer with
      | some w =>
        let k := k.mmFree ⟨.pipeWaiter, w.node⟩
        (wake k (k.procs w.proc).pid, .read bytes)
      | none => (k, .read bytes)
    | .eof => (k, .ret 0)
    | .block =>
      match k.current with
      | none => (k, .ret (-1))
      | some cur =>
        match k.mmMalloc with
        | (k, none) => (k, .ret (-1))
        | (k, some node) =>
          match (k.pipes p).readRecheck ⟨node, cur⟩ with
          | .retry => kpipeReadLoop exec p n i (k.mmFree ⟨.pipeWaiter, node⟩)
          | .eof => (k.mmFree ⟨.pipeWaiter, node⟩, .ret 0)
          | .sleep c => (k.modifyPipe p fun _ => c).blockAndYield cur ⟨exec, .pipeRead p n⟩

/-- `kpipe_read`. -/
def kpipeRead (k : Kernel) (exec : Slot) (p : Nat) (n : Int) : Kernel × Outcome :=
  if n ≤ 0 then (k, .ret (-1)) else kpipeReadLoop exec p n.toNat 2 k

/-- The loop of `kpipe_write`. -/
def kpipeWriteLoop (exec : Slot) (p : Nat) (src : List UInt8) : Nat → Kernel → Kernel × Outcome
  | 0, k => (k, .load ⟨exec, .pipeWrite p src⟩)
  | i + 1, k =>
    match (k.pipes p).writeSection src with
    | .epipe => (k, .ret (-1))
    | .transfer c count reader =>
      let k := k.modifyPipe p fun _ => c
      match reader with
      | some w =>
        let k := k.mmFree ⟨.pipeWaiter, w.node⟩
        (wake k (k.procs w.proc).pid, .ret count)
      | none => (k, .ret count)
    | .block =>
      match k.current with
      | none => (k, .ret (-1))
      | some cur =>
        match k.mmMalloc with
        | (k, none) => (k, .ret (-1))
        | (k, some node) =>
          match (k.pipes p).writeRecheck ⟨node, cur⟩ with
          | .sleep c => (k.modifyPipe p fun _ => c).blockAndYield cur ⟨exec, .pipeWrite p src⟩
          | _ => kpipeWriteLoop exec p src i (k.mmFree ⟨.pipeWaiter, node⟩)

/-- `kpipe_write`. -/
def kpipeWrite (k : Kernel) (exec : Slot) (p : Nat) (src : List UInt8) : Kernel × Outcome :=
  if src = [] then (k, .ret (-1)) else kpipeWriteLoop exec p src 2 k

/-! ### Terminal -/

/-- Write to the terminal. -/
def Kernel.modifyTty (k : Kernel) (f : Tty → Tty) : Kernel := { k with tty := f k.tty }

/-- `dequeue_waiter`. -/
def dequeueWaiter (k : Kernel) : Kernel × Option Slot :=
  match k.tty.waiters with
  | [] => (k, none)
  | w :: ws => ((k.modifyTty fun t => { t with waiters := ws }).mmFree ⟨.ttyWaiter, w.node⟩, some w.proc)

/-- The loop of `tty_read`. -/
def ttyReadLoop (exec : Slot) (n : Nat) : Nat → Kernel → Kernel × Outcome
  | 0, k => (k, .load ⟨exec, .ttyRead n⟩)
  | i + 1, k =>
    if 0 < k.tty.ring.size then
      let toRead := if k.tty.ring.size < n then k.tty.ring.size else n
      let (bytes, ring) := k.tty.ring.takeList toRead
      (k.modifyTty fun t => { t with ring := ring }, .read bytes)
    else if k.tty.eof then (k.modifyTty fun t => { t with eof := false }, .ret 0)
    else match k.current with
      | none => (k, .ret (-1))
      | some cur =>
        match k.mmMalloc with
        | (k, none) => (k, .ret (-1))
        | (k, some node) =>
          if 0 < k.tty.ring.size ∨ k.tty.eof then
            ttyReadLoop exec n i (k.mmFree ⟨.ttyWaiter, node⟩)
          else
            let k := k.modifyTty fun t => { t with waiters := t.waiters ++ [⟨node, cur⟩] }
            k.blockAndYield cur ⟨exec, .ttyRead n⟩

/-- `tty_read`. -/
def ttyRead (k : Kernel) (exec : Slot) (n : Int) : Kernel × Outcome :=
  if n ≤ 0 then (k, .ret (-1)) else ttyReadLoop exec n.toNat 2 k

/-- Wake the process that `dequeue_waiter` returned. -/
def wakeDequeued (k : Kernel) (proc : Option Slot) : Kernel :=
  match proc with
  | some p => wake k (k.procs p).pid
  | none => k

/-- `tty_push_char`, from the keyboard interrupt on the stack of `exec`. -/
def ttyPushChar (k : Kernel) (exec : Slot) (c : UInt8) : Kernel × Outcome :=
  if c = 3 then
    let fgPid := procGetForegroundPid k
    if 0 < fgPid then procKill k exec fgPid else (k, .ret 0)
  else if c = 4 then
    let k := k.modifyTty fun t => { t with eof := true }
    let (k, proc) := dequeueWaiter k
    (wakeDequeued k proc, .ret 0)
  else
    let k := if k.tty.ring.size = ttyBufferCap then
      k.modifyTty fun t => { t with ring := t.ring.drop } else k
    let k := k.modifyTty fun t => { t with ring := t.ring.put c }
    let (k, proc) := dequeueWaiter k
    (wakeDequeued k proc, .ret 0)

/-! ### Wrappers -/

/-- The system calls that reach the kernel's data. -/
inductive Syscall
  | readTty
  | createProcess (entry : Option Nat) (name : Option CStr) (priority : Int) (fg : Bool)
  | kill (pid : Int)
  | block (pid : Int)
  | unblock (pid : Int)
  | nice (pid newPrio : Int)
  | yield
  | waitPid (pid : Int)
  | waitChildren
  | exit (code : Int)
  | getpid
  | procSnapshot (maxCount : Nat)
  | semOpen (name : CStr) (init : Nat)
  | semWait (handle : Int)
  | semPost (handle : Int)
  | semClose (handle : Int)
  | semUnlink (name : CStr)
  | pipeOpen (name : CStr) (flags : Nat)
  | pipeRead (fd n : Int)
  | pipeWrite (fd : Int) (src : List UInt8)
  | pipeUnlink (name : CStr)
  | read (fd n : Int)
  | write (fd : Int) (src : List UInt8)
  | close (fd : Int)
  | dup2 (oldfd newfd : Int)

/-- The process and descriptor table of the caller, where both exist. -/
def callerTable (k : Kernel) : Option (Slot × Nat) :=
  match k.current with
  | none => none
  | some cur => (k.procs cur).fdTable.map fun t => (cur, t)

/-- The file behind a descriptor of the caller. -/
def callerFile (k : Kernel) (fd : Int) : Option (Slot × Nat) :=
  match callerTable k with
  | none => none
  | some (cur, t) => (fdTableGet k t fd).map fun f => (cur, f)

/-- `fd_tty_read`. -/
def fdTtyRead (k : Kernel) (exec cur : Slot) (f : Nat) (n : Int) : Kernel × Outcome :=
  if (k.files f).canRead = false ∨ n ≤ 0 then (k, .ret (-1))
  else if (k.files f).fgReadGuard ∧ k.tty.fgPid ≠ (k.procs cur).pid then (k, .ret eBgInput)
  else ttyRead k exec n

/-- `file->ops->read`. -/
def fileRead (k : Kernel) (exec cur : Slot) (f : Nat) (n : Int) : Kernel × Outcome :=
  match (k.files f).ptr with
  | .tty => fdTtyRead k exec cur f n
  | .pipe p => if (k.files f).canRead then kpipeRead k exec p n else (k, .ret (-1))

/-- `file->ops->write`; writing to the terminal only draws. -/
def fileWrite (k : Kernel) (exec : Slot) (f : Nat) (src : List UInt8) : Kernel × Outcome :=
  if (k.files f).canWrite = false ∨ src = [] then (k, .ret (-1))
  else match (k.files f).ptr with
    | .tty => (k, .ret src.length)
    | .pipe p => kpipeWrite k exec p src

/-- `sys_pipe_open`. -/
def sysPipeOpen (k : Kernel) (name : CStr) (flags : Nat) : Kernel × Int :=
  match callerTable k with
  | none => (k, -1)
  | some (_, t) =>
    let forRead := flags.testBit 0
    let forWrite := flags.testBit 1
    if !forRead && !forWrite then (k, -1)
    else match kpipeOpen k name forRead forWrite with
      | (k, none) => (k, -1)
      | (k, some p) =>
        match fileCreate k (.pipe p) forRead forWrite with
        | (k, none) => (kpipeClose wake k p forRead forWrite, -1)
        | (k, some f) =>
          let (k, fd) := fdTableAllocate k t f
          if fd < 0 then (fileRelease wake k f, fd) else (k, fd)

/-- `sys_sem_open`. -/
def sysSemOpen (k : Kernel) (name : CStr) (init : Nat) : Kernel × Int :=
  match k.current with
  | none => (k, -1)
  | some cur =>
    match ksemOpen k name init with
    | (k, none) => (k, -1)
    | (k, some s) =>
      let (k, handle) := semHandleAllocate k s (k.procs cur).pid
      if handle < 0 then ((ksemClose k s).1, -1) else (k, handle)

/-- A result that always returns to the caller. -/
def returning (r : Kernel × Int) : Kernel × Outcome := (r.1, .ret r.2)

/-- The system call dispatcher, on the kernel stack of `exec`. -/
def syscall (k : Kernel) (exec : Slot) : Syscall → Kernel × Outcome
  | .readTty => ttyRead k exec 1
  | .createProcess entry name priority fg => returning (procCreate k entry priority fg name)
  | .kill pid => procKill k exec pid
  | .block pid => procBlock k exec pid
  | .unblock pid => returning (procUnblock k pid)
  | .nice pid newPrio => procNice k exec pid newPrio
  | .yield => k.yield ⟨exec, .user⟩
  | .waitPid pid => procWait k exec pid
  | .waitChildren => procWait k exec (-1)
  | .exit code => procExit k exec code
  | .getpid => (k, .ret (match k.current with | some cur => (k.procs cur).pid | none => -1))
  | .procSnapshot maxCount =>
    if maxCount = 0 then (k, .ret 0)
    else
      let k := collectZombies k
      (k, .ret (min maxCount ((List.finRange maxProcs).countP fun i => (k.procs i).used) : Nat))
  | .semOpen name init => returning (sysSemOpen k name init)
  | .semWait handle =>
    match semHandlePeek k handle with
    | none => (k, .ret (-1))
    | some s => ksemWait k exec s
  | .semPost handle =>
    match semHandlePeek k handle with
    | none => (k, .ret (-1))
    | some s => returning (ksemPost procUnblock k s)
  | .semClose handle =>
    match semHandleDetach k handle with
    | (k, none) => (k, .ret (-1))
    | (k, some s) => returning (ksemClose k s)
  | .semUnlink name => returning (ksemUnlink k name)
  | .pipeOpen name flags => returning (sysPipeOpen k name flags)
  | .pipeRead fd n =>
    match callerFile k fd with
    | none => (k, .ret (-1))
    | some (cur, f) =>
      if (k.files f).ptr = .tty ∨ (k.files f).canRead = false then (k, .ret (-1))
      else fileRead k exec cur f n
  | .pipeWrite fd src =>
    match callerFile k fd with
    | none => (k, .ret (-1))
    | some (_, f) =>
      if (k.files f).ptr = .tty ∨ (k.files f).canWrite = false then (k, .ret (-1))
      else fileWrite k exec f src
  | .pipeUnlink name => returning (kpipeUnlink k name)
  | .read fd n =>
    match callerFile k fd with
    | none => (k, .ret (-1))
    | some (cur, f) => fileRead k exec cur f n
  | .write fd src =>
    match callerFile k fd with
    | none => (k, .ret (-1))
    | some (_, f) => fileWrite k exec f src
  | .close fd =>
    match callerTable k with
    | none => (k, .ret (-1))
    | some (_, t) => returning (fdTableClose wake k t fd)
  | .dup2 oldfd newfd =>
    match callerTable k with
    | none => (k, .ret (-1))
    | some (_, t) => returning (fdTableDup2 wake k t oldfd newfd)

end TP2Kernel
