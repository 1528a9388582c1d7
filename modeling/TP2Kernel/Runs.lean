import TP2Kernel.System
import TP2Kernel.Invariants
import TP2Kernel.PidCalls

/-!
# Steps of a run

What the theorems about runs ask of the steps of a run. A process is killed by the system
call and by Ctrl-C, and the children of the killed process are terminated with it.
-/

namespace TP2Kernel

/-- The pid that an event passes to `proc_kill`. -/
def Event.victim (k : Kernel) : Event → Option Int
  | .syscall (.kill pid) => some pid
  | .key c => if c = 3 then some (procGetForegroundPid k) else none
  | _ => none

/-- `p` is another process than the executing one and the idle one, and has the pid that the
event passes to `proc_kill`. -/
def Event.KillsOther (σ : System) (e : Event) (p : Slot) : Prop :=
  (σ.k.procs p).used ∧ e.victim σ.k = some (σ.k.procs p).pid ∧ p ≠ σ.exec ∧
    σ.k.idleProc ≠ some p

/-- The event does not kill another process on whose list of children the executing process
is. -/
def SparesCaller (σ : System) (e : Event) : Prop :=
  ∀ p, e.KillsOther σ p → ¬OnChildList σ.k p σ.exec

/-- The event neither kills the parent of the executing process nor changes the priority of
the executing process. -/
def KeepsCurrent (σ : System) (e : Event) : Prop :=
  SparesCaller σ e ∧ ∀ pid newPrio, e = .syscall (.nice pid newPrio) →
    (σ.k.procs σ.exec).pid = pid → (σ.k.procs σ.exec).priority = clampPrio newPrio

/-- The event is not one by which the executing process terminates itself. -/
def Event.Returns (σ : System) (e : Event) : Prop :=
  (∀ code, e ≠ .syscall (.exit code)) ∧
    ∀ pid, e.victim σ.k = some pid → (σ.k.procs σ.exec).pid ≠ pid

/-- The event terminates `p` directly: `p` is the current process and exits, or it is killed. -/
def Event.Terminates (σ : System) (e : Event) (p : Slot) : Prop :=
  ((∃ code, e = .syscall (.exit code)) ∧ σ.k.current = some p) ∨
    ((σ.k.procs p).used ∧ e.victim σ.k = some (σ.k.procs p).pid ∧ σ.k.idleProc ≠ some p)

/-- A process is created only under a pid that is not in use. -/
def CreatesFresh (σ : System) (e : Event) : Prop :=
  ∀ entry name prio fg, e = .syscall (.createProcess (some entry) (some name) prio fg) →
    FreshPid σ.k

/-! ### Semaphore handles -/

/-- Every handle in use is owned by a live process. -/
def HandlesOwned (k : Kernel) : Prop :=
  ∀ i h, k.semHandles i = some h → ∃ p, Live k p ∧ (k.procs p).pid = h.ownerPid

/-- The processes that the event terminates beside the current one hold no handle. -/
def SparesHolders (σ : System) (e : Event) : Prop :=
  ∀ p x, e.Terminates σ p → x = p ∨ OnChildList σ.k p x → Live σ.k x → σ.k.current ≠ some x →
    ∀ i h, σ.k.semHandles i = some h → h.ownerPid ≠ (σ.k.procs x).pid

/-! ### Blocked processes -/

/-- No wake-up for a process with this pid is pending: none is queued on a semaphore, a pipe or
the terminal, and none waits for a child. -/
structure Unawaited (k : Kernel) (pid : Int) : Prop where
  sems : ∀ s, ∀ w ∈ (k.sems s).waiters, (k.procs w.proc).pid ≠ pid
  readers : ∀ p, ∀ w ∈ (k.pipes p).rWaiters, (k.procs w.proc).pid ≠ pid
  writers : ∀ p, ∀ w ∈ (k.pipes p).wWaiters, (k.procs w.proc).pid ≠ pid
  tty : ∀ w ∈ k.tty.waiters, (k.procs w.proc).pid ≠ pid
  children : ∀ p, (k.procs p).used → (k.procs p).pid = pid → (k.procs p).waitingFor = 0

/-- `proc_block` returns 0 for `p`, a live process that is not the caller. -/
structure BlocksOther (σ : System) (pid : Int) (p : Slot) (σ' : System) : Prop where
  live : Live σ.k p
  named : (σ.k.procs p).pid = pid
  other : p ≠ σ.exec
  ret : (syscall σ.k σ.exec (.block pid)).2 = .ret 0
  step : System.step σ (.syscall (.block pid)) = some σ'

/-- Nothing else than the block is in force: the pid is that of `p` only, and no wake-up for it
is pending. -/
def OnlyBlocked (k : Kernel) (pid : Int) (p : Slot) : Prop :=
  (∀ q, (k.procs q).used → (k.procs q).pid = pid → q = p) ∧ Unawaited k pid

/-- The event is not a `sys_unblock` of this pid, and creates no process under it. -/
def LeavesBlocked (pid : Int) (σ : System) (e : Event) : Prop :=
  e ≠ .syscall (.unblock pid) ∧ ∀ entry name prio fg,
    e = .syscall (.createProcess (some entry) (some name) prio fg) → σ.k.nextPid ≠ pid

/-! ### Waiting for the processor -/

/-- The call ends in the scheduler. -/
def Outcome.yields : Outcome → Bool
  | .load _ => true
  | _ => false

/-- What the kernel code of an event returns, the timer interrupt apart. -/
def System.outcome (σ : System) : Event → Option (Kernel × Outcome)
  | .syscall c =>
    if σ.cpu.pc.isUser ∧ σ.k.idleProc ≠ some σ.exec then some (TP2Kernel.syscall σ.k σ.exec c)
    else none
  | .resume => TP2Kernel.resume σ.k σ.exec σ.cpu.pc
  | .tick => none
  | .key c => if σ.cpu.pc.interruptible then some (ttyPushChar σ.k σ.exec c) else none

/-- The event calls `schedule`, and the call gets to `apply_aging`. -/
def System.reselects (σ : System) : Event → Bool
  | .tick => σ.k.schedulerEnabled && σ.k.current.any fun c =>
      !decide ((σ.k.procs c).state = .running ∧ 1 < (σ.k.procs c).ticksLeft)
  | e => (σ.outcome e).any fun r => r.2.yields && decide (r.1.bailouts = σ.k.bailouts)

/-- The aging of every process that waits below the highest level is below the threshold. -/
def AgesBelow (k : Kernel) : Prop :=
  ∀ p, (k.procs p).used → (k.procs p).state = .ready → (k.procs p).priority < highestPrio →
    0 ≤ (k.procs p).agingTicks ∧ (k.procs p).agingTicks < agingThreshold

/-- How long a queued process still waits at most: until it reaches the highest level, and then
its position there. -/
def rank (k : Kernel) (p : Slot) : Int :=
  if (k.procs p).priority < highestPrio then
    (highestPrio - (k.procs p).priority) * agingThreshold - (k.procs p).agingTicks + maxProcs
  else ((LinkedList.follow k.queueNext maxProcs (k.readyHead 3)).idxOf p : Nat)

/-- `p` is queued. -/
def Waiting (k : Kernel) (p : Slot) : Prop := (k.procs p).used ∧ (k.procs p).state = .ready

/-- The event neither blocks nor renices `p`, and does not terminate it. -/
structure LeavesAlone (p : Slot) (σ : System) (e : Event) : Prop where
  block : e ≠ .syscall (.block (σ.k.procs p).pid)
  nice : ∀ newPrio, e ≠ .syscall (.nice (σ.k.procs p).pid newPrio)
  terminate : ∀ q, e.Terminates σ q → p ≠ q ∧ ¬OnChildList σ.k q p

/-- The event leaves `p` alone and does not dispatch it. -/
def PassesBy (p : Slot) (σ : System) (e : Event) : Prop :=
  LeavesAlone p σ e ∧ ∀ σ', σ.step e = some σ' → σ'.k.current ≠ some p

/-! ### The foreground -/

/-- The terminal has no foreground, or names a live process. -/
def ForegroundLive (k : Kernel) : Prop :=
  k.tty.fgPid = -1 ∨ ∃ p, Live k p ∧ (k.procs p).pid = k.tty.fgPid

/-- At most one live process has the flag, and a live process that the terminal names has it. -/
structure OneForeground (k : Kernel) : Prop where
  unique : ∀ p q, Live k p → Live k q → (k.procs p).fg = true → (k.procs q).fg = true → p = q
  named : ∀ p, 0 < k.tty.fgPid → Live k p → (k.procs p).pid = k.tty.fgPid → (k.procs p).fg = true

/-- The termination of a process that the terminal does not name leaves the terminal to the live
process that it names. -/
def KeepsTerminal (σ : System) (e : Event) (k' : Kernel) : Prop :=
  ∀ p q, e.Terminates σ p → Live σ.k p → (σ.k.procs p).pid ≠ σ.k.tty.fgPid → Live σ.k q →
    (σ.k.procs q).pid = σ.k.tty.fgPid → k'.tty.fgPid = σ.k.tty.fgPid

/-- Who has the terminal after `p` is terminated: its live parent if `p` was in the foreground,
or the main shell if there is no such parent and another process kills `p`; otherwise the process
that has it already. -/
def heir (k : Kernel) (p : Slot) (killed : Bool) : Option Slot :=
  if (k.procs p).fg then
    (liveParent k (k.procs p).parentPid).or
      (if killed then (findShell k).filter fun q => !(decide (q = p) && k.current == some p) else none)
  else procByPid k k.tty.fgPid

/-- The process that has the terminal after a termination is not terminated with it. -/
def SparesHeir (σ : System) (e : Event) : Prop :=
  ∀ p q, e.Terminates σ p → heir σ.k p (e.victim σ.k).isSome = some q →
    q ≠ p ∧ ¬OnChildList σ.k p q

/-- A process that is created in the foreground finds no live process there, and one that is
created in the background does not get the pid that the terminal names. -/
def CreatesApart (σ : System) (e : Event) : Prop :=
  ∀ entry name prio fg, e = .syscall (.createProcess (some entry) (some name) prio fg) →
    HasRoom (collectZombies σ.k) →
      if fg then ∀ p, Live σ.k p → (σ.k.procs p).fg = false else σ.k.nextPid ≠ σ.k.tty.fgPid

end TP2Kernel
