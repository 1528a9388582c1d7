import TP2Kernel.Proc
import TP2Kernel.Invariants

/-!
# What kernel code does to a process

Every function of `proc.c`, `pipe.c`, `semaphore.c` and `fd.c` changes the process table
through a few kinds of action: reaping a zombie, waking a blocked process, marking a
process `EXITED`, setting up a new one, blocking or renicing one, and writes that the
scheduler does not see. `Act` lists them with what each one may change; `Steps` is a
sequence of them. A `Scope` says to which processes a sequence may do which action.
-/

namespace TP2Kernel
open Function

/-- Two PCBs that agree on what the scheduler and the family links read. -/
def SameSched (c c' : Pcb) : Prop :=
  c' = { c with
    name := c'.name, fg := c'.fg, ticksLeft := c'.ticksLeft, exitCode := c'.exitCode
    waitingFor := c'.waitingFor, waitRes := c'.waitRes, pendingExitPid := c'.pendingExitPid
    pendingExitCode := c'.pendingExitCode, pendingExitValid := c'.pendingExitValid
    zombieReapable := c'.zombieReapable, fdTable := c'.fdTable }

/-- The same results of finished children. -/
def SameResults (c c' : Pcb) : Prop :=
  c'.waitRes = c.waitRes ∧ c'.pendingExitPid = c.pendingExitPid ∧
    c'.pendingExitCode = c.pendingExitCode ∧ c'.pendingExitValid = c.pendingExitValid

/-- The kernels agree on the scheduler's variables and on the semaphores. -/
def SameQueues (k k' : Kernel) : Prop :=
  k' = { k with
    procs := k'.procs, cleanupNext := k'.cleanupNext, childHead := k'.childHead
    siblingNext := k'.siblingNext, nextPid := k'.nextPid, zombieHead := k'.zombieHead
    heap := k'.heap, files := k'.files, tables := k'.tables, stdinFile := k'.stdinFile
    stdoutFile := k'.stdoutFile, stderrFile := k'.stderrFile, pipes := k'.pipes
    pipeBuckets := k'.pipeBuckets, tty := k'.tty }

/-- The stack at block `a` has been freed. -/
def StackFreed (k : Kernel) (a : Nat) : Prop := ⟨.stack, a⟩ ∈ k.heap.freed

/-- Only the processes in `X` change for the scheduler, for their parents and in the family
links. -/
structure Off (X : Slot → Prop) (k k' : Kernel) : Prop where
  queues : SameQueues k k'
  procs : ∀ p, ¬X p → SameSched (k.procs p) (k'.procs p)
  links : ∀ p, ¬X p → k'.childHead p = k.childHead p ∧ k'.siblingNext p = k.siblingNext p
  results : ∀ p, ¬X p → (k.procs p).state ≠ .exited → SameResults (k.procs p) (k'.procs p)
  waiting : ∀ p, (k'.procs p).waitingFor = (k.procs p).waitingFor ∨ (k'.procs p).waitingFor = 0
  next : k.heap.next ≤ k'.heap.next
  fails : k'.heap.fails = k.heap.fails
  freed : ∀ a, StackFreed k' a → StackFreed k a ∨ (k.heap.next ≤ a ∧ a < k'.heap.next) ∨
    ∃ p, X p ∧ (k.procs p).kstackBase = some a

/-- Nothing changes that another process could notice. -/
abbrev Still : Kernel → Kernel → Prop := Off fun _ => False

/-- What a sequence of actions may do beside reaping zombies. `moved` are the processes that
others block or renice; `demotes` allows `proc_nice` on the running process, which is no action
because it takes the processor from it. -/
structure Scope where
  woken : Slot → Prop
  terminated : Slot → Prop
  noted : Slot → Prop
  moved : Slot → Prop
  kin : Prop
  sems : Prop
  fresh : Prop
  demotes : Prop

/-- A scope allows what another one does. -/
structure Scope.Sub (s s' : Scope) : Prop where
  woken : ∀ p, s.woken p → s'.woken p
  terminated : ∀ p, s.terminated p → s'.terminated p
  noted : ∀ p, s.noted p → s'.noted p
  moved : ∀ p, s.moved p → s'.moved p
  kin : s.kin → s'.kin
  sems : s.sems → s'.sems
  fresh : s.fresh → s'.fresh
  demotes : s.demotes → s'.demotes

/-- The part of a scope that reaping zombies may need. -/
def Scope.reaping (s : Scope) : Scope where
  woken := s.woken
  terminated _ := False
  noted _ := False
  moved _ := False
  kin := False
  sems := False
  fresh := False
  demotes := False

/-- A process taken off the ready queues if it is on them. -/
def unready (k : Kernel) (p : Slot) : Kernel :=
  if (k.procs p).state = .ready then schedRemove k p else k

inductive Act (s : Scope) : Kernel → Kernel → Prop
  /-- Writes that no other process notices. -/
  | still {k k' : Kernel} (h : Still k k') : Act s k k'
  /-- The results kept for `p` change. -/
  | note {k k' : Kernel} (p : Slot) (hs : s.noted p) (h : Off (· = p) k k')
      (hp : SameSched (k.procs p) (k'.procs p))
      (hl : k'.childHead p = k.childHead p ∧ k'.siblingNext p = k.siblingNext p)
      (hf : ∀ a, StackFreed k' a → StackFreed k a) : Act s k k'
  /-- The links between parents and children change, and the parent of orphans. -/
  | kin {k k' : Kernel} (hs : s.kin) (h : SameQueues k k') (hh : k'.heap = k.heap)
      (hp : ∀ p, ∃ parent, k'.procs p = { k.procs p with parentPid := parent })
      (hl : ∀ c, Linked k' c → Linked k c ∨ (k.procs c).state = .new) : Act s k k'
  /-- The semaphores change. -/
  | sems {k k' : Kernel} (hs : s.sems)
      (h : k' = { k with sems := k'.sems, semBuckets := k'.semBuckets, semHandles := k'.semHandles,
                         heap := k'.heap })
      (hn : k.heap.next ≤ k'.heap.next) (hf : k'.heap.fails = k.heap.fails)
      (hst : ∀ a, StackFreed k' a → StackFreed k a) : Act s k k'
  /-- The stack or the slot of a terminated process is released. -/
  | reap {k k' : Kernel} (p : Slot) (he : (k.procs p).state = .exited)
      (h : Off (· = p) k k')
      (hp : SameSched { k.procs p with
        kstackBase := (k'.procs p).kstackBase, used := (k'.procs p).used } (k'.procs p))
      (hu : (k'.procs p).used → (k.procs p).used)
      (hl : (k'.childHead p = k.childHead p ∨ k'.childHead p = none) ∧
        (k'.siblingNext p = k.siblingNext p ∨ k'.siblingNext p = none))
      (hst : (k'.procs p).kstackBase = none ∨
        ((k'.procs p).kstackBase = (k.procs p).kstackBase ∧
          ∀ a, StackFreed k' a → StackFreed k a)) : Act s k k'
  /-- A blocked process is made `READY`. -/
  | wake {k : Kernel} (p : Slot) (hs : s.woken p) (hu : (k.procs p).used)
      (hb : (k.procs p).state = .blocked) :
      Act s k (schedEnqueue (k.modify p fun c =>
        { c with state := .ready, ticksLeft := timeSliceTicks, agingTicks := 0 }) p)
  /-- A process is marked `EXITED`. -/
  | retire {k k' : Kernel} (p : Slot) (hs : s.terminated p) (he : (k.procs p).state ≠ .exited)
      (h : Off (· = p) (unready k p) k')
      (hp : SameSched { k.procs p with
        state := .exited, parentPid := (k'.procs p).parentPid } (k'.procs p))
      (hl : k'.childHead p = k.childHead p ∧ k'.siblingNext p = k.siblingNext p)
      (hst : ∀ a, StackFreed k' a → StackFreed k a) : Act s k k'
  /-- A free slot is claimed, and set up for a new process or given back. -/
  | draft {k k' : Kernel} (p : Slot) (hs : s.fresh) (hu : (k.procs p).used = false)
      (hc : k.current ≠ some p) (hi : k.idleProc ≠ some p)
      (h : Off (· = p) { k with queueNext := update k.queueNext p none } k')
      (hl : k'.childHead p = none ∧ k'.siblingNext p = none)
      (hp : (k'.procs p).state = .new)
      (hused : (k'.procs p).used → (k'.procs p).kframe = some ⟨p, .trampoline⟩ ∧
        (0 ≤ (k'.procs p).priority ∧ (k'.procs p).priority ≤ 3) ∧
        (k'.procs p).basePriority = (k'.procs p).priority ∧
        ∃ a, (k'.procs p).kstackBase = some a ∧ k.heap.next ≤ a ∧ a < k'.heap.next ∧
          (StackFreed k' a → StackFreed k a))
      (hfree : (k'.procs p).used = false → (k'.procs p).kstackBase = none) : Act s k k'
  /-- A new process enters the ready queues. -/
  | enter {k : Kernel} (p : Slot) (hu : (k.procs p).used)
      (hn : (k.procs p).state = .new) (hf : (k.procs p).kframe ≠ none)
      (hi : k.idleProc ≠ some p) : Act s k (schedEnqueue k p)
  /-- A process that is not running is blocked by another one. -/
  | suspend {k : Kernel} (p : Slot) (hs : s.moved p) (hi : k.idleProc ≠ some p)
      (hc : k.current ≠ some p) (he : (k.procs p).state ≠ .exited) :
      Act s k ((unready k p).modify p fun c => { c with state := .blocked, ticksLeft := 0 })
  /-- The base priority changes. -/
  | rebase {k : Kernel} (p : Slot) (prio : Int) (hs : s.moved p) (h0 : 0 ≤ prio) (h3 : prio ≤ 3) :
      Act s k (k.modify p fun c => { c with basePriority := prio, agingTicks := 0 })
  /-- The priority of a process outside the ready queues changes. -/
  | reprio {k : Kernel} (p : Slot) (prio : Int) (hs : s.moved p) (h0 : 0 ≤ prio) (h3 : prio ≤ 3)
      (hn : (k.procs p).state ≠ .ready) :
      Act s k (k.modify p fun c => { c with priority := prio })
  /-- A queued process moves to the queue of a new priority. -/
  | requeue {k : Kernel} (p : Slot) (prio : Int) (hs : s.moved p) (h0 : 0 ≤ prio) (h3 : prio ≤ 3)
      (hu : (k.procs p).used) (hn : (k.procs p).state = .ready) :
      Act s k (schedEnqueue ((schedRemove k p).modify p fun c => { c with priority := prio }) p)

/-- A sequence of actions. -/
def Steps (s : Scope) : Kernel → Kernel → Prop := Relation.ReflTransGen (Act s)

end TP2Kernel
