import TP2Kernel.Sched

/-!
# Invariants of the process table

What the scheduler's data structures mean: the ready queues as lists, the states and
priorities that belong to them, and the list of zombies.
-/

namespace TP2Kernel
open LinkedList

/-- The ready queues hold the lists `q`, which share no process. -/
structure ReadyQueues (k : Kernel) (q : Fin maxPrios → List Slot) : Prop where
  queue : ∀ l, IsQueue k.queueNext (k.readyHead l) (k.readyTail l) (q l)
  disjoint : ∀ l l', l ≠ l' → ∀ p ∈ q l, p ∉ q l'

/-- A priority that has a ready queue. -/
def PrioInRange (prio : Int) : Prop := minPrio ≤ prio ∧ prio ≤ highestPrio

/-- The ready queues hold exactly the `READY` processes, each in the queue of its priority,
except for the processes in `X`, which are in no queue. -/
structure QueuedOff (X : Slot → Prop) (k : Kernel) (q : Fin maxPrios → List Slot) : Prop where
  queues : ReadyQueues k q
  ready : ∀ p, (∃ l, p ∈ q l) ↔ ¬X p ∧ (k.procs p).used ∧ (k.procs p).state = .ready
  place : ∀ l, ∀ p ∈ q l, (k.procs p).priority = ((l : Nat) : Int)
  notIdle : ∀ i, k.idleProc = some i → ∀ l, i ∉ q l
  range : ∀ p, (k.procs p).used →
    PrioInRange (k.procs p).priority ∧ PrioInRange (k.procs p).basePriority
  frame : ∀ l, ∀ p ∈ q l, (k.procs p).kframe ≠ none

/-- The ready queues are consistent with the process table. -/
def Consistent (k : Kernel) : Prop := ∃ q, QueuedOff (fun _ => False) k q

/-- A process that is used and not `EXITED`. -/
def Live (k : Kernel) (p : Slot) : Prop := (k.procs p).used ∧ (k.procs p).state ≠ .exited

instance (k : Kernel) (p : Slot) : Decidable (Live k p) :=
  inferInstanceAs (Decidable ((k.procs p).used = true ∧ (k.procs p).state ≠ .exited))

/-- The scheduler is started, or a process that is not waiting for anything is current. -/
def SchedulerOn (k : Kernel) : Prop :=
  k.schedulerEnabled = true ∨ ∃ c, k.current = some c ∧
    (((k.procs c).used ∧ (k.procs c).state = .running) ∨ (k.procs c).state = .exited)

/-- What the functions of the kernel rely on when they change the state of a process. -/
structure Sound (k : Kernel) : Prop where
  consistent : Consistent k
  frame : ∀ p, Live k p → (k.procs p).kframe ≠ none
  idle : ∀ i, k.idleProc = some i → (k.procs i).state ≠ .blocked
  on : SchedulerOn k

/-- Some family link leads to `c`. -/
def Linked (k : Kernel) (c : Slot) : Prop := ∃ p, k.childHead p = some c ∨ k.siblingNext p = some c

/-- `c` is on the list of children of `p`. -/
inductive OnChildList (k : Kernel) (p : Slot) : Slot → Prop
  | head {c : Slot} (h : k.childHead p = some c) : OnChildList k p c
  | next {c d : Slot} (hc : OnChildList k p c) (h : k.siblingNext c = some d) : OnChildList k p d

/-- The zombie list holds the terminated processes `zl`. -/
structure Zombies (k : Kernel) (zl : List Slot) : Prop where
  chain : IsChain k.cleanupNext k.zombieHead zl
  exited : ∀ p ∈ zl, (k.procs p).state = .exited

end TP2Kernel
