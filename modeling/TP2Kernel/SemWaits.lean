import TP2Kernel.Runs

/-!
# Waiting for one semaphore

The running system with the counts of what has happened at one semaphore. A wait is granted
where `ksem_wait` returns 0 at once, and where its caller was blocked in it and no longer is.
-/

namespace TP2Kernel

/-- `p` is blocked in `ksem_wait` on `s`. -/
def AsleepOn (k : Kernel) (s : Nat) (p : Slot) : Prop :=
  (k.procs p).used ∧ (k.procs p).state = .blocked ∧
    (k.procs p).kframe.map Frame.pc = some (.semWait s)

instance (k : Kernel) (s : Nat) (p : Slot) : Decidable (AsleepOn k s p) :=
  inferInstanceAs (Decidable ((k.procs p).used = true ∧ (k.procs p).state = .blocked ∧
    (k.procs p).kframe.map Frame.pc = some (.semWait s)))

/-- The event is a `ksem_wait` on `s`. -/
def Event.waitsOn (k : Kernel) (s : Nat) : Event → Bool
  | .syscall (.semWait handle) => decide (semHandlePeek k handle = some s)
  | _ => false

/-- The event is a `ksem_post` on `s`. -/
def Event.postsOn (k : Kernel) (s : Nat) : Event → Bool
  | .syscall (.semPost handle) => decide (semHandlePeek k handle = some s)
  | _ => false

/-- A run of calls on one semaphore: the posts and the granted waits so far, and whose `ksem_wait`
has blocked and not been granted, in the order in which they blocked. -/
structure SemRun where
  σ : System
  posts : Nat
  granted : Nat
  line : List Slot

namespace SemRun

def step (s : Nat) (r : SemRun) (e : Event) : Option SemRun :=
  (r.σ.step e).map fun σ' =>
    let stay := r.line.filter fun p => decide (AsleepOn σ'.k s p)
    { σ := σ'
      posts := r.posts + if e.postsOn r.σ.k s then 1 else 0
      granted := r.granted + (r.line.length - stay.length) +
        if e.waitsOn r.σ.k s && (r.σ.outcome e).any fun o => decide (o.2 = .ret 0) then 1 else 0
      line := if e.waitsOn r.σ.k s && (r.σ.outcome e).any fun o => o.2.yields
        then stay ++ [r.σ.exec] else stay }

/-- The semaphore has been opened with the initial value `v`, and nobody waits for it. -/
structure Start (s v : Nat) (r : SemRun) : Prop where
  reach : Transition.Reach Boot System.step SparesCaller r.σ
  count : (r.σ.k.sems s).count = v
  waiters : (r.σ.k.sems s).waiters = []
  nobody : ∀ p, ¬AsleepOn r.σ.k s p
  posts : r.posts = 0
  granted : r.granted = 0
  line : r.line = []

end SemRun

/-- A process with this pid is queued on a pipe. -/
def Piped (k : Kernel) (pid : Int) : Prop :=
  ∃ i w, (w ∈ (k.pipes i).rWaiters ∨ w ∈ (k.pipes i).wWaiters) ∧ (k.procs w.proc).pid = pid

/-- No pipe wakes `p`, and no other process is found under its pid. -/
structure Unshared (k : Kernel) (p : Slot) : Prop where
  alone : ∀ q, (k.procs q).used → (k.procs q).pid = (k.procs p).pid → q = p
  unpiped : ¬Piped k (k.procs p).pid

/-- Nothing has been done to the semaphore or to those who are blocked on it. -/
structure LeavesSem (s : Nat) (σ σ' : System) : Prop where
  count : (σ'.k.sems s).count = (σ.k.sems s).count
  waiters : (σ'.k.sems s).waiters = (σ.k.sems s).waiters
  asleep : ∀ p, AsleepOn σ'.k s p ↔ AsleepOn σ.k s p
  unshared : ∀ p, AsleepOn σ.k s p → Unshared σ.k p → Unshared σ'.k p

/-- The timer interrupt, a yield, or the return from a `ksem_wait`. -/
def Event.reschedules (σ : System) : Event → Prop
  | .tick | .syscall .yield => True
  | .resume => ∃ s, σ.cpu.pc = .semWait s
  | _ => False

/-- What may happen in a run: waits for which there is memory, posts that do not saturate the
count, whatever the scheduler does, and anything that is not done to the semaphore or to those
who are blocked on it. -/
structure SemRun.Ok (s : Nat) (r : SemRun) (e : Event) : Prop where
  spares : SparesCaller r.σ e
  waits : e.waitsOn r.σ.k s → r.σ.k.heap.fails r.σ.k.heap.next = false ∧ Unshared r.σ.k r.σ.exec
  posts : e.postsOn r.σ.k s → (r.σ.k.sems s).waiters = [] → (r.σ.k.sems s).count < uint32Max
  other : e.waitsOn r.σ.k s = false → e.postsOn r.σ.k s = false →
    e.reschedules r.σ ∨ ∀ σ', r.σ.step e = some σ' → LeavesSem s r.σ σ'

end TP2Kernel
