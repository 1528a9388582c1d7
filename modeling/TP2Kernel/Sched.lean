import TP2Kernel.State
import TP2Kernel.Lib.LinkedList

/-!
# Scheduler

The functions of `sched.c`. Loops over linked lists carry the number of nodes they may
still visit; a list of distinct slots has at most `maxProcs` of them.
-/

namespace TP2Kernel
open Function LinkedList

/-- A priority cut to the range of the ready queues. -/
def clampPrio (prio : Int) : Int :=
  if prio < minPrio then minPrio else if highestPrio < prio then highestPrio else prio

/-- The ready queue that `q_push` selects for a priority. -/
def level (prio : Int) : Fin maxPrios :=
  if prio < 1 then 0 else if prio < 2 then 1 else if prio < 3 then 2 else 3

/-- `q_push`. A queue with a head has a tail; the last branch is the write through a null
`ready_tail`. -/
def qPush (k : Kernel) (proc : Slot) : Kernel :=
  let prio := level (k.procs proc).priority
  let k := { k with queueNext := update k.queueNext proc none }
  match k.readyHead prio, k.readyTail prio with
  | none, _ =>
    { k with
      readyHead := update k.readyHead prio (some proc)
      readyTail := update k.readyTail prio (some proc) }
  | some _, some tail =>
    { k with
      queueNext := update k.queueNext tail (some proc)
      readyTail := update k.readyTail prio (some proc) }
  | some _, none => k

/-- `q_pop`. -/
def qPop (k : Kernel) (prio : Fin maxPrios) : Kernel × Option Slot :=
  match k.readyHead prio with
  | none => (k, none)
  | some head =>
    let next := k.queueNext head
    let k := { k with readyHead := update k.readyHead prio next }
    let k := if next = none then { k with readyTail := update k.readyTail prio none } else k
    ({ k with queueNext := update k.queueNext head none }, some head)

/-- The loop of `q_remove`. -/
def qRemoveLoop (proc : Slot) (prio : Fin maxPrios) :
    Nat → Option Slot → Option Slot → Kernel → Kernel
  | 0, _, _, k => k
  | n + 1, prev, cursor, k =>
    match cursor with
    | none => k
    | some c =>
      if c = proc then
        let next := k.queueNext c
        let k := { k with
          readyHead := update k.readyHead prio (spliceHead (k.readyHead prio) prev next)
          queueNext := spliceNext k.queueNext prev next }
        let k := if k.readyTail prio = some c then
          { k with readyTail := update k.readyTail prio prev } else k
        { k with queueNext := update k.queueNext c none }
      else qRemoveLoop proc prio n (some c) (k.queueNext c) k

/-- `q_remove`. -/
def qRemove (k : Kernel) (proc : Slot) : Kernel :=
  let prio := (k.procs proc).priority
  if prio < minPrio ∨ highestPrio < prio then k
  else qRemoveLoop proc (level prio) maxProcs none (k.readyHead (level prio)) k

/-- `sched_enqueue`. -/
def schedEnqueue (k : Kernel) (proc : Slot) : Kernel :=
  if k.schedulerEnabled = false ∧ k.current = none then
    { k.modify proc fun c => { c with state := .running, ticksLeft := timeSliceTicks } with
      current := some proc }
  else
    let k := k.modify proc fun c => { c with priority := clampPrio c.priority }
    let k := { k with queueNext := update k.queueNext proc none }
    let k := k.modify proc fun c =>
      { c with state := .ready, ticksLeft := timeSliceTicks, agingTicks := 0 }
    qPush k proc

/-- `sched_remove`. -/
def schedRemove (k : Kernel) (proc : Slot) : Kernel :=
  let k := if k.current = some proc then { k with current := none } else k
  if (k.procs proc).state = .ready then qRemove k proc else k

/-- `pick_next`. -/
def pickNext (k : Kernel) : Kernel × Option Slot :=
  if k.readyHead 3 ≠ none then qPop k 3
  else if k.readyHead 2 ≠ none then qPop k 2
  else if k.readyHead 1 ≠ none then qPop k 1
  else if k.readyHead 0 ≠ none then qPop k 0
  else (k, none)

/-- The locals of `apply_aging` that outlive one level: the list of promoted processes. -/
structure Promoted where
  k : Kernel
  head : Option Slot
  tail : Option Slot

/-- `aging_ticks` after one more wait, cut at the threshold. -/
def agedTicks (c : Pcb) : Int :=
  if agingThreshold < c.agingTicks + 1 then agingThreshold else c.agingTicks + 1

/-- The test that promotes a process after its aging was incremented. -/
def promotes (c : Pcb) : Bool :=
  decide (c.priority < highestPrio) && decide (agingThreshold ≤ agedTicks c)

/-- Unlink `node` from its level and append it to the promoted list. -/
def promote (prio : Fin maxPrios) (prev : Option Slot) (node : Slot) (a : Promoted) : Promoted :=
  let next := a.k.queueNext node
  let k : Kernel := { a.k with
    readyHead := update a.k.readyHead prio (spliceHead (a.k.readyHead prio) prev next)
    queueNext := spliceNext a.k.queueNext prev next }
  let k := if k.readyTail prio = some node then
    { k with readyTail := update k.readyTail prio prev } else k
  let k := { k with queueNext := update k.queueNext node none }
  let k := { k with queueNext := spliceNext k.queueNext a.tail (some node) }
  { k := k.modify node fun c => { c with priority := c.priority + 1, agingTicks := 0 }
    head := spliceHead a.head a.tail (some node)
    tail := some node }

/-- The walk of `apply_aging` over one level. -/
def agingLoop (prio : Fin maxPrios) : Nat → Option Slot → Option Slot → Promoted → Promoted
  | 0, _, _, a => a
  | n + 1, prev, node, a =>
    match node with
    | none => a
    | some p =>
      let next := a.k.queueNext p
      if promotes (a.k.procs p) then
        agingLoop prio n prev next (promote prio prev p a)
      else
        agingLoop prio n (some p) next
          { a with k := a.k.modify p fun c => { c with agingTicks := agedTicks c } }

/-- The walk of `apply_aging` over the levels, lowest first. -/
def agingLevel (a : Promoted) (prio : Fin maxPrios) : Promoted :=
  agingLoop prio maxProcs none (a.k.readyHead prio) a

/-- The second loop of `apply_aging`: put the promoted processes back. -/
def requeueLoop : Nat → Option Slot → Kernel → Kernel
  | 0, _, k => k
  | n + 1, promoted, k =>
    match promoted with
    | none => k
    | some p =>
      let next := k.queueNext p
      requeueLoop n next (qPush { k with queueNext := update k.queueNext p none } p)

/-- `apply_aging`. -/
def applyAging (k : Kernel) : Kernel :=
  let a := [0, 1, 2, 3].foldl agingLevel { k := k, head := none, tail := none }
  requeueLoop maxProcs a.head a.k

/-- The part of `schedule` that puts the previous process back or takes its quantum. -/
def schedulePrev (k : Kernel) (prev : Slot) : Kernel :=
  let k := if (k.procs prev).state = .running ∧ k.idleProc ≠ some prev then
    qPush (k.modify prev fun c =>
      { c with state := .ready, ticksLeft := timeSliceTicks,
               priority := c.basePriority, agingTicks := 0 }) prev else k
  if (k.procs prev).state = .blocked ∨ (k.procs prev).state = .exited then
    k.modify prev fun c => { c with ticksLeft := 0 } else k

/-- The part of `schedule` that starts the chosen process. -/
def dispatch (k : Kernel) (next : Slot) : Kernel × Option Frame :=
  let k := k.modify next fun c => { c with state := .running, ticksLeft := timeSliceTicks }
  let k := if k.idleProc ≠ some next then
    k.modify next fun c => { c with priority := c.basePriority, agingTicks := 0 } else k
  ({ k with current := some next }, (k.procs next).kframe)

/-- The choice of `schedule`, with its fallbacks. -/
def selectNext (k : Kernel) (prev : Slot) : Kernel × Option Frame :=
  let (k, picked) := pickNext (applyAging k)
  match picked.or k.idleProc with
  | none => ({ k with current := some prev }, none)
  | some next =>
    if (k.procs next).kframe ≠ none then dispatch k next
    else match k.idleProc with
      | some idle =>
        if idle ≠ next ∧ (k.procs idle).kframe ≠ none then dispatch k idle
        else ({ k with current := some prev }, none)
      | none => ({ k with current := some prev }, none)

/-- `schedule`: the frame to load, or `none` for the return value 0. -/
def schedule (k : Kernel) (curRsp : Frame) : Kernel × Option Frame :=
  match k.schedulerEnabled, k.current with
  | true, some cur =>
    let k := k.modify cur fun c => { c with kframe := some curRsp }
    let k := if 0 < (k.procs cur).ticksLeft then
      k.modify cur fun c => { c with ticksLeft := c.ticksLeft - 1 } else k
    if 0 < (k.procs cur).ticksLeft ∧ (k.procs cur).state = .running then (k, none)
    else selectNext (schedulePrev k cur) cur
  | _, _ => ({ k with bailouts := k.bailouts + 1 }, none)

/-- `sched_force_yield`: the frame that `int 0x20` loads, or `none` when it returns to the
caller. -/
def schedForceYield (k : Kernel) (curRsp : Frame) : Kernel × Option Frame :=
  let k := match k.current with
    | some c => k.modify c fun c => { c with ticksLeft := 0 }
    | none => k
  schedule k curRsp

end TP2Kernel
