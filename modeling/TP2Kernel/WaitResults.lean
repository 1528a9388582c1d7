import TP2Kernel.Proc

/-!
# Wait results in memory

`push_wait_result`, `consume_wait_result` and `cleanup_wait_results` on the nodes in memory and
on the pointers `wait_res_head` and `wait_res_tail` of one parent.
-/

namespace TP2Kernel
open Function LinkedList

/-- The nodes of type `wait_result_t`, the fields of a parent that lead to them, and the
allocator. -/
structure WaitQueue where
  next : Nat → Option Nat
  childPid : Nat → Int
  exitCode : Nat → Int
  waitResHead : Option Nat
  waitResTail : Option Nat
  pendingExitPid : Int
  pendingExitCode : Int
  pendingExitValid : Bool
  heap : Heap

namespace WaitQueue

/-- `mm_free` of a node. -/
def mmFree (w : WaitQueue) (node : Nat) : WaitQueue :=
  { w with heap := { w.heap with freed := w.heap.freed ++ [⟨.waitResult, node⟩] } }

/-- `push_wait_result`. -/
def pushWaitResult (w : WaitQueue) (childPid exitCode : Int) : WaitQueue :=
  let node := w.heap.next
  let w := { w with heap := { w.heap with next := w.heap.next + 1 } }
  if w.heap.fails node then
    { w with pendingExitPid := childPid, pendingExitCode := exitCode, pendingExitValid := true }
  else
    let w := { w with
      childPid := update w.childPid node childPid
      exitCode := update w.exitCode node exitCode
      next := update w.next node none }
    match w.waitResTail with
    | none => { w with waitResHead := some node, waitResTail := some node }
    | some tail => { w with next := update w.next tail (some node), waitResTail := some node }

/-- The loop of `consume_wait_result`: the values of `prev` and `node` behind it. -/
def findNode (w : WaitQueue) (targetPid : Int) :
    Nat → Option Nat → Option Nat → Option Nat × Option Nat
  | 0, prev, node => (prev, node)
  | n + 1, prev, node =>
    match node with
    | none => (prev, none)
    | some a =>
      if w.childPid a = targetPid then (prev, some a)
      else findNode w targetPid n (some a) (w.next a)

/-- `consume_wait_result` when no node matches. -/
def consumePending (w : WaitQueue) (targetPid : Int) (status : Option Int) :
    WaitQueue × Int × Option Int :=
  if w.pendingExitValid = true ∧ (targetPid ≤ 0 ∨ w.pendingExitPid = targetPid) then
    ({ w with pendingExitValid := false }, w.pendingExitPid, status.map fun _ => w.pendingExitCode)
  else (w, -1, status)

/-- `consume_wait_result`: the pid it returns, and `*status` behind it, if `status` is not null.
The loop visits every node once at most. -/
def consumeWaitResult (w : WaitQueue) (targetPid : Int) (status : Option Int) :
    WaitQueue × Int × Option Int :=
  if targetPid ≤ 0 then
    match w.waitResHead with
    | some node =>
      let w := { w with waitResHead := w.next node }
      let w := if w.waitResTail = some node then { w with waitResTail := none } else w
      (w.mmFree node, w.childPid node, status.map fun _ => w.exitCode node)
    | none => w.consumePending targetPid status
  else
    match w.findNode targetPid w.heap.next none w.waitResHead with
    | (prev, some node) =>
      let w := { w with
        waitResHead := spliceHead w.waitResHead prev (w.next node)
        next := spliceNext w.next prev (w.next node) }
      let w := if w.waitResTail = some node then { w with waitResTail := prev } else w
      (w.mmFree node, w.childPid node, status.map fun _ => w.exitCode node)
    | (_, none) => w.consumePending targetPid status

/-- The loop of `cleanup_wait_results`. -/
def cleanupLoop : Nat → Option Nat → WaitQueue → WaitQueue
  | 0, _, w => w
  | n + 1, node, w =>
    match node with
    | none => w
    | some a => cleanupLoop n (w.next a) (w.mmFree a)

/-- `cleanup_wait_results`. -/
def cleanupWaitResults (w : WaitQueue) : WaitQueue :=
  { cleanupLoop w.heap.next w.waitResHead w with
    waitResHead := none
    waitResTail := none
    pendingExitValid := false
    pendingExitPid := -1
    pendingExitCode := 0 }

end WaitQueue

end TP2Kernel
