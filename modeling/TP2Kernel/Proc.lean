import TP2Kernel.Fd
import TP2Kernel.Semaphore

/-!
# Processes

The functions of `proc.c`. `collect_zombies` destroys descriptor tables, which closes
pipes, which calls `proc_unblock`, which starts with `collect_zombies`: the functions on
this cycle take `proc_unblock` as an argument, and `procUnblockDepth` closes the cycle.
Every turn of it has dequeued a pipe waiter, so `pipeWaiters` bounds the turns.
-/

namespace TP2Kernel
open Function LinkedList

/-! ### The process table -/

/-- `proc_by_pid`. -/
def procByPid (k : Kernel) (pid : Int) : Option Slot :=
  if pid ≤ 0 then none
  else (List.finRange maxProcs).find? fun i => (k.procs i).used && decide ((k.procs i).pid = pid)

/-- `allocate_slot`. -/
def allocateSlot (k : Kernel) : Kernel × Option Slot :=
  match (List.finRange maxProcs).find? fun i => !(k.procs i).used with
  | none => (k, none)
  | some i =>
    ({ k.modify i fun _ => { Pcb.zero with used := true } with
        queueNext := update k.queueNext i none
        cleanupNext := update k.cleanupNext i none
        childHead := update k.childHead i none
        siblingNext := update k.siblingNext i none }, some i)

/-- `cleanup_wait_results`. -/
def cleanupWaitResults (k : Kernel) (p : Slot) : Kernel :=
  let nodes := (k.procs p).waitRes.map fun r => (⟨.waitResult, r.node⟩ : Block)
  (nodes.foldl Kernel.mmFree k).modify p fun c =>
    { c with waitRes := [], pendingExitValid := false, pendingExitPid := -1, pendingExitCode := 0 }

/-- `release_slot`. -/
def releaseSlot (unblock : Kernel → Int → Kernel) (k : Kernel) (p : Slot) : Kernel :=
  let k := match (k.procs p).fdTable with
    | some t => (fdTableDestroy unblock k t).modify p fun c => { c with fdTable := none }
    | none => k
  let k := cleanupWaitResults k p
  { k.modify p fun c => { c with pendingExitValid := false, used := false } with
    childHead := update k.childHead p none
    siblingNext := update k.siblingNext p none }

/-- `mm_free(kstack_base)` where the stack is still there. -/
def freeKstack (k : Kernel) (p : Slot) : Kernel :=
  match (k.procs p).kstackBase with
  | some a => (k.mmFree ⟨.stack, a⟩).modify p fun c => { c with kstackBase := none }
  | none => k

/-- `setup_stack`: the first dispatch enters `trampoline`. -/
def setupStack (k : Kernel) (p : Slot) : Kernel :=
  k.modify p fun c => { c with kframe := some ⟨p, .trampoline⟩ }

/-! ### Zombies -/

/-- `enqueue_zombie`. -/
def enqueueZombie (k : Kernel) (p : Slot) : Kernel :=
  { k with cleanupNext := update k.cleanupNext p k.zombieHead, zombieHead := some p }

/-- The test of `collect_zombies`. -/
def reapable (c : Pcb) : Bool := c.zombieReapable || decide (c.parentPid < 0)

/-- The loop of `collect_zombies`. -/
def collectLoop (unblock : Kernel → Int → Kernel) :
    Nat → Option Slot → Option Slot → Kernel → Kernel
  | 0, _, pending, k => { k with zombieHead := pending }
  | n + 1, cursor, pending, k =>
    match cursor with
    | none => { k with zombieHead := pending }
    | some p =>
      let next := k.cleanupNext p
      let k := { k with cleanupNext := update k.cleanupNext p none }
      if reapable (k.procs p) then
        let k := cleanupWaitResults (freeKstack k p) p
        collectLoop unblock n next pending (releaseSlot unblock k p)
      else
        collectLoop unblock n next (some p) { k with cleanupNext := update k.cleanupNext p pending }

/-- `collect_zombies`, with the `proc_unblock` that its pipe closings call. -/
def collectZombiesWith (unblock : Kernel → Int → Kernel) (k : Kernel) : Kernel :=
  collectLoop unblock maxProcs k.zombieHead none k

/-- `proc_unblock` behind its `collect_zombies`. -/
def unblockTarget (k : Kernel) (pid : Int) : Kernel × Int :=
  match procByPid k pid with
  | none => (k, -1)
  | some p =>
    if (k.procs p).state = .exited then (k, -1)
    else if (k.procs p).state = .blocked then
      let k := k.modify p fun c =>
        { c with state := .ready, ticksLeft := timeSliceTicks, agingTicks := 0 }
      (schedEnqueue k p, 0)
    else (k, -1)

/-- `proc_unblock` when at most `n` more turns of the cycle are possible. -/
def procUnblockDepth : Nat → Kernel → Int → Kernel
  | 0, k, pid => (unblockTarget (collectZombiesWith (fun k _ => k) k) pid).1
  | n + 1, k, pid => (unblockTarget (collectZombiesWith (procUnblockDepth n) k) pid).1

/-- The number of processes queued on pipes. -/
def pipeWaiters (k : Kernel) : Nat :=
  ((List.range k.heap.next).map fun p =>
    (k.pipes p).rWaiters.length + (k.pipes p).wWaiters.length).sum

/-- `collect_zombies`. -/
def collectZombies (k : Kernel) : Kernel :=
  collectZombiesWith (procUnblockDepth (pipeWaiters k)) k

/-- `proc_unblock`. -/
def procUnblock (k : Kernel) (pid : Int) : Kernel × Int :=
  unblockTarget (collectZombies k) pid

/-- `proc_unblock` called for its effect. -/
def wake (k : Kernel) (pid : Int) : Kernel := (procUnblock k pid).1

/-! ### Children -/

/-- `link_child`. -/
def linkChild (k : Kernel) (parent child : Slot) : Kernel :=
  { k with
    siblingNext := update k.siblingNext child (k.childHead parent)
    childHead := update k.childHead parent (some child) }

/-- The loop of `unlink_child`. -/
def unlinkChildLoop (parent child : Slot) : Nat → Option Slot → Option Slot → Kernel → Kernel
  | 0, _, _, k => k
  | n + 1, prev, cursor, k =>
    match cursor with
    | none => k
    | some c =>
      let next := k.siblingNext c
      if c = child then
        let k := { k with
          childHead := update k.childHead parent (spliceHead (k.childHead parent) prev next)
          siblingNext := spliceNext k.siblingNext prev next }
        { k with siblingNext := update k.siblingNext child none }
      else unlinkChildLoop parent child n (some c) next k

/-- `unlink_child`. -/
def unlinkChild (k : Kernel) (parent child : Slot) : Kernel :=
  unlinkChildLoop parent child maxProcs none (k.childHead parent) k

/-- The loop of `find_child`. -/
def findChildLoop (k : Kernel) (childPid : Int) : Nat → Option Slot → Option Slot
  | 0, _ => none
  | n + 1, cursor =>
    match cursor with
    | none => none
    | some c => if (k.procs c).pid = childPid then some c
        else findChildLoop k childPid n (k.siblingNext c)

/-- `find_child`. -/
def findChild (k : Kernel) (parent : Slot) (childPid : Int) : Option Slot :=
  if childPid ≤ 0 then none else findChildLoop k childPid maxProcs (k.childHead parent)

/-- The loop of `detach_children` over the children of a killed child. -/
def orphanLoop : Nat → Option Slot → Kernel → Kernel
  | 0, _, k => k
  | n + 1, grandchild, k =>
    match grandchild with
    | none => k
    | some g =>
      let next := k.siblingNext g
      orphanLoop n next { k.modify g fun c => { c with parentPid := -1 } with
        siblingNext := update k.siblingNext g none }

/-- What `detach_children` does to a child that is still alive. -/
def killChild (k : Kernel) (child : Slot) : Kernel :=
  let k := if (k.procs child).state = .ready then schedRemove k child else k
  let k := k.modify child fun c =>
    { c with exitCode := 0, state := .exited, ticksLeft := 0, waitingFor := 0,
             pendingExitValid := false, parentPid := -1 }
  let grandchild := k.childHead child
  let k := { k with childHead := update k.childHead child none }
  enqueueZombie (cleanupWaitResults (orphanLoop maxProcs grandchild k) child) child

/-- The loop of `detach_children`. -/
def detachLoop (parent : Slot) : Nat → Option Slot → Kernel → Kernel
  | 0, _, k => k
  | n + 1, child, k =>
    match child with
    | none => k
    | some c =>
      let next := k.siblingNext c
      let k := { k with siblingNext := update k.siblingNext c none }
      if (k.procs c).state ≠ .exited then
        detachLoop parent n next (killChild k c)
      else if (k.procs c).parentPid = (k.procs parent).pid then
        detachLoop parent n next (k.modify c fun c => { c with parentPid := -1 })
      else detachLoop parent n next k

/-- `detach_children`. -/
def detachChildren (k : Kernel) (parent : Slot) : Kernel :=
  detachLoop parent maxProcs (k.childHead parent)
    { k with childHead := update k.childHead parent none }

/-! ### Wait results -/

/-- `push_wait_result`. -/
def pushWaitResult (k : Kernel) (parent : Slot) (childPid exitCode : Int) : Kernel :=
  match k.mmMalloc with
  | (k, none) =>
    k.modify parent fun c =>
      { c with pendingExitPid := childPid, pendingExitCode := exitCode, pendingExitValid := true }
  | (k, some node) =>
    k.modify parent fun c => { c with waitRes := c.waitRes ++ [⟨node, childPid, exitCode⟩] }

/-- The node that `consume_wait_result` takes from the queue. -/
def matchingResult (c : Pcb) (targetPid : Int) : Option WaitResult :=
  if targetPid ≤ 0 then c.waitRes.head? else c.waitRes.find? fun r => decide (r.childPid = targetPid)

/-- The test on the `pending_exit_*` fields. -/
def pendingMatches (c : Pcb) (targetPid : Int) : Bool :=
  c.pendingExitValid && (decide (targetPid ≤ 0) || decide (c.pendingExitPid = targetPid))

/-- `consume_wait_result`: the pid it returns and the status it stores. -/
def consumeWaitResult (k : Kernel) (parent : Slot) (targetPid : Int) : Kernel × Int × Int :=
  match matchingResult (k.procs parent) targetPid with
  | some r =>
    let k := k.modify parent fun c => { c with waitRes := c.waitRes.erase r }
    (k.mmFree ⟨.waitResult, r.node⟩, r.childPid, r.exitCode)
  | none =>
    if pendingMatches (k.procs parent) targetPid then
      (k.modify parent fun c => { c with pendingExitValid := false },
        (k.procs parent).pendingExitPid, (k.procs parent).pendingExitCode)
    else (k, -1, 0)

/-- `notify_parent_exit`. -/
def notifyParentExit (k : Kernel) (p : Slot) : Kernel :=
  let k := k.modify p fun c => { c with zombieReapable := true }
  if (k.procs p).parentPid < 0 then k
  else match procByPid k (k.procs p).parentPid with
    | none => k
    | some parent =>
      let k := unlinkChild k parent p
      let k := pushWaitResult k parent (k.procs p).pid (k.procs p).exitCode
      let k := k.modify p fun c => { c with parentPid := -1 }
      if (k.procs parent).state = .blocked ∧
          ((k.procs parent).waitingFor = (k.procs p).pid ∨ (k.procs parent).waitingFor = -1) then
        let k := k.modify parent fun c => { c with waitingFor := 0 }
        wake k (k.procs parent).pid
      else k

/-! ### Foreground -/

/-- `tty_set_foreground`. -/
def ttySetForeground (k : Kernel) (pid : Int) : Kernel :=
  { k with tty := { k.tty with fgPid := pid } }

/-- `proc_set_foreground`. -/
def procSetForeground (k : Kernel) (pid : Int) : Kernel :=
  let k := match procByPid k pid with
    | some p => k.modify p fun c => { c with fg := true }
    | none => k
  let k := ttySetForeground k pid
  { k with procs := fun i =>
      if (k.procs i).used ∧ (k.procs i).pid ≠ pid then { k.procs i with fg := false }
      else k.procs i }

/-- `proc_get_foreground_pid`. -/
def procGetForegroundPid (k : Kernel) : Int :=
  if 0 < k.tty.fgPid then k.tty.fgPid
  else match (List.finRange maxProcs).find? fun i =>
      (k.procs i).used && (k.procs i).fg && decide ((k.procs i).state ≠ .exited) with
    | some i => (k.procs i).pid
    | none => -1

/-- The parent that takes the terminal back: a live process with that pid. -/
def liveParent (k : Kernel) (parentPid : Int) : Option Slot :=
  if 0 < parentPid then
    (procByPid k parentPid).filter fun p => decide ((k.procs p).state ≠ .exited)
  else none

/-- `"shell"`. -/
def shellName : CStr := [115, 104, 101, 108, 108]

/-- The search of `proc_kill` for the main shell. -/
def findShell (k : Kernel) : Option Slot :=
  (List.finRange maxProcs).find? fun i =>
    (k.procs i).used && decide ((k.procs i).state ≠ .exited) && decide ((k.procs i).name = shellName)

/-- The part of `proc_exit` that gives the terminal back. -/
def exitForeground (k : Kernel) (p : Slot) : Kernel :=
  if (k.procs p).fg then
    match liveParent k (k.procs p).parentPid with
    | some _ => procSetForeground k (k.procs p).parentPid
    | none => ttySetForeground k (-1)
  else k

/-- The part of `proc_kill` that gives the terminal back: without a live parent it goes to
the main shell. -/
def killForeground (k : Kernel) (target : Slot) : Kernel :=
  if (k.procs target).fg then
    match liveParent k (k.procs target).parentPid with
    | some _ => procSetForeground k (k.procs target).parentPid
    | none =>
      match findShell k with
      | some shell => procSetForeground k (k.procs shell).pid
      | none => ttySetForeground k (-1)
  else k

/-! ### Operations -/

/-- `next_pid++` with the reset; `int` wraps in two's complement. -/
def bumpPid (n : Int) : Int :=
  let n := if n = 2147483647 then -2147483648 else n + 1
  if n ≤ 0 then 1 else n

/-- The fields that `proc_create` sets in a new PCB. -/
def initPcb (pid : Int) (name : CStr) (prio : Int) (fg : Bool) (c : Pcb) : Pcb :=
  { c with
    name := name.take 31
    pid := pid
    priority := prio
    basePriority := prio
    agingTicks := 0
    state := .new
    fg := fg
    ticksLeft := timeSliceTicks
    parentPid := -1
    exitCode := 0
    waitingFor := 0
    waitRes := []
    pendingExitPid := -1
    pendingExitCode := 0
    pendingExitValid := false
    zombieReapable := false
    fdTable := none }

/-- `proc->parent_pid = parent->pid` where there is a current process. -/
def setParentPid (k : Kernel) (p : Slot) : Kernel :=
  match k.current with
  | some parent => k.modify p fun c => { c with parentPid := (k.procs parent).pid }
  | none => k

/-- The end of `proc_create`, once nothing can fail: files, family, ready queue, terminal. -/
def installProc (k : Kernel) (p : Slot) (t : Nat) (fg : Bool) : Kernel × Int :=
  let k := k.modify p fun c => { c with fdTable := some t }
  let k := match k.current with
    | some parent =>
      let k := match (k.procs parent).fdTable with
        | some src => fdTableClone k t src
        | none => fdTableAttachStd k t
      linkChild k parent p
    | none => fdTableAttachStd k t
  let k := schedEnqueue k p
  let k := if fg then ttySetForeground k (k.procs p).pid else k
  (k, (k.procs p).pid)

/-- `proc_create`. `entry` and `name` are `none` for null pointers. -/
def procCreate (k : Kernel) (entry : Option Nat) (prio : Int) (fg : Bool) (name : Option CStr) :
    Kernel × Int :=
  match entry, name with
  | some _, some name =>
    let prio := clampPrio prio
    let k := collectZombies k
    match allocateSlot k with
    | (k, none) => (k, -1)
    | (k, some p) =>
      let k := { k.modify p (initPcb k.nextPid name prio fg) with nextPid := bumpPid k.nextPid }
      let k := setParentPid k p
      match k.mmMalloc with
      | (k, none) => (releaseSlot wake k p, -1)
      | (k, some stack) =>
        let k := setupStack (k.modify p fun c => { c with kstackBase := some stack }) p
        match fdTableCreate k with
        | (k, none) => (releaseSlot wake (freeKstack k p) p, -1)
        | (k, some t) => installProc k p t fg
  | _, _ => (k, -1)

/-- The end that `proc_exit` and `proc_kill` share: from the `EXITED` mark to the zombie
list. `cleanup_wait_results` follows the destruction of the descriptor table. -/
def buryProc (k : Kernel) (p : Slot) : Kernel :=
  let k := detachChildren k p
  let k := notifyParentExit k p
  let k := match (k.procs p).fdTable with
    | some t => (fdTableDestroy wake k t).modify p fun c => { c with fdTable := none }
    | none => k
  enqueueZombie (cleanupWaitResults k p) p

/-- `proc_exit`, executed on the kernel stack of `exec`. -/
def procExit (k : Kernel) (exec : Slot) (code : Int) : Kernel × Outcome :=
  let k := collectZombies k
  match k.current with
  | none => (k, .ret 0)
  | some p =>
    if k.idleProc = some p then (k, .ret 0)
    else
      let k := ksemRemoveWaitersFor k p
      let k := semCleanupProcessHandles k (k.procs p).pid
      let k := exitForeground k p
      let k := k.modify p fun c =>
        { c with exitCode := code, state := .exited, ticksLeft := 0, waitingFor := 0 }
      (buryProc k p).yield ⟨exec, .hlt⟩

/-- `proc_block`. -/
def procBlock (k : Kernel) (exec : Slot) (pid : Int) : Kernel × Outcome :=
  let k := collectZombies k
  match if 0 < pid then procByPid k pid else k.current with
  | none => (k, .ret (-1))
  | some target =>
    if k.idleProc = some target ∨ (k.procs target).state = .exited then (k, .ret (-1))
    else if (k.procs target).state = .blocked then (k, .ret 0)
    else if k.current ≠ some target then
      let k := if (k.procs target).state = .ready then schedRemove k target else k
      (k.modify target fun c => { c with state := .blocked, ticksLeft := 0 }, .ret 0)
    else k.blockAndYield target ⟨exec, .user⟩

/-- `proc_nice`. -/
def procNice (k : Kernel) (exec : Slot) (pid newPrio : Int) : Kernel × Outcome :=
  let k := collectZombies k
  let newPrio := clampPrio newPrio
  match procByPid k pid with
  | none => (k, .ret 0)
  | some p =>
    if (k.procs p).priority = newPrio then (k, .ret 0)
    else
      let k := k.modify p fun c => { c with basePriority := newPrio, agingTicks := 0 }
      let wasRunning := (k.procs p).state = .running ∧ k.current = some p
      let wasReady := (k.procs p).state = .ready
      if wasReady then
        let k := (schedRemove k p).modify p fun c => { c with priority := newPrio }
        (schedEnqueue k p, .ret 0)
      else if wasRunning then
        let k := k.modify p fun c => { c with state := .ready }
        let k := (schedRemove k p).modify p fun c => { c with priority := newPrio }
        (schedEnqueue k p).yield ⟨exec, .user⟩
      else (k.modify p fun c => { c with priority := newPrio }, .ret 0)

/-- `proc_kill`. -/
def procKill (k : Kernel) (exec : Slot) (pid : Int) : Kernel × Outcome :=
  let k := collectZombies k
  match procByPid k pid with
  | none => (k, .ret (-1))
  | some target =>
    if k.idleProc = some target then (k, .ret (-1))
    else
      let k := ksemRemoveWaitersFor k target
      let k := killForeground k target
      if (k.procs target).state ≠ .ready ∧ k.current = some target then procExit k exec 0
      else
        let k := if (k.procs target).state = .ready then schedRemove k target else k
        let k := k.modify target fun c =>
          { c with exitCode := 0, state := .exited, ticksLeft := 0, waitingFor := 0,
                   pendingExitValid := false }
        (collectZombies (buryProc k target), .ret 0)

/-! ### Waiting -/

/-- The early exits of `proc_wait` on the `pending_exit_*` fields when there is no child to
wait for. -/
def waitPending (k : Kernel) (parent : Slot) (targetPid : Int) : Kernel × Outcome :=
  if pendingMatches (k.procs parent) targetPid then
    (k.modify parent fun c => { c with pendingExitValid := false },
      .waited (k.procs parent).pendingExitPid (k.procs parent).pendingExitCode)
  else (k, .ret (-1))

/-- `proc_wait`, up to its yield. -/
def procWait (k : Kernel) (exec : Slot) (targetPid : Int) : Kernel × Outcome :=
  let k := collectZombies k
  match k.current with
  | none => (k, .ret (-1))
  | some parent =>
    let targetPid := if targetPid = 0 then -1 else targetPid
    let (k, waitedPid, status) := consumeWaitResult k parent targetPid
    if 0 < waitedPid then (k, .waited waitedPid status)
    else
      let found := if 0 < targetPid then findChild k parent targetPid else k.childHead parent
      match found with
      | none => waitPending k parent targetPid
      | some _ =>
        let k := k.modify parent fun c => { c with waitingFor := targetPid }
        k.blockAndYield parent ⟨exec, .wait parent targetPid⟩

/-- `proc_wait` behind its yield. -/
def procWaitResume (k : Kernel) (parent : Slot) (targetPid : Int) : Kernel × Outcome :=
  let k := collectZombies k
  let (k, waitedPid, status) := consumeWaitResult k parent targetPid
  let k := k.modify parent fun c => { c with waitingFor := 0 }
  if 0 < waitedPid then (k, .waited waitedPid status)
  else waitPending k parent targetPid

end TP2Kernel
