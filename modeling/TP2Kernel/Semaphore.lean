import TP2Kernel.Pipe

/-!
# Semaphores

The functions of `semaphore.c`, and the handle table of `syscalls.c`. `ksem_post` wakes
a process through `proc_unblock`, which is passed to it because `proc.c` itself removes
waiters and closes handles.
-/

namespace TP2Kernel
open Function

/-- `sem_hash`. -/
def semHash (name : CStr) : Fin ksemHashBuckets :=
  Fin.ofNat ksemHashBuckets (nameHash name).toNat

/-- `sem_name_len`. -/
def semNameLen (name : CStr) : Nat := min name.length ksemNameMax

/-- `sem_name_copy`. -/
def semNameCopy (src : CStr) : CStr := src.take (ksemNameMax - 1)

/-- Write to one semaphore. -/
def Kernel.modifySem (k : Kernel) (s : Nat) (f : Ksem → Ksem) : Kernel :=
  { k with sems := update k.sems s (f (k.sems s)) }

/-- `unsigned int` addition of one. -/
def incUnsigned (n : Nat) : Nat := (n + 1) % (uint32Max + 1)

/-- The condition of `sem_ready_to_destroy_locked`. -/
def semReadyToDestroy (s : Ksem) : Bool :=
  !s.destroying && s.unlinked && decide (s.refcount = 0) && s.waiters.isEmpty

/-- `sem_free`. -/
def semFree (k : Kernel) (s : Nat) : Kernel :=
  let nodes := (k.sems s).waiters.map fun w => (⟨.semWaiter, w.node⟩ : Block)
  (nodes.foldl Kernel.mmFree k).mmFree ⟨.sem, s⟩

/-- `sem_ready_to_destroy_locked` followed by `sem_free`, as `ksem_close` and `ksem_unlink`
end. -/
def semDestroyIfReady (k : Kernel) (s : Nat) : Kernel :=
  if semReadyToDestroy (k.sems s) then
    semFree (k.modifySem s fun c => { c with destroying := true }) s
  else k

/-- The walk over a bucket of `sem_buckets`. -/
def findSem (k : Kernel) (name : CStr) : Option Nat :=
  (k.semBuckets (semHash name)).find? fun s =>
    !(k.sems s).unlinked && decide ((k.sems s).name = name)

/-- `ksem_open`: the semaphore, or `none` for the return value -1. -/
def ksemOpen (k : Kernel) (name : CStr) (init : Nat) : Kernel × Option Nat :=
  if semNameLen name = 0 ∨ ksemNameMax ≤ semNameLen name then (k, none)
  else match findSem k name with
    | some s => (k.modifySem s fun c => { c with refcount := incUnsigned c.refcount }, some s)
    | none =>
      match k.mmMalloc with
      | (k, none) => (k, none)
      | (k, some s) =>
        let k := k.modifySem s fun _ =>
          { name := semNameCopy name, count := init, refcount := 1, unlinked := false
            destroying := false, waiters := [] }
        match findSem k name with
        | some q =>
          (semFree (k.modifySem q fun c => { c with refcount := incUnsigned c.refcount }) s, some q)
        | none =>
          let bucket := semHash name
          ({ k with semBuckets := update k.semBuckets bucket (s :: k.semBuckets bucket) }, some s)

/-- `ksem_wait`. -/
def ksemWait (k : Kernel) (exec : Slot) (s : Nat) : Kernel × Outcome :=
  match k.current with
  | none => (k, .ret (-1))
  | some cur =>
    match k.mmMalloc with
    | (k, none) => (k, .ret (-1))
    | (k, some node) =>
      if 0 < (k.sems s).count then
        let k := k.modifySem s fun c => { c with count := c.count - 1 }
        (k.mmFree ⟨.semWaiter, node⟩, .ret 0)
      else
        let k := k.modifySem s fun c => { c with waiters := c.waiters ++ [⟨node, cur⟩] }
        k.blockAndYield cur ⟨exec, .semWait s⟩

/-- The saturating increment of `ksem_post`. -/
def semIncrement (k : Kernel) (s : Nat) : Kernel :=
  if (k.sems s).count < uint32Max then
    k.modifySem s fun c => { c with count := c.count + 1 }
  else k

/-- `ksem_post`. -/
def ksemPost (unblock : Kernel → Int → Kernel × Int) (k : Kernel) (s : Nat) : Kernel × Int :=
  match (k.sems s).waiters with
  | [] => (semIncrement k s, 0)
  | w :: ws =>
    let k := k.modifySem s fun c => { c with waiters := ws }
    let (k, woken) := unblock k (k.procs w.proc).pid
    let k := if woken = 0 then k else semIncrement k s
    (k.mmFree ⟨.semWaiter, w.node⟩, 0)

/-- `ksem_close`. -/
def ksemClose (k : Kernel) (s : Nat) : Kernel × Int :=
  if (k.sems s).refcount = 0 then (k, -1)
  else
    let k := k.modifySem s fun c => { c with refcount := c.refcount - 1 }
    (semDestroyIfReady k s, 0)

/-- `ksem_unlink`. -/
def ksemUnlink (k : Kernel) (name : CStr) : Kernel × Int :=
  if semNameLen name = 0 ∨ ksemNameMax ≤ semNameLen name then (k, -1)
  else match findSem k name with
    | none => (k, -1)
    | some s =>
      let bucket := semHash name
      let k := { k with
        semBuckets := update k.semBuckets bucket ((k.semBuckets bucket).erase s) }
      let k := k.modifySem s fun c => { c with unlinked := true }
      (semDestroyIfReady k s, 0)

/-- `wait_queue_remove_proc` on one semaphore, with the release of the removed nodes. -/
def semRemoveProc (proc : Slot) (k : Kernel) (s : Nat) : Kernel :=
  let removed := (k.sems s).waiters.filter fun w => decide (w.proc = proc)
  let k := k.modifySem s fun c =>
    { c with waiters := c.waiters.filter fun w => !decide (w.proc = proc) }
  (removed.map fun w => (⟨.semWaiter, w.node⟩ : Block)).foldl Kernel.mmFree k

/-- `ksem_remove_waiters_for`: only the semaphores of the hash table are visited. -/
def ksemRemoveWaitersFor (k : Kernel) (proc : Slot) : Kernel :=
  (List.finRange ksemHashBuckets).foldl
    (fun k b => (k.semBuckets b).foldl (semRemoveProc proc) k) k

/-- `sem_handle_allocate`. -/
def semHandleAllocate (k : Kernel) (s : Nat) (ownerPid : Int) : Kernel × Int :=
  match (List.finRange ksemHandleMax).find? fun i => (k.semHandles i).isNone with
  | some i =>
    ({ k with semHandles := update k.semHandles i (some ⟨s, ownerPid⟩) }, (i.val : Int) + 1)
  | none => (k, -1)

/-- `sem_handle_peek`. -/
def semHandlePeek (k : Kernel) (handle : Int) : Option Nat :=
  if h : 0 < handle ∧ handle ≤ ksemHandleMax then
    (k.semHandles ⟨(handle - 1).toNat, by omega⟩).map SemHandle.sem
  else none

/-- `sem_handle_detach`. -/
def semHandleDetach (k : Kernel) (handle : Int) : Kernel × Option Nat :=
  if h : 0 < handle ∧ handle ≤ ksemHandleMax then
    let i : Fin ksemHandleMax := ⟨(handle - 1).toNat, by omega⟩
    match k.semHandles i with
    | some e => ({ k with semHandles := update k.semHandles i none }, some e.sem)
    | none => (k, none)
  else (k, none)

/-- One iteration of `sem_cleanup_process_handles`. -/
def semCleanupStep (pid : Int) (k : Kernel) (i : Fin ksemHandleMax) : Kernel :=
  match k.semHandles i with
  | some e =>
    if e.ownerPid = pid then
      (ksemClose { k with semHandles := update k.semHandles i none } e.sem).1
    else k
  | none => k

/-- `sem_cleanup_process_handles`. -/
def semCleanupProcessHandles (k : Kernel) (pid : Int) : Kernel :=
  (List.finRange ksemHandleMax).foldl (semCleanupStep pid) k

end TP2Kernel
