import TP2Kernel.Proofs.Collecting
import TP2Kernel.Proofs.Selection

/-!
# What waking and reaping leave alone

`proc_unblock` starts with `collect_zombies`, which may destroy descriptor tables and close
pipes. Whatever the state, these functions touch neither the semaphores nor the terminal,
and free none of their blocks.
-/

namespace TP2Kernel.Proofs
open Function

/-- The kernels agree on everything that is not a process, a file or a pipe, except for
freed blocks of other kinds. -/
structure ReapWrite (k k' : Kernel) : Prop where
  same : k' = { k with
    procs := k'.procs, queueNext := k'.queueNext, cleanupNext := k'.cleanupNext
    childHead := k'.childHead, siblingNext := k'.siblingNext, zombieHead := k'.zombieHead
    readyHead := k'.readyHead, readyTail := k'.readyTail, current := k'.current
    heap := k'.heap, files := k'.files, tables := k'.tables, pipes := k'.pipes }
  next : k'.heap.next = k.heap.next
  fails : k'.heap.fails = k.heap.fails
  freed : ∃ bs, k'.heap.freed = k.heap.freed ++ bs ∧ ∀ b ∈ bs, BlockKind.reaped b.kind = true

namespace ReapWrite

variable {k k' k'' : Kernel}

lemma refl (k : Kernel) : ReapWrite k k := ⟨rfl, rfl, rfl, [], by simp, by simp⟩

lemma trans (h : ReapWrite k k') (h' : ReapWrite k' k'') : ReapWrite k k'' := by
  obtain ⟨bs, e, hb⟩ := h.freed
  obtain ⟨bs', e', hb'⟩ := h'.freed
  refine ⟨?_, h'.next.trans h.next, h'.fails.trans h.fails, bs ++ bs', ?_, fun b hm => ?_⟩
  · rw [h'.same, h.same]
  · rw [e', e, List.append_assoc]
  · exact (List.mem_append.mp hm).elim (hb b) (hb' b)

/-- Writes that do not reach the heap. -/
lemma of_same (h : k' = { k with
    procs := k'.procs, queueNext := k'.queueNext, cleanupNext := k'.cleanupNext
    childHead := k'.childHead, siblingNext := k'.siblingNext, zombieHead := k'.zombieHead
    readyHead := k'.readyHead, readyTail := k'.readyTail, current := k'.current
    files := k'.files, tables := k'.tables, pipes := k'.pipes }) : ReapWrite k k' := by
  have hh : k'.heap = k.heap := (congrArg Kernel.heap h :)
  refine ⟨?_, by rw [hh], by rw [hh], [], by rw [hh]; simp, by simp⟩
  rw [h]

lemma mmFree (k : Kernel) {b : Block} (hb : BlockKind.reaped b.kind = true) :
    ReapWrite k (k.mmFree b) :=
  ⟨rfl, rfl, rfl, [b], rfl, by simpa using hb⟩

lemma sems (h : ReapWrite k k') : k'.sems = k.sems := (congrArg Kernel.sems h.same :)
lemma semBuckets (h : ReapWrite k k') : k'.semBuckets = k.semBuckets :=
  (congrArg Kernel.semBuckets h.same :)
lemma semHandles (h : ReapWrite k k') : k'.semHandles = k.semHandles :=
  (congrArg Kernel.semHandles h.same :)
lemma tty (h : ReapWrite k k') : k'.tty = k.tty := (congrArg Kernel.tty h.same :)

end ReapWrite

/-- Reaping and waking leave the semaphores and the terminal alone. -/
lemma reapWrite_loose : ReapLoose ReapWrite where
  refl := .refl
  trans := .trans
  link h := by
    apply ReapWrite.of_same
    rw [h]
  modify _ _ _ _ := .of_same rfl
  pipe _ _ _ _ := .of_same rfl
  free k _ hb := .mmFree k hb

/-- The kernels agree on everything but the processes and their queues. -/
def DispatchWrite (k k' : Kernel) : Prop :=
  k' = { k with
    procs := k'.procs, queueNext := k'.queueNext, readyHead := k'.readyHead
    readyTail := k'.readyTail, current := k'.current, bailouts := k'.bailouts }

namespace DispatchWrite

variable {k k' k'' : Kernel}

lemma trans (h : DispatchWrite k k') (h' : DispatchWrite k' k'') : DispatchWrite k k'' := by
  rw [DispatchWrite] at h h' ⊢
  rw [h', h]

lemma sems (h : DispatchWrite k k') : k'.sems = k.sems := (congrArg Kernel.sems h :)
lemma semBuckets (h : DispatchWrite k k') : k'.semBuckets = k.semBuckets :=
  (congrArg Kernel.semBuckets h :)
lemma semHandles (h : DispatchWrite k k') : k'.semHandles = k.semHandles :=
  (congrArg Kernel.semHandles h :)
lemma heap (h : DispatchWrite k k') : k'.heap = k.heap := (congrArg Kernel.heap h :)

end DispatchWrite

/-- A `DispatchWrite` that changes of a PCB only what the scheduler keeps in it. -/
structure Redispatch (k k' : Kernel) : Prop where
  write : DispatchWrite k k'
  procs : ∀ p, Resched (k.procs p) (k'.procs p)

namespace Redispatch

variable {k k' k'' : Kernel}

lemma refl (k : Kernel) : Redispatch k k := ⟨rfl, fun p => .refl (k.procs p)⟩

lemma trans (h : Redispatch k k') (h' : Redispatch k' k'') : Redispatch k k'' :=
  ⟨h.write.trans h'.write, fun p => (h.procs p).trans (h'.procs p)⟩

/-- Writes outside the PCBs. -/
lemma of_procs (h : DispatchWrite k k') (hp : k'.procs = k.procs) : Redispatch k k' :=
  ⟨h, fun p => by rw [hp]; exact .refl (k.procs p)⟩

lemma queue (h : QueueWrite k k') : Redispatch k k' := by
  apply of_procs _ h.procs_eq
  rw [DispatchWrite]
  rw [QueueWrite] at h
  rw [h]

lemma modify (k : Kernel) (p : Slot) {f : Pcb → Pcb} (hf : ∀ c, Resched c (f c)) :
    Redispatch k (k.modify p f) := by
  refine ⟨rfl, fun q => ?_⟩
  rw [Kernel.modify_procs]
  split
  · rename_i h
    rw [h]
    exact hf _
  · exact .refl _

lemma promote (lv : Fin maxPrios) (prev : Option Slot) (p : Slot) (a : Promoted) :
    Redispatch a.k (promote lv prev p a).k := by
  have hw : DispatchWrite a.k (TP2Kernel.promote lv prev p a).k := by
    have h := promote_write lv prev p a
    rw [SchedWrite] at h
    rw [DispatchWrite, h]
  refine ⟨hw, fun q => ?_⟩
  simp only [TP2Kernel.promote, Kernel.modify, update_apply]
  split_ifs
  all_goals
    try subst q
    rfl

lemma agingLoop (lv : Fin maxPrios) (n : Nat) (prev node : Option Slot) (a : Promoted) :
    Redispatch a.k (agingLoop lv n prev node a).k := by
  induction n generalizing prev node a with
  | zero => exact refl _
  | succ n ih =>
    cases node with
    | none => exact refl _
    | some p =>
      simp only [TP2Kernel.agingLoop]
      split
      · exact (promote lv prev p a).trans (ih _ _ _)
      · have h1 := modify a.k p (f := fun c => { c with agingTicks := agedTicks c }) fun _ => rfl
        have h2 := ih (some p) (a.k.queueNext p)
          { a with k := a.k.modify p fun c => { c with agingTicks := agedTicks c } }
        exact h1.trans h2

lemma requeueLoop (n : Nat) (p : Option Slot) (k : Kernel) : Redispatch k (requeueLoop n p k) := by
  induction n generalizing p k with
  | zero => exact refl _
  | succ n ih =>
    cases p with
    | none => exact refl _
    | some p =>
      have h1 : Redispatch k { k with queueNext := update k.queueNext p none } := of_procs rfl rfl
      exact (h1.trans (queue (qPush_write _ p))).trans (ih _ _)

lemma applyAging (k : Kernel) : Redispatch k (applyAging k) := by
  have hfold : ∀ (ls : List (Fin maxPrios)) (a : Promoted),
      Redispatch a.k (ls.foldl agingLevel a).k := by
    intro ls
    induction ls with
    | nil => exact fun a => refl _
    | cons l ls ih => exact fun a => (agingLoop l _ _ _ a).trans (ih _)
  exact (hfold [0, 1, 2, 3] ⟨k, none, none⟩).trans (requeueLoop _ _ _)

lemma dispatch (k : Kernel) (next : Slot) : Redispatch k (dispatch k next).1 := by
  rw [dispatch_eq]
  have h1 := modify k next (f := started (decide (k.idleProc = some next))) fun _ => rfl
  exact h1.trans (of_procs rfl rfl)

lemma selectNext (k : Kernel) (prev : Slot) : Redispatch k (selectNext k prev).1 := by
  have h0 : Redispatch k (pickNext (TP2Kernel.applyAging k)).1 :=
    (applyAging k).trans (queue (pickNext_write _))
  unfold TP2Kernel.selectNext
  generalize pickNext (TP2Kernel.applyAging k) = r at h0 ⊢
  obtain ⟨k1, picked⟩ := r
  dsimp only at h0 ⊢
  have hk : Redispatch k { k1 with current := some prev } := h0.trans (of_procs rfl rfl)
  split
  · exact hk
  · split
    · exact h0.trans (dispatch k1 _)
    · split
      · split
        · exact h0.trans (dispatch k1 _)
        · exact hk
      · exact hk

lemma schedulePrev (k : Kernel) (prev : Slot) : Redispatch k (schedulePrev k prev) := by
  have h0 : Redispatch k (putBack k prev) := by
    unfold putBack
    split
    · exact (modify k prev (f := preempted) fun _ => rfl).trans (queue (qPush_write _ prev))
    · exact refl k
  rw [schedulePrev_eq]
  split
  · exact h0.trans (modify _ prev fun _ => rfl)
  · exact h0

/-- `schedule` writes to the processes and their queues only. -/
theorem schedule (k : Kernel) (rsp : Frame) : Redispatch k (schedule k rsp).1 := by
  unfold TP2Kernel.schedule
  split
  · rename_i cur _ _
    have h1 := modify k cur (f := fun c => { c with kframe := some rsp }) fun _ => rfl
    dsimp only
    split
    · have h2 := h1.trans (modify _ cur (f := fun c => { c with ticksLeft := c.ticksLeft - 1 })
        fun _ => rfl)
      split
      · exact h2
      · exact h2.trans ((schedulePrev _ cur).trans (selectNext _ cur))
    · split
      · exact h1
      · exact h1.trans ((schedulePrev _ cur).trans (selectNext _ cur))
  · exact of_procs rfl rfl

lemma yield (k : Kernel) (rsp : Frame) : Redispatch k (k.yield rsp).1 := by
  rw [show (k.yield rsp).1 = (schedForceYield k rsp).1 from rfl]
  unfold schedForceYield
  cases k.current with
  | none => exact schedule k rsp
  | some c =>
    have h1 := modify k c (f := fun c => { c with ticksLeft := 0 }) fun _ => rfl
    exact h1.trans (schedule _ rsp)

lemma blockAndYield (k : Kernel) (p : Slot) (rsp : Frame) :
    Redispatch k (k.blockAndYield p rsp).1 := by
  have h1 := modify k p (f := fun c => { c with state := .blocked, ticksLeft := 0 }) fun _ => rfl
  exact h1.trans (yield _ rsp)

end Redispatch

end TP2Kernel.Proofs
