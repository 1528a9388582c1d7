import TP2Kernel.Syscalls
import TP2Kernel.Proofs.Closing

/-!
# Relations kept by reaping and waking

`proc_unblock` starts with `collect_zombies`, which may destroy descriptor tables and close
pipes, and closing a pipe wakes processes. A relation between the kernels before and after
holds of all of these functions once it holds of the few kinds of writes they are made of.
Every wake-up of these functions is that of a process that is queued on a pipe.
-/

namespace TP2Kernel.Proofs
open Function

/-- The blocks that are freed where processes are woken and reaped. -/
def BlockKind.reaped : BlockKind → Bool
  | .sem | .semWaiter | .ttyWaiter => false
  | _ => true

/-- What reaping writes to a PCB. -/
def Handled (c c' : Pcb) : Prop :=
  c' = { c with
    kstackBase := c'.kstackBase, used := c'.used, waitRes := c'.waitRes
    pendingExitPid := c'.pendingExitPid, pendingExitCode := c'.pendingExitCode
    pendingExitValid := c'.pendingExitValid, fdTable := c'.fdTable } ∧ (c'.used → c.used)

/-- What reaping and the scheduler write to a PCB. -/
def HandledAny (c c' : Pcb) : Prop :=
  c' = { c with
    state := c'.state, priority := c'.priority, ticksLeft := c'.ticksLeft
    agingTicks := c'.agingTicks, kstackBase := c'.kstackBase, used := c'.used
    waitRes := c'.waitRes, pendingExitPid := c'.pendingExitPid
    pendingExitCode := c'.pendingExitCode, pendingExitValid := c'.pendingExitValid
    fdTable := c'.fdTable } ∧ (c'.used → c.used)

/-- What waking and reaping do to a pipe: queued processes leave. -/
def Drained (c c' : Kpipe) : Prop :=
  c'.rWaiters.Sublist c.rWaiters ∧ c'.wWaiters.Sublist c.wWaiters

/-- The kernels agree on everything but the links of zombies and families, the files and the
tables. -/
def LinkWrite (k k' : Kernel) : Prop :=
  k' = { k with
    cleanupNext := k'.cleanupNext, childHead := k'.childHead, siblingNext := k'.siblingNext
    zombieHead := k'.zombieHead, files := k'.files, tables := k'.tables }

/-- The kernels agree on everything but the links of lists, the files and the tables. -/
def LinkWriteAny (k k' : Kernel) : Prop :=
  k' = { k with
    queueNext := k'.queueNext, cleanupNext := k'.cleanupNext, childHead := k'.childHead
    siblingNext := k'.siblingNext, zombieHead := k'.zombieHead, readyHead := k'.readyHead
    readyTail := k'.readyTail, current := k'.current, files := k'.files, tables := k'.tables }

/-- The process takes part in scheduling. -/
def Awake (c : Pcb) : Prop := c.state ≠ .blocked ∧ c.state ≠ .exited

/-- What `proc_unblock` writes to a process before it enters the ready queues. -/
def readied (c : Pcb) : Pcb :=
  { c with state := .ready, ticksLeft := timeSliceTicks, agingTicks := 0 }

/-- The relation holds of the writes that waking and reaping consist of, if only pids in `W` are
woken. `I` is what the relation rests on in the kernel before. -/
structure ReapClosed (I : Kernel → Prop) (W : Int → Prop) (R : Kernel → Kernel → Prop) : Prop where
  refl : ∀ k, R k k
  trans : ∀ {k k' k''}, R k k' → R k' k'' → R k k''
  given : ∀ {k k'}, (I k → R k k') → R k k'
  link : ∀ {k k'}, LinkWrite k k' → R k k'
  modify : ∀ k p f, Handled (k.procs p) (f (k.procs p)) → R k (k.modify p f)
  ready : ∀ k p, W (k.procs p).pid → R k (k.modify p readied)
  enqueue : ∀ k p, Awake (k.procs p) → R k (schedEnqueue k p)
  pipe : ∀ k p f, Drained (k.pipes p) (f (k.pipes p)) → R k (k.modifyPipe p f)
  free : ∀ k {b}, BlockKind.reaped b.kind = true → R k (k.mmFree b)
  queued : ∀ {k}, I k → ∀ p w, w ∈ (k.pipes p).rWaiters ∨ w ∈ (k.pipes p).wWaiters →
    W (k.procs w.proc).pid

/-- The relation holds of these writes whoever is woken. -/
structure ReapLoose (R : Kernel → Kernel → Prop) : Prop where
  refl : ∀ k, R k k
  trans : ∀ {k k' k''}, R k k' → R k' k'' → R k k''
  link : ∀ {k k'}, LinkWriteAny k k' → R k k'
  modify : ∀ k p f, HandledAny (k.procs p) (f (k.procs p)) → R k (k.modify p f)
  pipe : ∀ k p f, Drained (k.pipes p) (f (k.pipes p)) → R k (k.modifyPipe p f)
  free : ∀ k {b}, BlockKind.reaped b.kind = true → R k (k.mmFree b)

/-- Everyone may be woken. -/
abbrev Anyone (_ : Int) : Prop := True

/-- Nothing is asked of the kernel before. -/
abbrev Anyhow (_ : Kernel) : Prop := True

lemma LinkWrite.any {k k' : Kernel} (h : LinkWrite k k') : LinkWriteAny k k' := by
  rw [LinkWrite] at h
  rw [LinkWriteAny, h]

lemma dequeueReader_mem {a c : Kpipe} {w : Waiter} (h : a.dequeueReader = (c, some w)) :
    w ∈ a.rWaiters := by
  unfold Kpipe.dequeueReader at h
  split at h
  · cases h
  · rename_i w' ws hw
    cases h
    rw [hw]
    exact List.mem_cons_self

lemma dequeueWriter_mem {a c : Kpipe} {w : Waiter} (h : a.dequeueWriter = (c, some w)) :
    w ∈ a.wWaiters := by
  unfold Kpipe.dequeueWriter at h
  split at h
  · cases h
  · rename_i w' ws hw
    cases h
    rw [hw]
    exact List.mem_cons_self

namespace ReapLoose

variable {R : Kernel → Kernel → Prop} (hR : ReapLoose R)
include hR

lemma qPush (k : Kernel) (p : Slot) : R k (qPush k p) := by
  unfold TP2Kernel.qPush
  dsimp only
  split
  · exact hR.link rfl
  · exact hR.link rfl
  · exact hR.link rfl

lemma schedEnqueue (k : Kernel) (p : Slot) : R k (schedEnqueue k p) := by
  unfold TP2Kernel.schedEnqueue
  split
  · have h1 := hR.modify k p (fun c => { c with state := .running, ticksLeft := timeSliceTicks })
      ⟨rfl, id⟩
    exact hR.trans h1 (hR.link rfl)
  · have h1 := hR.modify k p (fun c => { c with priority := clampPrio c.priority }) ⟨rfl, id⟩
    refine hR.trans h1 (hR.trans (hR.link ?_) (hR.trans (hR.modify _ p (fun c =>
      { c with state := .ready, ticksLeft := timeSliceTicks, agingTicks := 0 }) ⟨rfl, id⟩)
      (hR.qPush _ p)))
    rfl

theorem closed : ReapClosed Anyhow Anyone R where
  refl := hR.refl
  trans := hR.trans
  given h := h trivial
  link h := hR.link h.any
  modify k p f h := by
    apply hR.modify k p f ⟨_, h.2⟩
    rw [h.1]
  ready k p _ := hR.modify k p readied ⟨rfl, id⟩
  enqueue k p _ := hR.schedEnqueue k p
  pipe := hR.pipe
  free := hR.free
  queued _ _ _ _ := trivial

end ReapLoose

namespace ReapClosed

variable {I : Kernel → Prop} {W : Int → Prop} {R : Kernel → Kernel → Prop}
  (hR : ReapClosed I W R) {unblock : Kernel → Int → Kernel}
include hR

lemma thenIf {c : Prop} [Decidable c] {k k' k'' : Kernel} (h : R k k') (h' : R k' k'') :
    R k (if c then k'' else k') := by
  split
  · exact hR.trans h h'
  · exact h

lemma foldl {β : Type*} {f : Kernel → β → Kernel} (hf : ∀ k x, R k (f k x)) (l : List β)
    (k : Kernel) : R k (l.foldl f k) := by
  induction l generalizing k with
  | nil => exact hR.refl k
  | cons x l ih => exact hR.trans (hf k x) (ih _)

lemma frees (bs : List Block) (hb : ∀ b ∈ bs, BlockKind.reaped b.kind = true) (k : Kernel) :
    R k (bs.foldl Kernel.mmFree k) := by
  induction bs generalizing k with
  | nil => exact hR.refl k
  | cons b bs ih =>
    have h1 := hR.free k (hb b (by simp))
    exact hR.trans h1 (ih (fun c hc => hb c (by simp [hc])) _)

lemma dequeueReader {k : Kernel} {p : Nat} {c : Kpipe} {w : Waiter}
    (h : (k.pipes p).dequeueReader = (c, some w)) :
    R k ((k.modifyPipe p fun _ => c).mmFree ⟨.pipeWaiter, w.node⟩) := by
  have h1 : Drained (k.pipes p) c := by
    unfold Kpipe.dequeueReader at h
    split at h
    · cases h
    · rename_i w' ws hw
      cases h
      exact ⟨by rw [hw]; exact List.sublist_cons_self w ws, List.Sublist.refl _⟩
  exact hR.trans (hR.pipe k p _ h1) (hR.free _ rfl)

lemma dequeueWriter {k : Kernel} {p : Nat} {c : Kpipe} {w : Waiter}
    (h : (k.pipes p).dequeueWriter = (c, some w)) :
    R k ((k.modifyPipe p fun _ => c).mmFree ⟨.pipeWaiter, w.node⟩) := by
  have h1 : Drained (k.pipes p) c := by
    unfold Kpipe.dequeueWriter at h
    split at h
    · cases h
    · rename_i w' ws hw
      cases h
      exact ⟨List.Sublist.refl _, by rw [hw]; exact List.sublist_cons_self w ws⟩
  exact hR.trans (hR.pipe k p _ h1) (hR.free _ rfl)

lemma pipeFree (k : Kernel) (p : Nat) : R k (pipeFree k p) := by
  unfold TP2Kernel.pipeFree
  have h1 := hR.frees
    (((k.pipes p).rWaiters ++ (k.pipes p).wWaiters).map fun w => (⟨.pipeWaiter, w.node⟩ : Block))
    (fun b hb => by
      obtain ⟨w, -, rfl⟩ := List.mem_map.mp hb
      rfl) k
  exact hR.trans h1 (hR.free _ rfl)

lemma cleanupWaitResults (k : Kernel) (p : Slot) : R k (cleanupWaitResults k p) := by
  unfold TP2Kernel.cleanupWaitResults
  have h1 := hR.frees ((k.procs p).waitRes.map fun r => (⟨.waitResult, r.node⟩ : Block))
    (fun b hb => by
      obtain ⟨r, -, rfl⟩ := List.mem_map.mp hb
      rfl) k
  exact hR.trans h1 (hR.modify _ p _ ⟨rfl, id⟩)

lemma freeKstack (k : Kernel) (p : Slot) : R k (freeKstack k p) := by
  unfold TP2Kernel.freeKstack
  split
  · exact hR.trans (hR.free k rfl) (hR.modify _ p _ ⟨rfl, id⟩)
  · exact hR.refl k

lemma unblockTarget (k : Kernel) (pid : Int) (hw : W pid) : R k (unblockTarget k pid).1 := by
  unfold TP2Kernel.unblockTarget
  split
  · exact hR.refl k
  · rename_i p hp
    split
    · exact hR.refl k
    · split
      · have hpid := (procByPid_some hp).2.2
        have h1 := hR.ready k p (hpid ▸ hw)
        apply hR.trans h1 (hR.enqueue _ p _)
        simp [readied, Awake]
      · exact hR.refl k

section Closing

variable (hu : ∀ k pid, W pid → R k (unblock k pid))
include hu

lemma drainReaders (p n : Nat) (k : Kernel) : R k (drainReaders unblock p n k) := by
  induction n generalizing k with
  | zero => exact hR.refl k
  | succ n ih =>
    rw [TP2Kernel.drainReaders]
    split
    · exact hR.refl k
    · rename_i c w hd
      apply hR.given
      intro hI
      have hw := hR.queued hI p w (.inl (dequeueReader_mem hd))
      exact hR.trans (hR.trans (hR.dequeueReader hd) (hu _ _ hw)) (ih _)

lemma drainWriters (p n : Nat) (k : Kernel) : R k (drainWriters unblock p n k) := by
  induction n generalizing k with
  | zero => exact hR.refl k
  | succ n ih =>
    rw [TP2Kernel.drainWriters]
    split
    · exact hR.refl k
    · rename_i c w hd
      apply hR.given
      intro hI
      have hw := hR.queued hI p w (.inr (dequeueWriter_mem hd))
      exact hR.trans (hR.trans (hR.dequeueWriter hd) (hu _ _ hw)) (ih _)

lemma kpipeClose (k : Kernel) (p : Nat) (rd wr : Bool) : R k (kpipeClose unblock k p rd wr) := by
  unfold TP2Kernel.kpipeClose
  have h0 : R k (k.modifyPipe p fun c => pipeDropUser c rd wr) :=
    hR.pipe k p _ ⟨List.Sublist.refl _, List.Sublist.refl _⟩
  refine hR.thenIf ?_ (hR.pipeFree _ p)
  refine hR.thenIf ?_ (hR.drainWriters hu p _ _)
  exact hR.thenIf h0 (hR.drainReaders hu p _ _)

lemma fileClose (k : Kernel) (f : Nat) : R k (fileClose unblock k f) := by
  unfold TP2Kernel.fileClose
  split
  · exact hR.refl k
  · exact hR.kpipeClose hu k _ _ _

lemma fileRelease (k : Kernel) (f : Nat) : R k (fileRelease unblock k f) := by
  unfold TP2Kernel.fileRelease
  have h0 : R k (k.modifyFile f fun c => { c with refcount := c.refcount - 1 }) := hR.link rfl
  dsimp only
  split
  · exact h0
  · exact hR.trans (hR.trans h0 (hR.fileClose hu _ f)) (hR.free _ rfl)

lemma fdTableDestroy (k : Kernel) (t : Nat) : R k (fdTableDestroy unblock k t) := by
  have hstep : ∀ k fd, R k (fdTableDestroyStep unblock t k fd) := by
    intro k fd
    unfold fdTableDestroyStep
    split
    · exact hR.refl k
    · exact hR.trans (hR.fileRelease hu k _) (hR.link rfl)
  exact hR.trans (hR.foldl hstep _ k) (hR.free _ rfl)

lemma dropTable (k : Kernel) (p : Slot) : R k (Proofs.dropTable unblock k p) := by
  unfold Proofs.dropTable
  split
  · exact hR.trans (hR.fdTableDestroy hu k _) (hR.modify _ p _ ⟨rfl, id⟩)
  · exact hR.refl k

lemma releaseSlot (k : Kernel) (p : Slot) : R k (releaseSlot unblock k p) := by
  have h1 := hR.trans (hR.dropTable hu k p) (hR.cleanupWaitResults _ p)
  have h2 := hR.trans h1 (hR.modify _ p
    (fun c => { c with pendingExitValid := false, used := false }) ⟨rfl, by simp⟩)
  exact hR.trans h2 (hR.link rfl)

lemma collectLoop (n : Nat) (cursor pending : Option Slot) (k : Kernel) :
    R k (collectLoop unblock n cursor pending k) := by
  induction n generalizing cursor pending k with
  | zero => exact hR.link rfl
  | succ n ih =>
    cases cursor with
    | none => exact hR.link rfl
    | some p =>
      simp only [TP2Kernel.collectLoop]
      have h0 : R k { k with cleanupNext := update k.cleanupNext p none } := hR.link rfl
      split
      · have h1 := hR.trans h0 (hR.freeKstack _ p)
        have h2 := hR.trans h1 (hR.cleanupWaitResults _ p)
        exact hR.trans (hR.trans h2 (hR.releaseSlot hu _ p)) (ih _ _ _)
      · refine hR.trans (hR.trans h0 (hR.link ?_)) (ih _ _ _)
        rfl

end Closing

lemma procUnblockDepth (n : Nat) (k : Kernel) (pid : Int) (hw : W pid) :
    R k (procUnblockDepth n k pid) := by
  induction n generalizing k pid with
  | zero =>
    exact hR.trans (hR.collectLoop (fun k _ _ => hR.refl k) _ _ _ k) (hR.unblockTarget _ pid hw)
  | succ n ih => exact hR.trans (hR.collectLoop ih _ _ _ k) (hR.unblockTarget _ pid hw)

theorem collectZombies (k : Kernel) : R k (collectZombies k) :=
  hR.collectLoop (hR.procUnblockDepth _) _ _ _ k

theorem procUnblock (k : Kernel) (pid : Int) (hw : W pid) : R k (procUnblock k pid).1 :=
  hR.trans (hR.collectZombies k) (hR.unblockTarget _ pid hw)

theorem wake (k : Kernel) (pid : Int) (hw : W pid) : R k (wake k pid) := hR.procUnblock k pid hw

end ReapClosed

end TP2Kernel.Proofs
