import TP2Kernel.Proofs.Frames
import TP2Kernel.Proofs.Calls

/-!
# Relations kept by system calls

What holds between the kernels before and after the writes that the calls of one process `c`
consist of holds between the kernels before and after a call. The terminations, which also hand
over the foreground, and `proc_create` are built from more than these writes.
-/

namespace TP2Kernel.Proofs
open Function LinkedList

/-- What the calls write to a PCB beside the scheduler's frame. -/
def Written (c c' : Pcb) : Prop :=
  c' = { c' with pid := c.pid, name := c.name, fg := c.fg, kframe := c.kframe } ∧
    (c'.used → c.used) ∧ (c'.waitingFor = c.waitingFor ∨ c'.waitingFor = 0)

/-- The process neither becomes ready nor runs. -/
def Rests (c c' : Pcb) : Prop :=
  c'.state = c.state ∨ c'.state = .exited ∨ c'.state = .blocked

/-- Processes leave a queue, or process `c` joins it. -/
def Joins (c : Option Slot) (ws ws' : List Waiter) : Prop :=
  ws'.Sublist ws ∨ ∃ cur node, c = some cur ∧ ws' = ws ++ [⟨node, cur⟩]

lemma Joins.refl (c : Option Slot) (ws : List Waiter) : Joins c ws ws := .inl (.refl ws)

/-- The kernels agree on everything but the tables of names and the heap. -/
def IndexWrite (k k' : Kernel) : Prop :=
  k' = { k with
    pipeBuckets := k'.pipeBuckets, semBuckets := k'.semBuckets, heap := k'.heap } ∧
    k.heap.next ≤ k'.heap.next

/-- The relation holds of the writes that the calls of process `c` consist of, if only pids in
`W` are woken. -/
structure CallClosed (c : Option Slot) (I : Kernel → Prop) (W : Int → Prop)
    (R : Kernel → Kernel → Prop) : Prop extends ReapClosed I W R where
  index : ∀ {k k'}, IndexWrite k k' → R k k'
  write : ∀ k p f, Written (k.procs p) (f (k.procs p)) → Rests (k.procs p) (f (k.procs p)) →
    R k (k.modify p f)
  rouse : ∀ k p, Awake (k.procs p) → R k (k.modify p fun a => { a with state := .ready })
  wait : ∀ k p n, c = some p → R k (k.modify p fun a => { a with waitingFor := n })
  queue : ∀ k p f, Joins c (k.pipes p).rWaiters (f (k.pipes p)).rWaiters →
    Joins c (k.pipes p).wWaiters (f (k.pipes p)).wWaiters → R k (k.modifyPipe p f)
  tty : ∀ k f, (f k.tty).fgPid = k.tty.fgPid → Joins c k.tty.waiters (f k.tty).waiters →
    R k (k.modifyTty f)
  sem : ∀ k s f, Joins c (k.sems s).waiters (f (k.sems s)).waiters → R k (k.modifySem s f)
  handle : ∀ k i e, (∀ h, e = some h → ∃ cur, c = some cur ∧ h.ownerPid = (k.procs cur).pid) →
    R k { k with semHandles := update k.semHandles i e }
  remove : ∀ k p, R k (schedRemove k p)
  yield : ∀ k rsp, R k (k.yield rsp).1
  block : ∀ k p rsp, c = some p → R k (k.blockAndYield p rsp).1
  semQueued : ∀ {k}, I k → ∀ s, ∀ w ∈ (k.sems s).waiters, W (k.procs w.proc).pid
  ttyQueued : ∀ {k}, I k → ∀ w ∈ k.tty.waiters, W (k.procs w.proc).pid
  parent : ∀ {k p q}, I k → (k.procs q).used →
    ((k.procs q).waitingFor = (k.procs p).pid ∨ (k.procs q).waitingFor = -1) →
    (k.procs p).pid ≠ 0 → W (k.procs q).pid

/-- The relation holds of these writes whoever is woken and dispatched. -/
structure CallLoose (c : Option Slot) (R : Kernel → Kernel → Prop) : Prop
    extends ReapLoose R where
  index : ∀ {k k'}, IndexWrite k k' → R k k'
  write : ∀ k p f, Written (k.procs p) (f (k.procs p)) → R k (k.modify p f)
  wait : ∀ k p n, c = some p → R k (k.modify p fun a => { a with waitingFor := n })
  queue : ∀ k p f, Joins c (k.pipes p).rWaiters (f (k.pipes p)).rWaiters →
    Joins c (k.pipes p).wWaiters (f (k.pipes p)).wWaiters → R k (k.modifyPipe p f)
  tty : ∀ k f, (f k.tty).fgPid = k.tty.fgPid → Joins c k.tty.waiters (f k.tty).waiters →
    R k (k.modifyTty f)
  sem : ∀ k s f, Joins c (k.sems s).waiters (f (k.sems s)).waiters → R k (k.modifySem s f)
  handle : ∀ k i e, (∀ h, e = some h → ∃ cur, c = some cur ∧ h.ownerPid = (k.procs cur).pid) →
    R k { k with semHandles := update k.semHandles i e }
  dispatch : ∀ {k k'}, Redispatch k k' → R k k'

theorem CallLoose.closed {c : Option Slot} {R : Kernel → Kernel → Prop} (hR : CallLoose c R) :
    CallClosed c Anyhow Anyone R where
  toReapClosed := hR.toReapLoose.closed
  index := hR.index
  write k p f h _ := hR.write k p f h
  rouse k p _ := hR.write k p _ ⟨rfl, id, .inl rfl⟩
  wait := hR.wait
  queue := hR.queue
  tty := hR.tty
  sem := hR.sem
  handle := hR.handle
  remove k p := by
    have h := schedRemove_write k p
    apply hR.link
    rw [RemoveWrite] at h
    rw [LinkWriteAny, h]
  yield k rsp := hR.dispatch (.yield k rsp)
  block k p rsp _ := hR.dispatch (.blockAndYield k p rsp)
  semQueued _ _ _ _ := trivial
  ttyQueued _ _ _ := trivial
  parent _ _ _ _ := trivial

/-- What the relation preserves is kept by these writes. -/
theorem CallLoose.stable {c : Option Slot} {R : Kernel → Kernel → Prop} {P : Kernel → Prop}
    (hR : CallLoose c R) (hP : ∀ {k k'}, R k k' → P k → P k') :
    CallLoose c fun k k' => P k → P k' where
  refl _ h := h
  trans h h' hp := h' (h hp)
  link h := hP (hR.link h)
  modify k p f h := hP (hR.modify k p f h)
  pipe k p f h := hP (hR.pipe k p f h)
  free k _ h := hP (hR.free k h)
  index h := hP (hR.index h)
  write k p f h := hP (hR.write k p f h)
  wait k p n h := hP (hR.wait k p n h)
  queue k p f hr hw := hP (hR.queue k p f hr hw)
  tty k f hf h := hP (hR.tty k f hf h)
  sem k s f h := hP (hR.sem k s f h)
  handle k i e h := hP (hR.handle k i e h)
  dispatch h := hP (hR.dispatch h)

/-- A transfer of `kpipe_read` takes at most the first writer from its queue. -/
lemma readSection_transfer {a c : Kpipe} {n : Nat} {bytes : List UInt8} {writer : Option Waiter}
    (h : a.readSection n = .transfer c bytes writer) : c.rWaiters = a.rWaiters ∧
      ((writer = none ∧ c.wWaiters = a.wWaiters) ∨
        ∃ w, writer = some w ∧ a.wWaiters = w :: c.wWaiters) := by
  unfold Kpipe.readSection at h
  split at h
  · unfold Kpipe.dequeueWriter at h
    dsimp only at h
    split at h
    · cases h
      exact ⟨rfl, .inl ⟨rfl, rfl⟩⟩
    · rename_i w ws hw
      cases h
      exact ⟨rfl, .inr ⟨w, rfl, hw⟩⟩
  · split at h
    · cases h
    · cases h

/-- A transfer of `kpipe_write` takes at most the first reader from its queue. -/
lemma writeSection_transfer {a c : Kpipe} {src : List UInt8} {count : Nat}
    {reader : Option Waiter} (h : a.writeSection src = .transfer c count reader) :
    c.wWaiters = a.wWaiters ∧ ((reader = none ∧ c.rWaiters = a.rWaiters) ∨
      ∃ w, reader = some w ∧ a.rWaiters = w :: c.rWaiters) := by
  unfold Kpipe.writeSection at h
  split at h
  · cases h
  · split at h
    · unfold Kpipe.dequeueReader at h
      dsimp only at h
      split at h
      · cases h
        exact ⟨rfl, .inl ⟨rfl, rfl⟩⟩
      · rename_i w ws hw
        cases h
        exact ⟨rfl, .inr ⟨w, rfl, hw⟩⟩
    · cases h

namespace CallClosed

variable {c : Option Slot} {I : Kernel → Prop} {W : Int → Prop} {R : Kernel → Kernel → Prop}
  (hR : CallClosed c I W R)
include hR

lemma malloc (k : Kernel) : R k k.mmMalloc.1 := hR.index ⟨rfl, Nat.le_succ _⟩

lemma freeAny (k : Kernel) (b : Block) : R k (k.mmFree b) := hR.index ⟨rfl, le_rfl⟩

lemma freesAny (bs : List Block) (k : Kernel) : R k (bs.foldl Kernel.mmFree k) := by
  rw [Kernel.mmFrees_eq]
  exact hR.index ⟨rfl, le_rfl⟩

lemma semTable (k : Kernel) (b : Fin ksemHashBuckets → List Nat) : R k { k with semBuckets := b } :=
  hR.index ⟨rfl, le_rfl⟩

lemma pipeTable (k : Kernel) (b : Fin pipeHashBuckets → List Nat) :
    R k { k with pipeBuckets := b } := hR.index ⟨rfl, le_rfl⟩

lemma siblings (k : Kernel) (s : Slot → Option Slot) : R k { k with siblingNext := s } :=
  hR.link rfl

lemma children (k : Kernel) (s : Slot → Option Slot) : R k { k with childHead := s } :=
  hR.link rfl

lemma unready (k : Kernel) (p : Slot) : R k (unready k p) := by
  unfold TP2Kernel.unready
  split
  · exact hR.remove k p
  · exact hR.refl k

/-- Writes that leave the state alone. -/
lemma writeSame (k : Kernel) (p : Slot) (f : Pcb → Pcb) (h : Written (k.procs p) (f (k.procs p)))
    (hs : (f (k.procs p)).state = (k.procs p).state) : R k (k.modify p f) :=
  hR.write k p f h (.inl hs)

lemma sem_same (k : Kernel) (s : Nat) (f : Ksem → Ksem)
    (h : (f (k.sems s)).waiters = (k.sems s).waiters) : R k (k.modifySem s f) :=
  hR.sem k s f (by rw [h]; exact .refl c _)

lemma semFree (k : Kernel) (s : Nat) : R k (semFree k s) :=
  hR.trans (hR.freesAny _ k) (hR.freeAny _ _)

lemma semDestroyIfReady (k : Kernel) (s : Nat) : R k (semDestroyIfReady k s) := by
  unfold TP2Kernel.semDestroyIfReady
  split
  · exact hR.trans (hR.sem_same k s _ rfl) (hR.semFree _ s)
  · exact hR.refl k

lemma ksemClose (k : Kernel) (s : Nat) : R k (ksemClose k s).1 := by
  unfold TP2Kernel.ksemClose
  split
  · exact hR.refl k
  · exact hR.trans (hR.sem_same k s _ rfl) (hR.semDestroyIfReady _ s)

lemma semRemoveProc (p : Slot) (k : Kernel) (s : Nat) : R k (semRemoveProc p k s) := by
  unfold TP2Kernel.semRemoveProc
  have h1 := hR.sem k s (fun a => { a with waiters := a.waiters.filter fun w => !decide (w.proc = p) })
    (.inl List.filter_sublist)
  exact hR.trans h1 (hR.freesAny _ _)

lemma ksemRemoveWaitersFor (k : Kernel) (p : Slot) : R k (ksemRemoveWaitersFor k p) :=
  hR.foldl (fun k b => hR.foldl (hR.semRemoveProc p) (k.semBuckets b) k) _ k

lemma semCleanupProcessHandles (k : Kernel) (pid : Int) : R k (semCleanupProcessHandles k pid) := by
  apply hR.foldl
  intro k i
  unfold semCleanupStep
  split
  · split
    · have h1 := hR.handle k i none fun _ h => by cases h
      exact hR.trans h1 (hR.ksemClose _ _)
    · exact hR.refl k
  · exact hR.refl k

lemma ksemOpen (k : Kernel) (name : CStr) (init : Nat) : R k (ksemOpen k name init).1 := by
  unfold TP2Kernel.ksemOpen
  split
  · exact hR.refl k
  · split
    · exact hR.sem_same k _ (fun a => { a with refcount := incUnsigned a.refcount }) rfl
    · split
      · rename_i k1 hm
        have h1 := hR.malloc k
        rw [hm] at h1
        exact h1
      · rename_i k1 s hm
        have h1 := hR.malloc k
        rw [hm] at h1
        have h2 := hR.trans h1 (hR.sem k1 s (fun _ =>
          { name := semNameCopy name, count := init, refcount := 1, unlinked := false
            destroying := false, waiters := [] }) (.inl (List.nil_sublist _)))
        dsimp only
        split
        · exact hR.trans h2 (hR.trans (hR.sem_same _ _ _ rfl) (hR.semFree _ s))
        · exact hR.trans h2 (hR.semTable _ _)

lemma semIncrement (k : Kernel) (s : Nat) : R k (semIncrement k s) := by
  unfold TP2Kernel.semIncrement
  split
  · exact hR.sem_same k s _ rfl
  · exact hR.refl k

lemma ksemWait {k : Kernel} (hc : k.current = c) (exec : Slot) (s : Nat) :
    R k (ksemWait k exec s).1 := by
  unfold TP2Kernel.ksemWait
  have h1 := hR.malloc k
  split
  · exact hR.refl k
  · rename_i cur hcur
    split
    · rename_i k1 hm
      rw [hm] at h1
      exact h1
    · rename_i k1 node hm
      rw [hm] at h1
      split
      · exact hR.trans h1 (hR.trans (hR.sem_same k1 s _ rfl) (hR.freeAny _ _))
      · have h2 := hR.trans h1 (hR.sem k1 s (fun a => { a with waiters := a.waiters ++ [⟨node, cur⟩] })
          (.inr ⟨cur, node, by rw [← hc, hcur], rfl⟩))
        exact hR.trans h2 (hR.block _ cur _ (by rw [← hc, hcur]))

lemma ksemPost (k : Kernel) (s : Nat) : R k (ksemPost procUnblock k s).1 := by
  apply hR.given
  intro hI
  unfold TP2Kernel.ksemPost
  split
  · exact hR.semIncrement k s
  · rename_i w ws hw
    have hW := hR.semQueued hI s w (by rw [hw]; exact List.mem_cons_self)
    have h1 : R k (k.modifySem s fun a => { a with waiters := ws }) := by
      apply hR.sem
      rw [hw]
      exact .inl (List.sublist_cons_self w ws)
    have h2 := hR.trans h1 (hR.procUnblock _ _ hW)
    dsimp only
    split
    · exact hR.trans h2 (hR.freeAny _ _)
    · exact hR.trans h2 (hR.trans (hR.semIncrement _ s) (hR.freeAny _ _))

lemma sysSemOpen {k : Kernel} (hc : k.current = c) (name : CStr) (init : Nat) :
    R k (sysSemOpen k name init).1 := by
  unfold TP2Kernel.sysSemOpen
  have h1 := hR.ksemOpen k name init
  split
  · exact hR.refl k
  · rename_i cur hcur
    split
    · rename_i k1 ho
      rw [ho] at h1
      exact h1
    · rename_i k1 s ho
      rw [ho] at h1
      have h2 : R k1 (semHandleAllocate k1 s (k1.procs cur).pid).1 := by
        unfold semHandleAllocate
        split
        · exact hR.handle k1 _ _ fun h e => ⟨cur, by rw [← hc, hcur], by cases e; rfl⟩
        · exact hR.refl k1
      dsimp only
      split
      · exact hR.trans h1 (hR.trans h2 (hR.ksemClose _ s))
      · exact hR.trans h1 h2

lemma ksemUnlink (k : Kernel) (name : CStr) : R k (ksemUnlink k name).1 := by
  unfold TP2Kernel.ksemUnlink
  split
  · exact hR.refl k
  · split
    · exact hR.refl k
    · rename_i s _
      have h1 := fun b => hR.trans (hR.semTable k b)
        (hR.sem_same _ s (fun a => { a with unlinked := true }) rfl)
      exact hR.trans (h1 _) (hR.semDestroyIfReady _ s)

lemma orphanLoop (n : Nat) (g : Option Slot) (k : Kernel) : R k (orphanLoop n g k) := by
  induction n generalizing g k with
  | zero => exact hR.refl k
  | succ n ih =>
    cases g with
    | none => exact hR.refl k
    | some g =>
      have h1 := hR.writeSame k g (fun a => { a with parentPid := -1 }) ⟨rfl, id, .inl rfl⟩ rfl
      have h2 := fun s => hR.trans h1 (hR.siblings _ s)
      exact hR.trans (h2 _) (ih _ _)

lemma killChild (k : Kernel) (p : Slot) : R k (killChild k p) := by
  rw [killChild_eq]
  have h1 := hR.trans (hR.unready k p)
    (hR.write _ p markKilled ⟨rfl, id, .inr rfl⟩ (.inr (.inl rfl)))
  have h2 := hR.trans h1 (hR.children _ (update k.childHead p none))
  have h3 := hR.trans h2 (hR.orphanLoop maxProcs (k.childHead p) _)
  exact hR.trans h3 (hR.trans (hR.cleanupWaitResults _ p) (hR.link rfl))

lemma detachLoop (parent : Slot) (n : Nat) (child : Option Slot) (k : Kernel) :
    R k (detachLoop parent n child k) := by
  induction n generalizing child k with
  | zero => exact hR.refl k
  | succ n ih =>
    cases child with
    | none => exact hR.refl k
    | some p =>
      have h1 := hR.siblings k (update k.siblingNext p none)
      simp only [TP2Kernel.detachLoop]
      split
      · exact hR.trans h1 (hR.trans (hR.killChild _ p) (ih _ _))
      · split
        · have h2 := hR.trans h1 (hR.writeSame _ p (fun a => { a with parentPid := -1 })
            ⟨rfl, id, .inl rfl⟩ rfl)
          exact hR.trans h2 (ih _ _)
        · exact hR.trans h1 (ih _ _)

lemma detachChildren (k : Kernel) (parent : Slot) : R k (detachChildren k parent) :=
  hR.trans (hR.children k _) (hR.detachLoop parent _ _ _)

lemma unlinkChild (k : Kernel) (parent child : Slot) : R k (unlinkChild k parent child) := by
  unfold TP2Kernel.unlinkChild
  rw [unlinkChildLoop_links]
  exact hR.link rfl

lemma pushWaitResult (k : Kernel) (parent : Slot) (pid code : Int) :
    R k (pushWaitResult k parent pid code) := by
  rw [pushWaitResult_eq]
  apply hR.trans (hR.malloc k) (hR.writeSame _ parent _ _ _)
  · split
    · exact ⟨rfl, id, .inl rfl⟩
    · exact ⟨rfl, id, .inl rfl⟩
  · split
    · rfl
    · rfl

/-- The end of a child, which has a pid, wakes the parent that waits for it. -/
lemma notifyParentExit (k : Kernel) (p : Slot) (hp : (∀ pid, W pid) ∨ (k.procs p).pid ≠ 0) :
    R k (notifyParentExit k p) := by
  unfold TP2Kernel.notifyParentExit
  have h0 := hR.writeSame k p (fun a => { a with zombieReapable := true }) ⟨rfl, id, .inl rfl⟩ rfl
  have hp0 : (∀ pid, W pid) ∨
      ((k.modify p fun a => { a with zombieReapable := true }).procs p).pid ≠ 0 := by
    rw [Kernel.modify_procs_self]
    exact hp
  generalize (k.modify p fun a => { a with zombieReapable := true }) = k0 at h0 hp0 ⊢
  dsimp only
  split
  · exact h0
  · split
    · exact h0
    · rename_i parent hpar
      obtain ⟨-, hu, -⟩ := procByPid_some hpar
      have h1 := hR.trans h0 (hR.unlinkChild _ parent p)
      have e1 : (TP2Kernel.unlinkChild k0 parent p).procs = k0.procs := by
        unfold TP2Kernel.unlinkChild
        rw [unlinkChildLoop_links]
      generalize TP2Kernel.unlinkChild k0 parent p = k1 at h1 e1 ⊢
      have h2 := hR.trans h1 (hR.pushWaitResult k1 parent (k1.procs p).pid (k1.procs p).exitCode)
      have e2 : ∀ x, ((TP2Kernel.pushWaitResult k1 parent (k1.procs p).pid
          (k1.procs p).exitCode).procs x).pid = (k0.procs x).pid ∧
          ((TP2Kernel.pushWaitResult k1 parent (k1.procs p).pid
          (k1.procs p).exitCode).procs x).used = (k0.procs x).used := by
        intro x
        have hs := (pushWaitResult_sched k1 parent (k1.procs p).pid (k1.procs p).exitCode x).1
        rw [hs.pid, hs.used, e1]
        exact ⟨rfl, rfl⟩
      generalize TP2Kernel.pushWaitResult k1 parent (k1.procs p).pid (k1.procs p).exitCode = k2
        at h2 e2 ⊢
      have h3 := hR.trans h2 (hR.writeSame _ p (fun a => { a with parentPid := -1 })
        ⟨rfl, id, .inl rfl⟩ rfl)
      have e3 : ∀ x, ((k2.modify p fun a => { a with parentPid := -1 }).procs x).pid =
          (k0.procs x).pid ∧ ((k2.modify p fun a => { a with parentPid := -1 }).procs x).used =
          (k0.procs x).used := by
        intro x
        rw [Kernel.modify_procs]
        split
        · rename_i hx
          rw [hx]
          exact e2 p
        · exact e2 x
      generalize (k2.modify p fun a => { a with parentPid := -1 }) = k3 at h3 e3 ⊢
      split
      · rename_i hw
        apply hR.trans h3
        apply hR.given
        intro hI
        have hW : W (k3.procs parent).pid := by
          rcases hp0 with hall | hp0
          · exact hall _
          · apply hR.parent hI _ hw.2
            · rw [(e3 p).1]
              exact hp0
            · rw [(e3 parent).2]
              exact hu
        have h4 := hR.writeSame k3 parent (fun a => { a with waitingFor := 0 }) ⟨rfl, id, .inr rfl⟩ rfl
        apply hR.trans h4 (hR.wake _ _ _)
        rw [Kernel.modify_procs_self]
        exact hW
      · exact h3

/-- The slot of `p` is on the zombie list behind this. -/
lemma buryProc (k : Kernel) (p : Slot)
    (hp : (∀ pid, W pid) ∨ ((TP2Kernel.detachChildren k p).procs p).pid ≠ 0) :
    R k (buryProc k p) := by
  unfold TP2Kernel.buryProc
  have h0 := hR.trans (hR.detachChildren k p) (hR.notifyParentExit _ p hp)
  have h1 := hR.trans h0 (hR.dropTable hR.wake _ p)
  exact hR.trans h1 (hR.trans (hR.cleanupWaitResults _ p) (hR.link rfl))

/-- The last part of a termination, from the `EXITED` mark on. -/
lemma bury (k : Kernel) (p : Slot) (code : Int) (valid : Pcb → Bool)
    (hp : (∀ pid, W pid) ∨
      ((TP2Kernel.detachChildren (k.modify p (exitMark code valid)) p).procs p).pid ≠ 0) :
    R k (TP2Kernel.buryProc (k.modify p (exitMark code valid)) p) := by
  have h1 := hR.write k p (exitMark code valid) ⟨rfl, id, .inr rfl⟩ (.inr (.inl rfl))
  exact hR.trans h1 (hR.buryProc _ p hp)

lemma consumeWaitResult (k : Kernel) (parent : Slot) (pid : Int) :
    R k (consumeWaitResult k parent pid).1 := by
  unfold TP2Kernel.consumeWaitResult
  split
  · rename_i r _
    have h1 := hR.writeSame k parent (fun a => { a with waitRes := a.waitRes.erase r })
      ⟨rfl, id, .inl rfl⟩ rfl
    exact hR.trans h1 (hR.freeAny _ _)
  · split
    · exact hR.writeSame k parent (fun a => { a with pendingExitValid := false }) ⟨rfl, id, .inl rfl⟩ rfl
    · exact hR.refl k

lemma waitPending (k : Kernel) (parent : Slot) (pid : Int) : R k (waitPending k parent pid).1 := by
  unfold TP2Kernel.waitPending
  split
  · exact hR.writeSame k parent (fun a => { a with pendingExitValid := false }) ⟨rfl, id, .inl rfl⟩ rfl
  · exact hR.refl k

lemma procWait {k : Kernel} (hc : (TP2Kernel.collectZombies k).current = c) (exec : Slot)
    (pid : Int) : R k (procWait k exec pid).1 := by
  unfold TP2Kernel.procWait
  have h0 := hR.collectZombies k
  generalize TP2Kernel.collectZombies k = k1 at hc h0 ⊢
  dsimp only
  split
  · exact h0
  · rename_i parent hp
    generalize (if pid = 0 then (-1 : Int) else pid) = target
    have h1 := hR.trans h0 (hR.consumeWaitResult k1 parent target)
    generalize TP2Kernel.consumeWaitResult k1 parent target = r at h1 ⊢
    obtain ⟨k2, waited, status⟩ := r
    dsimp only at h1 ⊢
    split
    · exact h1
    · split
      · exact hR.trans h1 (hR.waitPending k2 parent target)
      · have h2 := hR.trans h1 (hR.wait k2 parent target (by rw [← hc, hp]))
        exact hR.trans h2 (hR.block _ parent _ (by rw [← hc, hp]))

lemma procWaitResume (k : Kernel) (parent : Slot) (pid : Int) :
    R k (procWaitResume k parent pid).1 := by
  unfold TP2Kernel.procWaitResume
  have h0 := hR.collectZombies k
  generalize TP2Kernel.collectZombies k = k1 at h0 ⊢
  have h1 := hR.trans h0 (hR.consumeWaitResult k1 parent pid)
  dsimp only
  generalize TP2Kernel.consumeWaitResult k1 parent pid = r at h1 ⊢
  obtain ⟨k2, waited, status⟩ := r
  dsimp only at h1 ⊢
  have h2 := hR.trans h1 (hR.writeSame k2 parent (fun a => { a with waitingFor := 0 })
    ⟨rfl, id, .inr rfl⟩ rfl)
  split
  · exact h2
  · exact hR.trans h2 (hR.waitPending _ parent pid)

lemma procBlock {k : Kernel} (hc : (TP2Kernel.collectZombies k).current = c) (exec : Slot)
    (pid : Int) : R k (procBlock k exec pid).1 := by
  unfold TP2Kernel.procBlock
  have h0 := hR.collectZombies k
  generalize TP2Kernel.collectZombies k = k1 at hc h0 ⊢
  dsimp only
  split
  · exact h0
  · rename_i p _
    split
    · exact h0
    · split
      · exact h0
      · split
        · have h1 := hR.trans h0 (hR.unready k1 p)
          exact hR.trans h1 (hR.write _ p (fun a => { a with state := .blocked, ticksLeft := 0 })
            ⟨rfl, id, .inl rfl⟩ (.inr (.inr rfl)))
        · rename_i hcur
          apply hR.trans h0 (hR.block _ p _ _)
          rw [← hc]
          simpa using hcur

lemma procNice (k : Kernel) (exec : Slot) (pid prio : Int) : R k (procNice k exec pid prio).1 := by
  unfold TP2Kernel.procNice
  have h0 := hR.collectZombies k
  generalize TP2Kernel.collectZombies k = k1 at h0 ⊢
  dsimp only
  split
  · exact h0
  · rename_i p _
    split
    · exact h0
    · have h1 := hR.trans h0 (hR.writeSame k1 p (fun a =>
        { a with basePriority := clampPrio prio, agingTicks := 0 }) ⟨rfl, id, .inl rfl⟩ rfl)
      generalize (k1.modify p fun a =>
        { a with basePriority := clampPrio prio, agingTicks := 0 }) = k2 at h1 ⊢
      have hset : ∀ k, R k (k.modify p fun a => { a with priority := clampPrio prio }) :=
        fun k => hR.writeSame k p _ ⟨rfl, id, .inl rfl⟩ rfl
      have hput : ∀ k, (k.procs p).state = .ready → R k (TP2Kernel.schedEnqueue
          ((TP2Kernel.schedRemove k p).modify p fun a => { a with priority := clampPrio prio }) p) := by
        intro k hr
        apply hR.trans (hR.remove k p) (hR.trans (hset _) (hR.enqueue _ p _))
        rw [Kernel.modify_procs_self, schedRemove_procs]
        simp [Awake, hr]
      split
      · rename_i hr
        exact hR.trans h1 (hput _ hr)
      · split
        · rename_i hr
          have h2 := hR.trans h1 (hR.rouse k2 p (by simp [Awake, hr.1]))
          have h3 := hR.trans h2 (hput _ (by simp))
          exact hR.trans h3 (hR.yield _ _)
        · exact hR.trans h1 (hset _)

lemma pipe_same (k : Kernel) (p : Nat) (f : Kpipe → Kpipe)
    (hr : (f (k.pipes p)).rWaiters = (k.pipes p).rWaiters)
    (hw : (f (k.pipes p)).wWaiters = (k.pipes p).wWaiters) : R k (k.modifyPipe p f) :=
  hR.queue k p f (by rw [hr]; exact .refl c _) (by rw [hw]; exact .refl c _)

lemma kpipeOpen (k : Kernel) (name : CStr) (rd wr : Bool) : R k (kpipeOpen k name rd wr).1 := by
  have huser : ∀ k p, R k (pipeAddUser k p rd wr) := fun k p => hR.pipe_same k p _ rfl rfl
  unfold TP2Kernel.kpipeOpen
  split
  · exact huser k _
  · have h1 := hR.malloc k
    split
    · rename_i k1 hm
      rw [hm] at h1
      exact h1
    · rename_i k1 p hm
      rw [hm] at h1
      have h2 : R k (k1.modifyPipe p fun a =>
          { name := pipeNameCopy name
            ring := { a.ring with r := 0, w := 0, size := 0, buf := fun _ => 0 }
            readers := if rd then 1 else 0
            writers := if wr then 1 else 0
            unlinked := false
            rWaiters := []
            wWaiters := [] }) := by
        apply hR.trans h1 (hR.queue k1 p _ _ _)
        · exact .inl (List.nil_sublist _)
        · exact .inl (List.nil_sublist _)
      dsimp only
      split
      · exact hR.trans h2 (hR.trans (huser _ _) (hR.pipeFree _ p))
      · exact hR.trans h2 (hR.pipeTable _ _)

lemma fileCreate (k : Kernel) (ptr : FilePtr) (rd wr : Bool) :
    R k (fileCreate k ptr rd wr).1 := by
  have h1 := hR.malloc k
  unfold TP2Kernel.fileCreate
  split
  · rename_i k1 hm
    rw [hm] at h1
    exact h1
  · rename_i k1 f hm
    rw [hm] at h1
    exact hR.trans h1 (hR.link rfl)

lemma sysPipeOpen (k : Kernel) (name : CStr) (flags : Nat) : R k (sysPipeOpen k name flags).1 := by
  unfold TP2Kernel.sysPipeOpen
  split
  · exact hR.refl k
  · rename_i t _
    dsimp only
    split
    · exact hR.refl k
    · have h1 := hR.kpipeOpen k name (flags.testBit 0) (flags.testBit 1)
      split
      · rename_i k1 ho
        rw [ho] at h1
        exact h1
      · rename_i k1 p ho
        rw [ho] at h1
        have h2 := hR.trans h1 (hR.fileCreate k1 (.pipe p) (flags.testBit 0) (flags.testBit 1))
        split
        · rename_i k2 hf
          rw [hf] at h2
          exact hR.trans h2 (hR.kpipeClose hR.wake k2 p _ _)
        · rename_i k2 f hf
          rw [hf] at h2
          have h3 : R k2 (fdTableAllocate k2 t f).1 := by
            unfold fdTableAllocate
            split
            · exact hR.link rfl
            · exact hR.refl k2
          split
          · exact hR.trans h2 (hR.trans h3 (hR.fileRelease hR.wake _ f))
          · exact hR.trans h2 h3

lemma kpipeUnlink (k : Kernel) (name : CStr) : R k (kpipeUnlink k name).1 := by
  unfold TP2Kernel.kpipeUnlink
  split
  · exact hR.refl k
  · rename_i p _
    have h1 := fun b => hR.trans (hR.pipeTable k b)
      (hR.pipe_same _ p (fun a => { a with unlinked := true }) rfl rfl)
    dsimp only
    split
    · exact hR.trans (h1 _) (hR.pipeFree _ p)
    · exact h1 _

lemma fdTableClose (k : Kernel) (t : Nat) (fd : Int) :
    R k (fdTableClose TP2Kernel.wake k t fd).1 := by
  unfold TP2Kernel.fdTableClose
  split
  · split
    · exact hR.refl k
    · rename_i f _
      have h1 : ∀ i, R k (k.setEntry t i none) := fun i => hR.link rfl
      exact hR.trans (h1 _) (hR.fileRelease hR.wake _ f)
  · exact hR.refl k

lemma fdTableDup2 (k : Kernel) (t : Nat) (oldfd newfd : Int) :
    R k (fdTableDup2 TP2Kernel.wake k t oldfd newfd).1 := by
  unfold TP2Kernel.fdTableDup2
  split
  · split
    · exact hR.refl k
    · rename_i src _
      split
      · exact hR.refl k
      · have hset : ∀ k i, R k ((fileRef k src).setEntry t i (some src)) :=
          fun k i => hR.link rfl
        dsimp only
        split
        · exact hR.trans (hR.fileRelease hR.wake k _) (hset _ _)
        · exact hset _ _
  · exact hR.refl k

lemma kpipeReadLoop {k : Kernel} (hc : k.current = c) (exec : Slot) (p n i : Nat) :
    R k (kpipeReadLoop exec p n (i + 1) k).1 := by
  rw [TP2Kernel.kpipeReadLoop]
  have hm1 := hR.malloc k
  split
  · rename_i a bytes writer ht
    apply hR.given
    intro hI
    obtain ⟨hr, hw⟩ := readSection_transfer ht
    have hjoin : Joins c (k.pipes p).rWaiters a.rWaiters := by
      rw [hr]
      exact .refl c _
    rcases hw with ⟨rfl, hw⟩ | ⟨w, rfl, hw⟩
    · exact hR.pipe_same k p (fun _ => a) hr hw
    · have hW := hR.queued hI p w (.inr (by rw [hw]; exact List.mem_cons_self))
      have h1 : R k (k.modifyPipe p fun _ => a) := by
        apply hR.queue k p _ hjoin
        rw [hw]
        exact .inl (List.sublist_cons_self w _)
      exact hR.trans h1 (hR.trans (hR.freeAny _ _) (hR.wake _ _ hW))
  · exact hR.refl k
  · rename_i hb
    split
    · exact hR.refl k
    · rename_i cur hcur
      split
      · rename_i k1 hm
        rw [hm] at hm1
        exact hm1
      · rename_i k1 node hm
        have hk1 : k1.pipes p = k.pipes p := by
          rw [(mmMalloc_some hm).2]
        rw [hm] at hm1
        rw [hk1, readRecheck_block hb]
        have h2 : R k1 (k1.modifyPipe p fun _ => (k.pipes p).enqueueReader ⟨node, cur⟩) := by
          rw [← hk1]
          exact hR.queue k1 p _ (.inr ⟨cur, node, by rw [← hc, hcur], rfl⟩) (.refl c _)
        exact hR.trans hm1 (hR.trans h2 (hR.block _ cur _ (by rw [← hc, hcur])))

lemma kpipeWriteLoop {k : Kernel} (hc : k.current = c) (exec : Slot) (p : Nat) (src : List UInt8)
    (i : Nat) : R k (kpipeWriteLoop exec p src (i + 1) k).1 := by
  rw [TP2Kernel.kpipeWriteLoop]
  have hm1 := hR.malloc k
  split
  · exact hR.refl k
  · rename_i a count reader ht
    apply hR.given
    intro hI
    obtain ⟨hw, hr⟩ := writeSection_transfer ht
    have hjoin : Joins c (k.pipes p).wWaiters a.wWaiters := by
      rw [hw]
      exact .refl c _
    rcases hr with ⟨rfl, hr⟩ | ⟨w, rfl, hr⟩
    · exact hR.pipe_same k p (fun _ => a) hr hw
    · have hW := hR.queued hI p w (.inl (by rw [hr]; exact List.mem_cons_self))
      have h1 : R k (k.modifyPipe p fun _ => a) := by
        apply hR.queue k p _ _ hjoin
        rw [hr]
        exact .inl (List.sublist_cons_self w _)
      exact hR.trans h1 (hR.trans (hR.freeAny _ _) (hR.wake _ _ hW))
  · rename_i hb
    split
    · exact hR.refl k
    · rename_i cur hcur
      split
      · rename_i k1 hm
        rw [hm] at hm1
        exact hm1
      · rename_i k1 node hm
        have hk1 : k1.pipes p = k.pipes p := by
          rw [(mmMalloc_some hm).2]
        rw [hm] at hm1
        rw [hk1, writeRecheck_block hb]
        have h2 : R k1 (k1.modifyPipe p fun _ => (k.pipes p).enqueueWriter ⟨node, cur⟩) := by
          rw [← hk1]
          exact hR.queue k1 p _ (.refl c _) (.inr ⟨cur, node, by rw [← hc, hcur], rfl⟩)
        exact hR.trans hm1 (hR.trans h2 (hR.block _ cur _ (by rw [← hc, hcur])))

lemma ttyReadLoop {k : Kernel} (hc : k.current = c) (exec : Slot) (n i : Nat) :
    R k (ttyReadLoop exec n (i + 1) k).1 := by
  rw [TP2Kernel.ttyReadLoop]
  have hm1 := hR.malloc k
  split
  · exact hR.tty k (fun t => { t with ring := _ }) rfl (.refl c _)
  · split
    · exact hR.tty k (fun t => { t with eof := false }) rfl (.refl c _)
    · rename_i h1 h2
      split
      · exact hR.refl k
      · rename_i cur hcur
        split
        · rename_i k1 hm
          rw [hm] at hm1
          exact hm1
        · rename_i k1 node hm
          have hk1 : k1.tty = k.tty := by rw [(mmMalloc_some hm).2]
          have hneg : ¬(0 < k1.tty.ring.size ∨ k1.tty.eof = true) := by
            rw [hk1]
            exact not_or.mpr ⟨h1, h2⟩
          rw [hm] at hm1
          rw [if_neg hneg]
          have h3 := hR.tty k1 (fun a => { a with waiters := a.waiters ++ [⟨node, cur⟩] }) rfl
            (.inr ⟨cur, node, by rw [← hc, hcur], rfl⟩)
          exact hR.trans hm1 (hR.trans h3 (hR.block _ cur _ (by rw [← hc, hcur])))

lemma ttyRead {k : Kernel} (hc : k.current = c) (exec : Slot) (n : Int) :
    R k (ttyRead k exec n).1 := by
  unfold TP2Kernel.ttyRead
  split
  · exact hR.refl k
  · exact hR.ttyReadLoop hc exec _ 1

lemma fileRead {k : Kernel} (hc : k.current = c) (exec cur : Slot) (f : Nat) (n : Int) :
    R k (fileRead k exec cur f n).1 := by
  unfold TP2Kernel.fileRead
  split
  · unfold fdTtyRead
    split
    · exact hR.refl k
    · split
      · exact hR.refl k
      · exact hR.ttyRead hc exec n
  · split
    · unfold kpipeRead
      split
      · exact hR.refl k
      · exact hR.kpipeReadLoop hc exec _ _ 1
    · exact hR.refl k

lemma fileWrite {k : Kernel} (hc : k.current = c) (exec : Slot) (f : Nat) (src : List UInt8) :
    R k (fileWrite k exec f src).1 := by
  unfold TP2Kernel.fileWrite
  split
  · exact hR.refl k
  · split
    · exact hR.refl k
    · unfold kpipeWrite
      split
      · exact hR.refl k
      · exact hR.kpipeWriteLoop hc exec _ src 1

/-- The first waiter of the terminal leaves its queue and is woken. -/
lemma ttyWake (k : Kernel) : R k (wakeDequeued (dequeueWaiter k).1 (dequeueWaiter k).2) := by
  apply hR.given
  intro hI
  unfold dequeueWaiter
  split
  · exact hR.refl k
  · rename_i w ws hw
    have hW := hR.ttyQueued hI w (by rw [hw]; exact List.mem_cons_self)
    have h1 : R k (k.modifyTty fun t => { t with waiters := ws }) := by
      apply hR.tty k _ rfl
      rw [hw]
      exact .inl (List.sublist_cons_self w ws)
    exact hR.trans h1 (hR.trans (hR.freeAny _ _) (hR.wake _ _ hW))

/-- A typed character that is no Ctrl-C. -/
lemma ttyPushChar (k : Kernel) (exec : Slot) {ch : UInt8} (hch : ch ≠ 3) :
    R k (ttyPushChar k exec ch).1 := by
  unfold TP2Kernel.ttyPushChar
  rw [if_neg hch]
  split
  · have h1 := hR.tty k (fun t => { t with eof := true }) rfl (.refl c _)
    exact hR.trans h1 (hR.ttyWake _)
  · have hput : ∀ k, R k (k.modifyTty fun t => { t with ring := t.ring.put ch }) :=
      fun k => hR.tty k _ rfl (.refl c _)
    dsimp only
    split
    · have h1 := hR.tty k (fun t => { t with ring := t.ring.drop }) rfl (.refl c _)
      exact hR.trans h1 (hR.trans (hput _) (hR.ttyWake _))
    · exact hR.trans (hput _) (hR.ttyWake _)

end CallClosed

namespace CallClosed

variable {c : Option Slot} {I : Kernel → Prop} {W : Int → Prop} {R : Kernel → Kernel → Prop}
  (hR : CallClosed c I W R)
include hR

/-- A system call that neither creates nor terminates a process. -/
theorem syscall {k : Kernel} (hc : k.current = c)
    (hz : (TP2Kernel.collectZombies k).current = c) (exec : Slot) {call : Syscall}
    (hk : Syscall.keepsProcs call = true) (hW : ∀ pid, call = .unblock pid → W pid) :
    R k (syscall k exec call).1 := by
  cases call with
  | createProcess entry name priority fg => cases hk
  | kill pid => cases hk
  | exit code => cases hk
  | readTty => exact hR.ttyRead hc exec 1
  | block pid => exact hR.procBlock hz exec pid
  | unblock pid => exact hR.procUnblock k pid (hW pid rfl)
  | nice pid newPrio => exact hR.procNice k exec pid newPrio
  | yield => exact hR.yield k _
  | waitPid pid => exact hR.procWait hz exec pid
  | waitChildren => exact hR.procWait hz exec (-1)
  | getpid => exact hR.refl k
  | procSnapshot maxCount =>
    simp only [TP2Kernel.syscall]
    split
    · exact hR.refl k
    · exact hR.collectZombies k
  | semOpen name init => exact hR.sysSemOpen hc name init
  | semWait handle =>
    simp only [TP2Kernel.syscall]
    split
    · exact hR.refl k
    · exact hR.ksemWait hc exec _
  | semPost handle =>
    simp only [TP2Kernel.syscall]
    split
    · exact hR.refl k
    · exact hR.ksemPost k _
  | semClose handle =>
    simp only [TP2Kernel.syscall]
    have h1 : R k (semHandleDetach k handle).1 := by
      unfold semHandleDetach
      split
      · dsimp only
        split
        · exact hR.handle k _ none fun _ h => by cases h
        · exact hR.refl k
      · exact hR.refl k
    split
    · rename_i k1 e
      rw [e] at h1
      exact h1
    · rename_i k1 s e
      rw [e] at h1
      exact hR.trans h1 (hR.ksemClose k1 s)
  | semUnlink name => exact hR.ksemUnlink k name
  | pipeOpen name flags => exact hR.sysPipeOpen k name flags
  | pipeRead fd n =>
    simp only [TP2Kernel.syscall]
    split
    · exact hR.refl k
    · split
      · exact hR.refl k
      · exact hR.fileRead hc exec _ _ n
  | pipeWrite fd src =>
    simp only [TP2Kernel.syscall]
    split
    · exact hR.refl k
    · split
      · exact hR.refl k
      · exact hR.fileWrite hc exec _ src
  | pipeUnlink name => exact hR.kpipeUnlink k name
  | read fd n =>
    simp only [TP2Kernel.syscall]
    split
    · exact hR.refl k
    · exact hR.fileRead hc exec _ _ n
  | write fd src =>
    simp only [TP2Kernel.syscall]
    split
    · exact hR.refl k
    · exact hR.fileWrite hc exec _ src
  | close fd =>
    simp only [TP2Kernel.syscall]
    split
    · exact hR.refl k
    · exact hR.fdTableClose k _ fd
  | dup2 oldfd newfd =>
    simp only [TP2Kernel.syscall]
    split
    · exact hR.refl k
    · exact hR.fdTableDup2 k _ oldfd newfd

/-- The rest of a system call behind its yield. -/
theorem resume {k : Kernel} (hc : k.current = c) (exec : Slot) {pc : Pc} {r : Kernel × Outcome}
    (hr : resume k exec pc = some r) : R k r.1 := by
  cases pc with
  | wait parent target =>
    obtain rfl := Option.some.inj hr
    exact hR.procWaitResume k parent target
  | semWait s =>
    obtain rfl := Option.some.inj hr
    exact hR.refl k
  | pipeRead p n =>
    obtain rfl := Option.some.inj hr
    exact hR.kpipeReadLoop hc exec p n 1
  | pipeWrite p src =>
    obtain rfl := Option.some.inj hr
    exact hR.kpipeWriteLoop hc exec p src 1
  | ttyRead n =>
    obtain rfl := Option.some.inj hr
    exact hR.ttyReadLoop hc exec n 1
  | trampoline => cases hr
  | user => cases hr
  | hlt => cases hr

end CallClosed

end TP2Kernel.Proofs
