import TP2Kernel.System
import TP2Kernel.Proofs.Operations
import TP2Kernel.Proofs.Creation

/-!
# The other system calls as sequences of actions

Creation, semaphores, pipes, files and the terminal. Whoever one of these calls wakes, it
terminates nobody: only `proc_exit`, `proc_kill` and Ctrl-C do.
-/

namespace TP2Kernel.Proofs
open Function LinkedList

variable {s : Scope} {a : Agenda} {k k' k'' : Kernel} {exec : Slot} {b : Block}

/-- Files, pipes, tables, the terminal and the heap may change, and nothing else. -/
structure DataWrite (k k' : Kernel) : Prop where
  same : k' = { k with
    heap := k'.heap, files := k'.files, tables := k'.tables, stdinFile := k'.stdinFile
    stdoutFile := k'.stdoutFile, stderrFile := k'.stderrFile, pipes := k'.pipes
    pipeBuckets := k'.pipeBuckets, tty := k'.tty }
  next : k.heap.next ≤ k'.heap.next
  fails : k'.heap.fails = k.heap.fails
  freed : ∀ b, StackFreed k' b → StackFreed k b

namespace DataWrite

lemma refl (k : Kernel) : DataWrite k k := ⟨rfl, le_rfl, rfl, fun _ h => h⟩

lemma trans (h : DataWrite k k') (h' : DataWrite k' k'') : DataWrite k k'' :=
  ⟨by rw [h'.same, h.same], h.next.trans h'.next, h'.fails.trans h.fails,
    fun b hb => h.freed b (h'.freed b hb)⟩

lemma procs (h : DataWrite k k') : k'.procs = k.procs := (congrArg Kernel.procs h.same :)

lemma current (h : DataWrite k k') : k'.current = k.current := (congrArg Kernel.current h.same :)

lemma still (h : DataWrite k k') : Still k k' := by
  have hp := h.procs
  refine ⟨?_, fun p _ => ?_, fun p _ => ?_, fun p _ _ => ?_, fun p => ?_, h.next, h.fails,
    fun b hb => .inl (h.freed b hb)⟩
  · unfold SameQueues
    rw [h.same]
  · rw [hp]
    exact SameSched.refl _
  · rw [h.same]
    exact ⟨rfl, rfl⟩
  · rw [hp]
    exact SameResults.refl _
  · rw [hp]
    exact .inl rfl

/-- When waking is in scope, the zombie list does not depend on the files. -/
lemma goes (hw : ∀ p, s.woken p) (h : DataWrite k k') : Goes (Listed s a) s k k' := by
  intro hk
  have hp := h.procs
  obtain ⟨zl, hz, hr, hd⟩ := hk.zombies
  refine ⟨.single (.still h.still), ⟨?_, ?_, .inr hw⟩, zl, ⟨?_, ?_⟩, ?_, hd⟩
  · rw [hp]
    exact hk.dying
  · rw [hp]
    exact hk.ripe
  · rw [show k'.cleanupNext = k.cleanupNext from (congrArg Kernel.cleanupNext h.same :),
      show k'.zombieHead = k.zombieHead from (congrArg Kernel.zombieHead h.same :)]
    exact hz.chain
  · rw [hp]
    exact hz.exited
  · rw [hp]
    exact hr

lemma mmMalloc (k : Kernel) : DataWrite k k.mmMalloc.1 := ⟨rfl, Nat.le_succ _, rfl, fun _ h => h⟩

lemma mmFree (k : Kernel) {b : Block} (hb : b.kind ≠ .stack) : DataWrite k (k.mmFree b) :=
  ⟨rfl, le_rfl, rfl, stackFreed_mmFree hb⟩

lemma mmFrees (k : Kernel) (bs : List Block) (hb : ∀ b ∈ bs, b.kind ≠ .stack) :
    DataWrite k (bs.foldl Kernel.mmFree k) := by
  induction bs generalizing k with
  | nil => exact .refl k
  | cons b bs ih =>
    have h1 := mmFree k (hb b (by simp))
    exact h1.trans (ih _ fun b' hb' => hb b' (by simp [hb']))

lemma modifyPipe (k : Kernel) (p : Nat) (f : Kpipe → Kpipe) : DataWrite k (k.modifyPipe p f) :=
  ⟨rfl, le_rfl, rfl, fun _ h => h⟩

lemma modifyFile (k : Kernel) (f : Nat) (g : File → File) : DataWrite k (k.modifyFile f g) :=
  ⟨rfl, le_rfl, rfl, fun _ h => h⟩

lemma setEntry (k : Kernel) (t : Nat) (fd : Fin fdMax) (e : Option Nat) :
    DataWrite k (k.setEntry t fd e) := ⟨rfl, le_rfl, rfl, fun _ h => h⟩

lemma modifyTty (k : Kernel) (f : Tty → Tty) : DataWrite k (k.modifyTty f) :=
  ⟨rfl, le_rfl, rfl, fun _ h => h⟩

lemma buckets (k : Kernel) (b : Fin pipeHashBuckets → List Nat) :
    DataWrite k { k with pipeBuckets := b } := ⟨rfl, le_rfl, rfl, fun _ h => h⟩

lemma pipeFree (k : Kernel) (p : Nat) : DataWrite k (pipeFree k p) := by
  have h1 : ∀ b ∈ ((k.pipes p).rWaiters ++ (k.pipes p).wWaiters).map fun w =>
      (⟨.pipeWaiter, w.node⟩ : Block), b.kind ≠ .stack := by
    intro b hb
    obtain ⟨w, -, rfl⟩ := List.mem_map.mp hb
    simp
  have h2 : Block.kind ⟨.pipe, p⟩ ≠ .stack := by simp
  exact (mmFrees k _ h1).trans (mmFree _ h2)

lemma kpipeOpen (k : Kernel) (name : CStr) (rd wr : Bool) :
    DataWrite k (kpipeOpen k name rd wr).1 := by
  unfold TP2Kernel.kpipeOpen
  split
  · dsimp only [pipeAddUser]
    exact modifyPipe k _ _
  · have h1 := mmMalloc k
    split
    · rename_i k1 e
      rw [e] at h1
      exact h1
    · rename_i k1 p e
      rw [e] at h1
      have h2 := h1.trans (modifyPipe k1 p fun c =>
        { name := pipeNameCopy name
          ring := { c.ring with r := 0, w := 0, size := 0, buf := fun _ => 0 }
          readers := if rd then 1 else 0
          writers := if wr then 1 else 0
          unlinked := false
          rWaiters := []
          wWaiters := [] })
      dsimp only
      split
      · exact (h2.trans (modifyPipe _ _ _)).trans (pipeFree _ _)
      · exact h2.trans (buckets _ _)

lemma fileCreate (k : Kernel) (ptr : FilePtr) (rd wr : Bool) :
    DataWrite k (fileCreate k ptr rd wr).1 := by
  unfold TP2Kernel.fileCreate
  have h1 := mmMalloc k
  split
  · rename_i k1 e
    rw [e] at h1
    exact h1
  · rename_i k1 f e
    rw [e] at h1
    dsimp only at h1 ⊢
    exact h1.trans (modifyFile _ _ _)

lemma fdTableAllocate (k : Kernel) (t f : Nat) : DataWrite k (fdTableAllocate k t f).1 := by
  unfold TP2Kernel.fdTableAllocate
  split
  · exact setEntry k _ _ _
  · exact refl k

lemma kpipeUnlink (k : Kernel) (name : CStr) : DataWrite k (kpipeUnlink k name).1 := by
  unfold TP2Kernel.kpipeUnlink
  split
  · exact refl k
  · rename_i p _
    have h1 := (buckets k (update k.pipeBuckets (pipeHash name)
      ((k.pipeBuckets (pipeHash name)).erase p))).trans
      (modifyPipe _ p fun c => { c with unlinked := true })
    dsimp only
    split
    · exact h1.trans (pipeFree _ _)
    · exact h1

lemma dequeueWaiter (k : Kernel) : DataWrite k (dequeueWaiter k).1 := by
  unfold TP2Kernel.dequeueWaiter
  split
  · exact refl k
  · rename_i w ws e
    have h2 : Block.kind ⟨.ttyWaiter, w.node⟩ ≠ .stack := by simp
    exact (modifyTty k _).trans (mmFree _ h2)

end DataWrite

/-- `proc_create`. -/
theorem ends_procCreate (hkin : s.kin) (hf : s.fresh) (hs : Sound k)
    (hcur : ∀ c, k.current = some c → Executing k c)
    (hidle : ∀ i, k.idleProc = some i → Live k i) (hk : Listed s .idle k) (entry : Option Nat)
    (prio : Int) (fg : Bool) (name : Option CStr) :
    Ends (Listed s .idle) s k exec (returning (procCreate k entry prio fg name)) := by
  have hback : Ends (Listed s .idle) s k exec (returning (k, -1)) := .back .refl hk (by simp)
  cases entry with
  | none => exact hback
  | some e =>
    cases name with
    | none => exact hback
    | some name =>
      rw [procCreate_some]
      obtain ⟨h1, hz, hm, -⟩ := listed_collect hk
      obtain ⟨h1r, -⟩ := (listed_rule s).collect .idle k hk
      have hidle1 := (steps_static hs h1).1
      have hfree : ∀ i, ((collectZombies k).procs i).used = false →
          (collectZombies k).current ≠ some i ∧ (collectZombies k).idleProc ≠ some i := by
        intro i hu
        constructor
        · intro hc
          have hx := steps_executing hs h1r id (hcur i (steps_current hs h1 hc))
          simp [hx.used] at hu
        · intro hi
          have hl := steps_live hs h1r id (hidle i (hidle1 ▸ hi))
          simp [hl.1] at hu
      obtain ⟨h2, hh, hp⟩ := createTail_steps hkin hf (clampPrio_inRange prio) hfree fg name
      refine .back (h1.trans h2) ⟨⟨fun _ h => h.elim, fun _ h => h.elim, ?_⟩, [], ⟨?_, ?_⟩,
        by simp, by simp⟩ (by simp)
      · exact hm.wakes.imp (fun ht f => (hp f).trans (ht f)) id
      · rw [hh]
        exact hz.chain
      · simp

/-- `sched_force_yield` as a system call. -/
lemma ends_yield {Q : Kernel → Prop} (hQ : Q k) : Ends Q s k exec (k.yield ⟨exec, .user⟩) :=
  .leave .user .refl hQ .yields

lemma semWrite_mmMalloc (k : Kernel) : SemWrite k k.mmMalloc.1 :=
  ⟨rfl, Nat.le_succ _, rfl, fun _ h => h⟩

lemma semWrite_handles (k : Kernel) (h : Fin ksemHandleMax → Option SemHandle) :
    SemWrite k { k with semHandles := h } := ⟨rfl, le_rfl, rfl, fun _ h => h⟩

lemma semWrite_buckets (k : Kernel) (b : Fin ksemHashBuckets → List Nat) :
    SemWrite k { k with semBuckets := b } := ⟨rfl, le_rfl, rfl, fun _ h => h⟩

lemma semWrite_ksemOpen (k : Kernel) (name : CStr) (init : Nat) :
    SemWrite k (ksemOpen k name init).1 := by
  unfold ksemOpen
  split
  · exact .refl k
  · split
    · dsimp only
      exact semWrite_modifySem k _ _
    · have h1 := semWrite_mmMalloc k
      split
      · rename_i k1 e
        rw [e] at h1
        exact h1
      · rename_i k1 i e
        rw [e] at h1
        have h2 := h1.trans (semWrite_modifySem k1 i fun _ =>
          { name := semNameCopy name, count := init, refcount := 1, unlinked := false
            destroying := false, waiters := [] })
        dsimp only
        split
        · exact (h2.trans (semWrite_modifySem _ _ _)).trans (semWrite_semFree _ _)
        · exact h2.trans (semWrite_buckets _ _)

lemma semWrite_handleAllocate (k : Kernel) (i : Nat) (pid : Int) :
    SemWrite k (semHandleAllocate k i pid).1 := by
  unfold semHandleAllocate
  split
  · exact semWrite_handles k _
  · exact .refl k

lemma semWrite_sysSemOpen (k : Kernel) (name : CStr) (init : Nat) :
    SemWrite k (sysSemOpen k name init).1 := by
  unfold sysSemOpen
  split
  · exact .refl k
  · have h1 := semWrite_ksemOpen k name init
    split
    · rename_i k1 e
      rw [e] at h1
      exact h1
    · rename_i cur _ _ k1 i e
      rw [e] at h1
      have h3 := h1.trans (semWrite_handleAllocate k1 i (k1.procs cur).pid)
      dsimp only
      generalize semHandleAllocate k1 i (k1.procs cur).pid = r at h3 ⊢
      obtain ⟨k2, handle⟩ := r
      dsimp only at h3 ⊢
      split
      · exact h3.trans (semWrite_ksemClose _ _)
      · exact h3

lemma semWrite_detach (k : Kernel) (handle : Int) : SemWrite k (semHandleDetach k handle).1 := by
  unfold semHandleDetach
  split
  · dsimp only
    split
    · exact semWrite_handles k _
    · exact .refl k
  · exact .refl k

lemma semWrite_ksemUnlink (k : Kernel) (name : CStr) : SemWrite k (ksemUnlink k name).1 := by
  unfold ksemUnlink
  split
  · exact .refl k
  · split
    · exact .refl k
    · exact ((semWrite_buckets k _).trans (semWrite_modifySem _ _ _)).trans
        (semWrite_destroyIfReady _ _)

lemma semWrite_increment (k : Kernel) (i : Nat) : SemWrite k (semIncrement k i) := by
  unfold semIncrement
  split
  · exact semWrite_modifySem k i _
  · exact .refl k

section Semaphores

variable {J : Agenda → Kernel → Prop} (hJ : ZombieRule s J) (hsems : s.sems)
include hJ hsems

lemma ends_semWrite {k' : Kernel} {o : Outcome} (hk : J a k) (h : SemWrite k k')
    (ho : ∀ f, o ≠ .load f) : Ends (J a) s k exec (k', o) :=
  ends_back (h.goes (hJ.ofZombies a) hsems) hk ho

/-- `ksem_wait`. -/
theorem ends_ksemWait (hk : J a k) (i : Nat) : Ends (J a) s k exec (ksemWait k exec i) := by
  unfold ksemWait
  split
  · exact .back .refl hk (by simp)
  · rename_i cur hc
    have h1 := semWrite_mmMalloc k
    split
    · rename_i k1 e
      rw [e] at h1
      exact ends_semWrite hJ hsems hk h1 (by simp)
    · rename_i k1 node e
      rw [e] at h1
      have hc1 : k1.current = some cur := (congrArg Kernel.current h1.same :).trans hc
      split
      · have h2 := (h1.trans (semWrite_modifySem k1 i fun c =>
          { c with count := c.count - 1 })).trans
          (semWrite_mmFree _ (b := ⟨.semWaiter, node⟩) (by simp))
        exact ends_semWrite hJ hsems hk h2 (by simp)
      · have h2 := h1.trans (semWrite_modifySem k1 i fun c =>
          { c with waiters := c.waiters ++ [⟨node, cur⟩] })
        apply ends_goes (h2.goes (hJ.ofZombies a) hsems) hk
        intro hk2
        exact ends_block hk2 hc1 _

/-- `ksem_post`, when the process of the first waiter may be woken. -/
theorem ends_ksemPost (hw : ∀ p, s.woken p) (hk : J a k) (i : Nat) :
    Ends (J a) s k exec (returning (ksemPost procUnblock k i)) := by
  unfold ksemPost
  split
  · exact ends_semWrite hJ hsems hk (semWrite_increment k i) (by simp)
  · rename_i w ws _
    have h1 := (semWrite_modifySem k i fun c => { c with waiters := ws }).goes (a := a)
      (hJ.ofZombies a) hsems
    have h2 := hJ.procUnblock (a := a) (k.modifySem i fun c => { c with waiters := ws })
      ((k.modifySem i fun c => { c with waiters := ws }).procs w.proc).pid hw
    dsimp only
    generalize procUnblock (k.modifySem i fun c => { c with waiters := ws })
      ((k.modifySem i fun c => { c with waiters := ws }).procs w.proc).pid = r at h2
    obtain ⟨k2, woken⟩ := r
    have h3 : SemWrite k2 ((if woken = 0 then k2 else semIncrement k2 i).mmFree
        ⟨.semWaiter, w.node⟩) := by
      have hb : Block.kind ⟨.semWaiter, w.node⟩ ≠ .stack := by simp
      split
      · exact semWrite_mmFree _ hb
      · exact (semWrite_increment k2 i).trans (semWrite_mmFree _ hb)
    exact ends_back ((h1.trans h2).trans (h3.goes (hJ.ofZombies a) hsems)) hk (by simp)

end Semaphores

section Files

variable (hw : ∀ p, s.woken p)
include hw

lemma goes_wake (k : Kernel) (pid : Int) : Goes (Listed s a) s k (wake k pid) :=
  (listed_rule s).procUnblock k pid hw

lemma ends_dataWrite {o : Outcome} (hk : Listed s a k) (h : DataWrite k k')
    (ho : ∀ f, o ≠ .load f) : Ends (Listed s a) s k exec (k', o) :=
  ends_back (h.goes hw) hk ho

/-- A queue node is released and its process woken. -/
lemma goes_wakeWaiter (h : DataWrite k k') (w : Waiter) (hb : b.kind ≠ .stack) :
    Goes (Listed s a) s k (wake (k'.mmFree b) ((k'.mmFree b).procs w.proc).pid) :=
  ((h.trans (.mmFree k' hb)).goes hw).trans (goes_wake hw _ _)

omit hw in
/-- Nothing runs between the two sections of an iteration, so the second one sleeps. -/
lemma readRecheck_block {c : Kpipe} {n : Nat} (h : c.readSection n = .block) (w : Waiter) :
    c.readRecheck w = .sleep (c.enqueueReader w) := by
  unfold Kpipe.readSection at h
  unfold Kpipe.readRecheck
  split at h
  · simp at h
  · rename_i h0
    rw [if_neg h0]
    split at h
    · simp at h
    · rename_i h1
      rw [if_neg h1]

omit hw in
lemma writeRecheck_block {c : Kpipe} {src : List UInt8} (h : c.writeSection src = .block)
    (w : Waiter) : c.writeRecheck w = .sleep (c.enqueueWriter w) := by
  unfold Kpipe.writeSection at h
  unfold Kpipe.writeRecheck
  split at h
  · simp at h
  · split at h
    · simp at h
    · rename_i h0
      rw [if_neg h0]

/-- The current process joins a queue and blocks. -/
lemma ends_sleep {cur : Slot} (hk : Listed s a k) (h : DataWrite k k') (hc : k.current = some cur)
    (pc : Pc) : Ends (Listed s a) s k exec (k'.blockAndYield cur ⟨exec, pc⟩) := by
  apply ends_goes (h.goes hw) hk
  intro hk1
  exact ends_block hk1 (h.current.trans hc) pc

/-- `kpipe_read`, from the head of its loop. -/
theorem ends_kpipeReadLoop (hk : Listed s a k) (p n i : Nat) :
    Ends (Listed s a) s k exec (kpipeReadLoop exec p n (i + 1) k) := by
  unfold kpipeReadLoop
  split
  · rename_i c bytes writer _
    have h1 := DataWrite.modifyPipe k p fun _ => c
    dsimp only
    split
    · rename_i w _
      exact ends_back (goes_wakeWaiter hw h1 w (b := ⟨.pipeWaiter, w.node⟩) (by simp)) hk (by simp)
    · exact ends_dataWrite hw hk h1 (by simp)
  · exact .back .refl hk (by simp)
  · rename_i hblock
    split
    · exact .back .refl hk (by simp)
    · rename_i cur hc
      have h1 := DataWrite.mmMalloc k
      split
      · rename_i k1 e
        rw [e] at h1
        exact ends_dataWrite hw hk h1 (by simp)
      · rename_i k1 node e
        rw [e] at h1
        have hp : k1.pipes = k.pipes := by
          rw [(mmMalloc_some e).2]
        rw [hp, readRecheck_block hblock]
        exact ends_sleep hw hk (h1.trans (.modifyPipe k1 p _)) hc _

/-- `kpipe_write`, from the head of its loop. -/
theorem ends_kpipeWriteLoop (hk : Listed s a k) (p : Nat) (src : List UInt8) (i : Nat) :
    Ends (Listed s a) s k exec (kpipeWriteLoop exec p src (i + 1) k) := by
  unfold kpipeWriteLoop
  split
  · exact .back .refl hk (by simp)
  · rename_i c count reader _
    have h1 := DataWrite.modifyPipe k p fun _ => c
    dsimp only
    split
    · rename_i w _
      exact ends_back (goes_wakeWaiter hw h1 w (b := ⟨.pipeWaiter, w.node⟩) (by simp)) hk (by simp)
    · exact ends_dataWrite hw hk h1 (by simp)
  · rename_i hblock
    split
    · exact .back .refl hk (by simp)
    · rename_i cur hc
      have h1 := DataWrite.mmMalloc k
      split
      · rename_i k1 e
        rw [e] at h1
        exact ends_dataWrite hw hk h1 (by simp)
      · rename_i k1 node e
        rw [e] at h1
        have hp : k1.pipes = k.pipes := by
          rw [(mmMalloc_some e).2]
        rw [hp, writeRecheck_block hblock]
        exact ends_sleep hw hk (h1.trans (.modifyPipe k1 p _)) hc _

/-- `tty_read`, from the head of its loop. -/
theorem ends_ttyReadLoop (hk : Listed s a k) (n i : Nat) :
    Ends (Listed s a) s k exec (ttyReadLoop exec n (i + 1) k) := by
  unfold ttyReadLoop
  split
  · exact ends_dataWrite hw hk (.modifyTty k _) (by simp)
  · rename_i hsize
    split
    · exact ends_dataWrite hw hk (.modifyTty k _) (by simp)
    · rename_i heof
      split
      · exact .back .refl hk (by simp)
      · rename_i cur hc
        have h1 := DataWrite.mmMalloc k
        split
        · rename_i k1 e
          rw [e] at h1
          exact ends_dataWrite hw hk h1 (by simp)
        · rename_i k1 node e
          rw [e] at h1
          have ht : k1.tty = k.tty := by
            rw [(mmMalloc_some e).2]
          rw [ht, if_neg (by simp [hsize, heof])]
          exact ends_sleep hw hk (h1.trans (.modifyTty k1 _)) hc _

lemma ends_ttyRead (hk : Listed s a k) (n : Int) :
    Ends (Listed s a) s k exec (ttyRead k exec n) := by
  unfold ttyRead
  split
  · exact .back .refl hk (by simp)
  · exact ends_ttyReadLoop hw hk _ 1

lemma ends_fileRead (hk : Listed s a k) (cur : Slot) (f : Nat) (n : Int) :
    Ends (Listed s a) s k exec (fileRead k exec cur f n) := by
  unfold fileRead
  split
  · unfold fdTtyRead
    split
    · exact .back .refl hk (by simp)
    · split
      · exact .back .refl hk (by simp)
      · exact ends_ttyRead hw hk n
  · split
    · unfold kpipeRead
      split
      · exact .back .refl hk (by simp)
      · exact ends_kpipeReadLoop hw hk _ _ 1
    · exact .back .refl hk (by simp)

lemma ends_fileWrite (hk : Listed s a k) (f : Nat) (src : List UInt8) :
    Ends (Listed s a) s k exec (fileWrite k exec f src) := by
  unfold fileWrite
  split
  · exact .back .refl hk (by simp)
  · split
    · exact .back .refl hk (by simp)
    · unfold kpipeWrite
      split
      · exact .back .refl hk (by simp)
      · exact ends_kpipeWriteLoop hw hk _ _ 1

/-- `sys_pipe_open`. -/
theorem ends_sysPipeOpen (hk : Listed s a k) (name : CStr) (flags : Nat) :
    Ends (Listed s a) s k exec (returning (sysPipeOpen k name flags)) := by
  unfold sysPipeOpen
  split
  · exact .back .refl hk (by simp)
  · rename_i t _
    dsimp only
    split
    · exact .back .refl hk (by simp)
    · have h1 := DataWrite.kpipeOpen k name (flags.testBit 0) (flags.testBit 1)
      split
      · rename_i k1 e
        rw [e] at h1
        exact ends_dataWrite hw hk h1 (by simp)
      · rename_i k1 p e
        rw [e] at h1
        have h2 := DataWrite.fileCreate k1 (.pipe p) (flags.testBit 0) (flags.testBit 1)
        split
        · rename_i k2 e2
          rw [e2] at h2
          have h3 := goes_kpipeClose ((listed_rule s).ofZombies a) (goes_wake hw) k2 p
            (flags.testBit 0) (flags.testBit 1)
          exact ends_back (((h1.trans h2).goes hw).trans h3) hk (by simp)
        · rename_i k2 f e2
          rw [e2] at h2
          have h3 := (h1.trans h2).trans (DataWrite.fdTableAllocate k2 t f)
          generalize fdTableAllocate k2 t f = r at h3 ⊢
          obtain ⟨k3, fd⟩ := r
          dsimp only at h3 ⊢
          split
          · have h4 := goes_fileRelease ((listed_rule s).ofZombies a) ((listed_rule s).closeOk a) k3 f
            exact ends_back ((h3.goes hw).trans h4) hk (by simp)
          · exact ends_dataWrite hw hk h3 (by simp)

/-- `fd_table_close`. -/
theorem ends_fdTableClose (hk : Listed s a k) (t : Nat) (fd : Int) :
    Ends (Listed s a) s k exec (returning (fdTableClose wake k t fd)) := by
  unfold fdTableClose
  split
  · split
    · exact .back .refl hk (by simp)
    · have h1 := (DataWrite.setEntry k t ⟨fd.toNat, by omega⟩ none).goes (a := a) hw
      exact ends_back (h1.trans (goes_fileRelease ((listed_rule s).ofZombies a)
        ((listed_rule s).closeOk a) _ _)) hk (by simp)
  · exact .back .refl hk (by simp)

/-- `fd_table_dup2`. -/
theorem ends_fdTableDup2 (hk : Listed s a k) (t : Nat) (oldfd newfd : Int) :
    Ends (Listed s a) s k exec (returning (fdTableDup2 wake k t oldfd newfd)) := by
  unfold fdTableDup2
  split
  · split
    · exact .back .refl hk (by simp)
    · rename_i src _
      split
      · exact .back .refl hk (by simp)
      · dsimp only
        have h2 : ∀ k1, Goes (Listed s a) s k k1 → Ends (Listed s a) s k exec (returning
            ((fileRef k1 src).setEntry t ⟨newfd.toNat, by omega⟩ (some src), newfd)) := by
          intro k1 h1
          have h3 := (DataWrite.modifyFile k1 src fun c =>
            { c with refcount := c.refcount + 1 }).trans
            (.setEntry _ t ⟨newfd.toNat, by omega⟩ (some src))
          exact ends_back (h1.trans (h3.goes hw)) hk (by simp)
        apply h2
        split
        · exact goes_fileRelease ((listed_rule s).ofZombies a) ((listed_rule s).closeOk a) _ _
        · exact .refl _ s k
  · exact .back .refl hk (by simp)

end Files

/-- A scope in which everything may happen except that processes outside it terminate and that
processes are created. -/
structure Open (s : Scope) : Prop where
  woken : ∀ p, s.woken p
  noted : ∀ p, s.noted p
  kin : s.kin

/-- The system calls that change semaphores. -/
def UsesSems : Syscall → Prop
  | .kill _ | .exit _ => True
  | .semOpen .. | .semWait _ | .semPost _ | .semClose _ | .semUnlink _ => True
  | _ => False

/-- The processes that a system call of the current process may create, terminate, block or
renice are in scope. -/
def CallOk (s : Scope) (k : Kernel) : Syscall → Prop
  | .createProcess .. => s.fresh
  | .kill pid => ∀ p, procByPid (collectZombies k) pid = some p → k.idleProc ≠ some p → Dies s k p
  | .exit _ => ∀ c, k.current = some c → Dies s k c
  | .block pid => ∀ p, procByPid (collectZombies k) pid = some p → s.moved p
  | .nice pid newPrio => ∀ p, procByPid (collectZombies k) pid = some p → s.moved p ∧
      ((collectZombies k).current = some p →
        ((collectZombies k).procs p).priority ≠ clampPrio newPrio → s.demotes)
  | _ => True

/-- The call neither creates nor terminates a process. -/
def Syscall.keepsProcs : Syscall → Bool
  | .createProcess .. | .kill _ | .exit _ => false
  | _ => true

/-- The calls that neither create nor terminate a process. -/
theorem ends_keeping (hw : ∀ p, s.woken p) (hn : ∀ p, s.noted p) (hs : Sound k)
    (hni : ∀ c, k.current = some c → k.idleProc ≠ some c) (hk : Listed s .idle k) {c : Syscall}
    (hc : Syscall.keepsProcs c = true) (hd : CallOk s k c) (hu : UsesSems c → s.sems) :
    Ends (Listed s .idle) s k exec (syscall k exec c) := by
  have hJ := listed_rule s
  cases c with
  | readTty => exact ends_ttyRead hw hk 1
  | createProcess entry name priority fg => cases hc
  | kill pid => cases hc
  | block pid => exact ends_procBlock hJ hk hd
  | unblock pid => exact ends_procUnblock hJ hk fun p _ => hw p
  | nice pid newPrio =>
    exact ends_procNice hJ hs hni hk (fun p hp => (hd p hp).1) fun p hp => (hd p hp).2
  | yield => exact ends_yield hk
  | waitPid pid => exact ends_procWait hJ hn hk pid
  | waitChildren => exact ends_procWait hJ hn hk (-1)
  | exit code => cases hc
  | getpid => exact .back .refl hk (by simp)
  | procSnapshot maxCount =>
    simp only [syscall]
    split
    · exact .back .refl hk (by simp)
    · exact ends_back (hJ.collects .idle k) hk (by simp)
  | semOpen name init =>
    exact ends_semWrite hJ (hu trivial) hk (semWrite_sysSemOpen k name init) (by simp)
  | semWait handle =>
    simp only [syscall]
    split
    · exact .back .refl hk (by simp)
    · exact ends_ksemWait hJ (hu trivial) hk _
  | semPost handle =>
    simp only [syscall]
    split
    · exact .back .refl hk (by simp)
    · exact ends_ksemPost hJ (hu trivial) hw hk _
  | semClose handle =>
    simp only [syscall]
    have h1 := semWrite_detach k handle
    split
    · rename_i k1 e
      rw [e] at h1
      exact ends_semWrite hJ (hu trivial) hk h1 (by simp)
    · rename_i k1 i e
      rw [e] at h1
      exact ends_semWrite hJ (hu trivial) hk (h1.trans (semWrite_ksemClose k1 i)) (by simp)
  | semUnlink name => exact ends_semWrite hJ (hu trivial) hk (semWrite_ksemUnlink k name) (by simp)
  | pipeOpen name flags => exact ends_sysPipeOpen hw hk name flags
  | pipeRead fd n =>
    simp only [syscall]
    split
    · exact .back .refl hk (by simp)
    · split
      · exact .back .refl hk (by simp)
      · exact ends_fileRead hw hk _ _ n
  | pipeWrite fd src =>
    simp only [syscall]
    split
    · exact .back .refl hk (by simp)
    · split
      · exact .back .refl hk (by simp)
      · exact ends_fileWrite hw hk _ src
  | pipeUnlink name => exact ends_dataWrite hw hk (.kpipeUnlink k name) (by simp)
  | read fd n =>
    simp only [syscall]
    split
    · exact .back .refl hk (by simp)
    · exact ends_fileRead hw hk _ _ n
  | write fd src =>
    simp only [syscall]
    split
    · exact .back .refl hk (by simp)
    · exact ends_fileWrite hw hk _ src
  | close fd =>
    simp only [syscall]
    split
    · exact .back .refl hk (by simp)
    · exact ends_fdTableClose hw hk _ fd
  | dup2 oldfd newfd =>
    simp only [syscall]
    split
    · exact .back .refl hk (by simp)
    · exact ends_fdTableDup2 hw hk _ oldfd newfd

/-- The system calls of a process other than the idle process. -/
theorem ends_syscall (ho : Open s) (hs : Sound k) (hcur : ∀ c, k.current = some c → Executing k c)
    (hni : ∀ c, k.current = some c → k.idleProc ≠ some c)
    (hidle : ∀ i, k.idleProc = some i → Live k i) (hk : Listed s .idle k) (c : Syscall)
    (hd : CallOk s k c) (hu : UsesSems c → s.sems) : Ends (Listed s .idle) s k exec (syscall k exec c) := by
  have hno : ∀ x, ¬Agenda.idle.dying x := fun _ h => h.elim
  cases c with
  | createProcess entry name priority fg =>
    exact ends_procCreate ho.kin hd hs hcur hidle hk entry priority fg name
  | kill pid =>
    exact ends_procKill (listed_rule s) ho.kin (hu trivial) ho.noted hs hcur hd (.inl ho.woken) hno
      hk
  | exit code =>
    exact ends_procExit (listed_rule s) ho.kin (hu trivial) ho.noted hs hcur hd (.inl ho.woken) hk
      code
  | _ => exact ends_keeping ho.woken ho.noted hs hni hk rfl hd hu

/-- The rest of a system call behind its yield. -/
theorem ends_resumed (hw : ∀ p, s.woken p) (hn : ∀ p, s.noted p) (hk : Listed s .idle k) {pc : Pc}
    {r : Kernel × Outcome} (hr : resume k exec pc = some r) :
    Ends (Listed s .idle) s k exec r := by
  cases pc with
  | wait parent target =>
    obtain rfl := Option.some.inj hr
    exact ends_procWaitResume (listed_rule s) hn hk parent target
  | semWait i =>
    obtain rfl := Option.some.inj hr
    exact .back .refl hk (by simp)
  | pipeRead p n =>
    obtain rfl := Option.some.inj hr
    exact ends_kpipeReadLoop hw hk p n 1
  | pipeWrite p src =>
    obtain rfl := Option.some.inj hr
    exact ends_kpipeWriteLoop hw hk p src 1
  | ttyRead n =>
    obtain rfl := Option.some.inj hr
    exact ends_ttyReadLoop hw hk n 1
  | trampoline => cases hr
  | user => cases hr
  | hlt => cases hr

theorem ends_resume (ho : Open s) (hk : Listed s .idle k) {pc : Pc} {r : Kernel × Outcome}
    (hr : resume k exec pc = some r) : Ends (Listed s .idle) s k exec r :=
  ends_resumed ho.woken ho.noted hk hr

/-- A typed character other than Ctrl-C. -/
theorem ends_typed (exec : Slot) (hw : ∀ p, s.woken p) (hk : Listed s .idle k) {c : UInt8}
    (h3 : c ≠ 3) : Ends (Listed s .idle) s k exec (ttyPushChar k exec c) := by
  have hwake : ∀ k1 proc, Goes (Listed s .idle) s k1 (wakeDequeued k1 proc) := by
    intro k1 proc
    cases proc with
    | none => exact .refl _ s k1
    | some p => exact goes_wake hw k1 _
  unfold ttyPushChar
  rw [if_neg h3]
  split
  · have h1 := (DataWrite.modifyTty k fun t => { t with eof := true }).trans (.dequeueWaiter _)
    exact ends_back ((h1.goes hw).trans (hwake _ _)) hk (by simp)
  · have h1 : DataWrite k (if k.tty.ring.size = ttyBufferCap then
        k.modifyTty fun t => { t with ring := t.ring.drop } else k) := by
      split
      · exact .modifyTty k _
      · exact .refl k
    have h2 := (h1.trans (.modifyTty _ fun t => { t with ring := t.ring.put c })).trans
      (.dequeueWaiter _)
    exact ends_back ((h2.goes hw).trans (hwake _ _)) hk (by simp)

/-- A typed character. -/
theorem ends_ttyPushChar (exec : Slot) (ho : Open s) (hs : Sound k)
    (hcur : ∀ c, k.current = some c → Executing k c) (hk : Listed s .idle k) (c : UInt8)
    (hd : c = 3 → CallOk s k (.kill (procGetForegroundPid k)) ∧ s.sems) :
    Ends (Listed s .idle) s k exec (ttyPushChar k exec c) := by
  by_cases h3 : c = 3
  · unfold ttyPushChar
    rw [if_pos h3]
    dsimp only
    split
    · exact ends_procKill (listed_rule s) ho.kin (hd h3).2 ho.noted hs hcur (hd h3).1
        (.inl ho.woken) (fun _ h => h.elim) hk
    · exact .back .refl hk (by simp)
  · exact ends_typed exec ho.woken hk h3

end TP2Kernel.Proofs
