import TP2Kernel.ZombieTables
import TP2Kernel.Proofs.FdLifetime
import TP2Kernel.Proofs.Reaping

/-!
# Calls back into `collect_zombies`

While a zombie's descriptor table is destroyed, `proc_unblock` enters `collect_zombies`
again. Once the first zombie has given back everything, such a call finds nothing to free,
and the destruction has the same effect on files, pipes and memory as one that wakes
nobody.
-/

namespace TP2Kernel.Proofs
open Function

variable {k k' k0 : Kernel}

/-- Two PCBs that own the same, of which the reaper thinks the same. -/
def SameHoldings (c c' : Pcb) : Prop :=
  c'.kstackBase = c.kstackBase ∧ c'.fdTable = c.fdTable ∧ c'.waitRes = c.waitRes ∧
    reapable c' = reapable c

/-- The files, the pipes, the memory and what the processes own are the same. -/
structure SameStore (k k' : Kernel) : Prop where
  files : k'.files = k.files
  tables : k'.tables = k.tables
  std : k'.stdinFile = k.stdinFile ∧ k'.stdoutFile = k.stdoutFile ∧ k'.stderrFile = k.stderrFile
  heap : k'.heap = k.heap
  pipes : k'.pipes = k.pipes
  buckets : k'.pipeBuckets = k.pipeBuckets
  cleanup : k'.cleanupNext = k.cleanupNext
  procs : ∀ p, SameHoldings (k.procs p) (k'.procs p)

namespace SameStore

lemma refl (k : Kernel) : SameStore k k :=
  ⟨rfl, rfl, ⟨rfl, rfl, rfl⟩, rfl, rfl, rfl, rfl, fun _ => ⟨rfl, rfl, rfl, rfl⟩⟩

lemma trans {k'' : Kernel} (h : SameStore k k') (h' : SameStore k' k'') : SameStore k k'' := by
  refine ⟨h'.files.trans h.files, h'.tables.trans h.tables, ⟨h'.std.1.trans h.std.1,
    h'.std.2.1.trans h.std.2.1, h'.std.2.2.trans h.std.2.2⟩, h'.heap.trans h.heap,
    h'.pipes.trans h.pipes, h'.buckets.trans h.buckets, h'.cleanup.trans h.cleanup, fun p => ?_⟩
  obtain ⟨h1, h2, h3, h4⟩ := h.procs p
  obtain ⟨h1', h2', h3', h4'⟩ := h'.procs p
  exact ⟨h1'.trans h1, h2'.trans h2, h3'.trans h3, h4'.trans h4⟩

/-- Writes to the lists of the scheduler. -/
lemma of_same (h : k' = { k with
    procs := k'.procs, queueNext := k'.queueNext, childHead := k'.childHead
    siblingNext := k'.siblingNext, zombieHead := k'.zombieHead, readyHead := k'.readyHead
    readyTail := k'.readyTail, current := k'.current })
    (hp : ∀ p, SameHoldings (k.procs p) (k'.procs p)) : SameStore k k' := by
  refine ⟨?_, ?_, ?_, ?_, ?_, ?_, ?_, hp⟩ <;> rw [h]
  exact ⟨rfl, rfl, rfl⟩

lemma modify_self (k : Kernel) (p : Slot) {f : Pcb → Pcb}
    (hf : SameHoldings (k.procs p) (f (k.procs p))) : SameStore k (k.modify p f) := by
  refine of_same rfl fun q => ?_
  rw [Kernel.modify_procs]
  split
  · rename_i h
    rw [h]
    exact hf
  · exact ⟨rfl, rfl, rfl, rfl⟩

/-- One write on both sides. -/
lemma write (h : SameStore k0 k) {k0' k' : Kernel} (h0 : SameStore k0 k0') (h' : SameStore k k') :
    SameStore k0' k' := by
  refine ⟨?_, ?_, ?_, ?_, ?_, ?_, ?_, fun p => ?_⟩
  · rw [h'.files, h.files, h0.files]
  · rw [h'.tables, h.tables, h0.tables]
  · rw [h'.std.1, h'.std.2.1, h'.std.2.2, h0.std.1, h0.std.2.1, h0.std.2.2]
    exact h.std
  · rw [h'.heap, h.heap, h0.heap]
  · rw [h'.pipes, h.pipes, h0.pipes]
  · rw [h'.buckets, h.buckets, h0.buckets]
  · rw [h'.cleanup, h.cleanup, h0.cleanup]
  · obtain ⟨h1, h2, h3, h4⟩ := h.procs p
    obtain ⟨a1, a2, a3, a4⟩ := h0.procs p
    obtain ⟨b1, b2, b3, b4⟩ := h'.procs p
    exact ⟨b1.trans (h1.trans a1.symm), b2.trans (h2.trans a2.symm), b3.trans (h3.trans a3.symm),
      b4.trans (h4.trans a4.symm)⟩

lemma mmFree (h : SameStore k0 k) (b : Block) : SameStore (k0.mmFree b) (k.mmFree b) := by
  refine ⟨h.files, h.tables, h.std, ?_, h.pipes, h.buckets, h.cleanup, h.procs⟩
  rw [Kernel.mmFree, Kernel.mmFree, h.heap]

lemma mmFrees (h : SameStore k0 k) (bs : List Block) :
    SameStore (bs.foldl Kernel.mmFree k0) (bs.foldl Kernel.mmFree k) := by
  induction bs generalizing k0 k with
  | nil => exact h
  | cons b bs ih => exact ih (h.mmFree b)

lemma modifyPipe (h : SameStore k0 k) (p : Nat) (f : Kpipe → Kpipe) :
    SameStore (k0.modifyPipe p f) (k.modifyPipe p f) := by
  refine ⟨h.files, h.tables, h.std, h.heap, ?_, h.buckets, h.cleanup, h.procs⟩
  rw [Kernel.modifyPipe, Kernel.modifyPipe, h.pipes]

lemma modifyFile (h : SameStore k0 k) (f : Nat) (g : File → File) :
    SameStore (k0.modifyFile f g) (k.modifyFile f g) := by
  refine ⟨?_, h.tables, h.std, h.heap, h.pipes, h.buckets, h.cleanup, h.procs⟩
  rw [Kernel.modifyFile, Kernel.modifyFile, h.files]

lemma setEntry (h : SameStore k0 k) (t : Nat) (fd : Fin fdMax) (e : Option Nat) :
    SameStore (k0.setEntry t fd e) (k.setEntry t fd e) := by
  refine ⟨h.files, ?_, h.std, h.heap, h.pipes, h.buckets, h.cleanup, h.procs⟩
  rw [Kernel.setEntry, Kernel.setEntry, h.tables]

lemma modify (h : SameStore k0 k) (p : Slot) {f : Pcb → Pcb}
    (hf : ∀ c c', SameHoldings c c' → SameHoldings (f c) (f c')) :
    SameStore (k0.modify p f) (k.modify p f) := by
  refine ⟨h.files, h.tables, h.std, h.heap, h.pipes, h.buckets, h.cleanup, fun q => ?_⟩
  rw [Kernel.modify_procs, Kernel.modify_procs]
  split
  · exact hf _ _ (h.procs p)
  · exact h.procs q

lemma relink (h : SameStore k0 k) (p : Slot) (x : Option Slot) :
    SameStore { k0 with cleanupNext := update k0.cleanupNext p x }
      { k with cleanupNext := update k.cleanupNext p x } := by
  refine ⟨h.files, h.tables, h.std, h.heap, h.pipes, h.buckets, ?_, h.procs⟩
  rw [h.cleanup]

end SameStore

/-- The `proc_unblock` that wakes nobody. -/
def wakeNobody (k : Kernel) (_ : Int) : Kernel := k

/-- While `S` holds, `unblock` leaves everything that reaping reads. -/
structure Nested (S : Kernel → Prop) (unblock : Kernel → Int → Kernel) : Prop where
  keep : ∀ {k}, S k → ∀ k' : Kernel, k'.procs = k.procs → k'.zombieHead = k.zombieHead →
    k'.cleanupNext = k.cleanupNext → S k'
  call : ∀ {k}, S k → ∀ pid, SameStore k (unblock k pid) ∧ S (unblock k pid)

lemma nested_nobody : Nested (fun _ => True) wakeNobody :=
  ⟨fun _ _ _ _ _ => trivial, fun _ _ => ⟨.refl _, trivial⟩⟩

lemma mmFrees_procs (k : Kernel) (bs : List Block) :
    (bs.foldl Kernel.mmFree k).procs = k.procs ∧
      (bs.foldl Kernel.mmFree k).zombieHead = k.zombieHead ∧
      (bs.foldl Kernel.mmFree k).cleanupNext = k.cleanupNext := by
  rw [Kernel.mmFrees_eq]
  exact ⟨rfl, rfl, rfl⟩

namespace Nested

variable {S : Kernel → Prop} {unblock : Kernel → Int → Kernel} (hn : Nested S unblock)
include hn

/-- A waiter is taken from its queue and woken, or not. -/
lemma dequeue (hS : S k) (h : SameStore k0 k) (p : Nat) (c : Kpipe) (b : Block) (pid : Int) :
    SameStore ((k0.modifyPipe p fun _ => c).mmFree b)
        (unblock ((k.modifyPipe p fun _ => c).mmFree b) pid) ∧
      S (unblock ((k.modifyPipe p fun _ => c).mmFree b) pid) := by
  have h1 := (h.modifyPipe p fun _ => c).mmFree b
  have hS1 : S ((k.modifyPipe p fun _ => c).mmFree b) := hn.keep hS _ rfl rfl rfl
  obtain ⟨h2, hS2⟩ := hn.call hS1 pid
  exact ⟨h1.trans h2, hS2⟩

lemma drainReaders (hS : S k) (h : SameStore k0 k) (p n : Nat) :
    SameStore (drainReaders wakeNobody p n k0) (drainReaders unblock p n k) ∧
      S (drainReaders unblock p n k) := by
  induction n generalizing k0 k with
  | zero => exact ⟨h, hS⟩
  | succ n ih =>
    rw [TP2Kernel.drainReaders, TP2Kernel.drainReaders, h.pipes, Kpipe.dequeueReader]
    cases (k0.pipes p).rWaiters with
    | nil => exact ⟨h, hS⟩
    | cons w ws =>
      obtain ⟨h1, hS1⟩ := hn.dequeue hS h p { k0.pipes p with rWaiters := ws }
        ⟨.pipeWaiter, w.node⟩ _
      exact ih hS1 h1

lemma drainWriters (hS : S k) (h : SameStore k0 k) (p n : Nat) :
    SameStore (drainWriters wakeNobody p n k0) (drainWriters unblock p n k) ∧
      S (drainWriters unblock p n k) := by
  induction n generalizing k0 k with
  | zero => exact ⟨h, hS⟩
  | succ n ih =>
    rw [TP2Kernel.drainWriters, TP2Kernel.drainWriters, h.pipes, Kpipe.dequeueWriter]
    cases (k0.pipes p).wWaiters with
    | nil => exact ⟨h, hS⟩
    | cons w ws =>
      obtain ⟨h1, hS1⟩ := hn.dequeue hS h p { k0.pipes p with wWaiters := ws }
        ⟨.pipeWaiter, w.node⟩ _
      exact ih hS1 h1

lemma pipeFree (hS : S k) (h : SameStore k0 k) (p : Nat) :
    SameStore (pipeFree k0 p) (pipeFree k p) ∧ S (pipeFree k p) := by
  rw [TP2Kernel.pipeFree, TP2Kernel.pipeFree, h.pipes]
  obtain ⟨h1, h2, h3⟩ := mmFrees_procs k (((k0.pipes p).rWaiters ++ (k0.pipes p).wWaiters).map
    fun w => (⟨.pipeWaiter, w.node⟩ : Block))
  exact ⟨(h.mmFrees _).mmFree _, hn.keep hS _ h1 h2 h3⟩

omit hn in
lemma thenIf {c : Prop} [Decidable c] {k1 k1' : Kernel} (h : SameStore k0 k ∧ S k)
    (h' : SameStore k1 k1' ∧ S k1') :
    SameStore (if c then k1 else k0) (if c then k1' else k) ∧ S (if c then k1' else k) := by
  split
  · exact h'
  · exact h

lemma kpipeClose (hS : S k) (h : SameStore k0 k) (p : Nat) (rd wr : Bool) :
    SameStore (kpipeClose wakeNobody k0 p rd wr) (kpipeClose unblock k p rd wr) ∧
      S (kpipeClose unblock k p rd wr) := by
  have h1 := h.modifyPipe p fun c => pipeDropUser c rd wr
  have hS1 : S (k.modifyPipe p fun c => pipeDropUser c rd wr) := hn.keep hS _ rfl rfl rfl
  unfold TP2Kernel.kpipeClose
  dsimp only
  generalize k.modifyPipe p (fun c => pipeDropUser c rd wr) = k1 at h1 hS1
  generalize k0.modifyPipe p (fun c => pipeDropUser c rd wr) = k01 at h1
  rw [← h1.pipes]
  have h2 := thenIf (c := (decide ((k1.pipes p).writers = 0) &&
    !(k1.pipes p).rWaiters.isEmpty) = true) ⟨h1, hS1⟩
    (hn.drainReaders hS1 h1 p (k1.pipes p).rWaiters.length)
  generalize (if (decide ((k1.pipes p).writers = 0) && !(k1.pipes p).rWaiters.isEmpty) = true then
    TP2Kernel.drainReaders unblock p (k1.pipes p).rWaiters.length k1 else k1) = k2 at h2 ⊢
  generalize (if (decide ((k1.pipes p).writers = 0) && !(k1.pipes p).rWaiters.isEmpty) = true then
    TP2Kernel.drainReaders wakeNobody p (k1.pipes p).rWaiters.length k01 else k01) = k02 at h2 ⊢
  rw [← h2.1.pipes]
  have h3 := thenIf (c := (decide ((k1.pipes p).readers = 0) &&
    !(k1.pipes p).wWaiters.isEmpty) = true) h2
    (hn.drainWriters h2.2 h2.1 p (k2.pipes p).wWaiters.length)
  exact thenIf h3 (hn.pipeFree h3.2 h3.1 p)

lemma fileClose (hS : S k) (h : SameStore k0 k) (f : Nat) :
    SameStore (fileClose wakeNobody k0 f) (fileClose unblock k f) ∧ S (fileClose unblock k f) := by
  unfold TP2Kernel.fileClose
  rw [← h.files]
  cases (k.files f).ptr with
  | tty => exact ⟨h, hS⟩
  | pipe p => exact hn.kpipeClose hS h p _ _

lemma fileRelease (hS : S k) (h : SameStore k0 k) (f : Nat) :
    SameStore (fileRelease wakeNobody k0 f) (fileRelease unblock k f) ∧
      S (fileRelease unblock k f) := by
  have h1 := h.modifyFile f fun c => { c with refcount := c.refcount - 1 }
  have hS1 : S (k.modifyFile f fun c => { c with refcount := c.refcount - 1 }) :=
    hn.keep hS _ rfl rfl rfl
  unfold TP2Kernel.fileRelease
  dsimp only
  generalize k.modifyFile f (fun c => { c with refcount := c.refcount - 1 }) = k1 at h1 hS1
  generalize k0.modifyFile f (fun c => { c with refcount := c.refcount - 1 }) = k01 at h1
  rw [← h1.files]
  split
  · exact ⟨h1, hS1⟩
  · obtain ⟨h2, hS2⟩ := hn.fileClose hS1 h1 f
    exact ⟨h2.mmFree _, hn.keep hS2 _ rfl rfl rfl⟩

lemma destroyFold (hS : S k) (h : SameStore k0 k) (t : Nat) (l : List (Fin fdMax)) :
    SameStore (l.foldl (fdTableDestroyStep wakeNobody t) k0)
        (l.foldl (fdTableDestroyStep unblock t) k) ∧
      S (l.foldl (fdTableDestroyStep unblock t) k) := by
  induction l generalizing k0 k with
  | nil => exact ⟨h, hS⟩
  | cons fd l ih =>
    rw [List.foldl_cons, List.foldl_cons, fdTableDestroyStep, fdTableDestroyStep, ← h.tables]
    cases k.tables t fd with
    | none => exact ih hS h
    | some f =>
      obtain ⟨h1, hS1⟩ := hn.fileRelease hS h f
      exact ih (hn.keep hS1 _ rfl rfl rfl) (h1.setEntry t fd none)

/-- `fd_table_destroy` with calls back is as one that wakes nobody. -/
theorem destroy (hS : S k) (h : SameStore k0 k) (t : Nat) :
    SameStore (fdTableDestroy wakeNobody k0 t) (fdTableDestroy unblock k t) ∧
      S (fdTableDestroy unblock k t) := by
  obtain ⟨h1, hS1⟩ := hn.destroyFold hS h t (List.finRange fdMax)
  rw [fdTableDestroy, fdTableDestroy]
  generalize (List.finRange fdMax).foldl (fdTableDestroyStep unblock t) k = kd at h1 hS1 ⊢
  exact ⟨h1.mmFree _, hn.keep hS1 _ rfl rfl rfl⟩

end Nested

/-- The list starts with `x` or is empty; `x` leads to no other zombie, and if it is reaped
again, nothing is freed. -/
def Spent (x : Slot) (k : Kernel) : Prop :=
  ∀ z, k.zombieHead = some z → z = x ∧ k.cleanupNext z = none ∧ (reapable (k.procs z) = true →
    (k.procs z).kstackBase = none ∧ (k.procs z).fdTable = none ∧ (k.procs z).waitRes = [])

lemma Spent.of_store {x : Slot} (hk : Spent x k) (h : SameStore k k')
    (hz : k'.zombieHead = none ∨ k'.zombieHead = k.zombieHead) : Spent x k' := by
  intro z hz'
  have hkz : k.zombieHead = some z := by
    rcases hz with hz | hz
    · rw [hz] at hz'
      cases hz'
    · rwa [← hz]
  obtain ⟨h1, h2, h3, h4⟩ := h.procs z
  rw [h.cleanup, h1, h2, h3, h4]
  exact hk z hkz

lemma sameStore_qPush (k : Kernel) (p : Slot) :
    SameStore k (qPush k p) ∧ (qPush k p).zombieHead = k.zombieHead := by
  unfold qPush
  dsimp only
  split <;> exact ⟨.of_same rfl fun _ => ⟨rfl, rfl, rfl, rfl⟩, rfl⟩

lemma sameStore_schedEnqueue (k : Kernel) (p : Slot) :
    SameStore k (schedEnqueue k p) ∧ (schedEnqueue k p).zombieHead = k.zombieHead := by
  unfold schedEnqueue
  split
  · have h1 := SameStore.modify_self k p
      (f := fun c => { c with state := .running, ticksLeft := timeSliceTicks }) ⟨rfl, rfl, rfl, rfl⟩
    exact ⟨h1.trans (.of_same rfl fun _ => ⟨rfl, rfl, rfl, rfl⟩), rfl⟩
  · have h1 := SameStore.modify_self k p
      (f := fun c => { c with priority := clampPrio c.priority }) ⟨rfl, rfl, rfl, rfl⟩
    have h2 : SameStore _ { k.modify p fun c => { c with priority := clampPrio c.priority } with
        queueNext := update k.queueNext p none } :=
      h1.trans (.of_same rfl fun _ => ⟨rfl, rfl, rfl, rfl⟩)
    have h3 := h2.trans (.modify_self _ p
      (f := fun c => { c with state := .ready, ticksLeft := timeSliceTicks, agingTicks := 0 })
      ⟨rfl, rfl, rfl, rfl⟩)
    obtain ⟨h4, h5⟩ := sameStore_qPush (Kernel.modify { k.modify p fun c =>
      { c with priority := clampPrio c.priority } with queueNext := update k.queueNext p none } p
      fun c => { c with state := .ready, ticksLeft := timeSliceTicks, agingTicks := 0 }) p
    exact ⟨h3.trans h4, h5⟩

lemma sameStore_unblockTarget (k : Kernel) (pid : Int) :
    SameStore k (unblockTarget k pid).1 ∧ (unblockTarget k pid).1.zombieHead = k.zombieHead := by
  unfold unblockTarget
  split
  · exact ⟨.refl k, rfl⟩
  · rename_i p _
    split
    · exact ⟨.refl k, rfl⟩
    · split
      · have h1 := SameStore.modify_self k p
          (f := fun c => { c with state := .ready, ticksLeft := timeSliceTicks, agingTicks := 0 })
          ⟨rfl, rfl, rfl, rfl⟩
        obtain ⟨h2, h3⟩ := sameStore_schedEnqueue (k.modify p fun c =>
          { c with state := .ready, ticksLeft := timeSliceTicks, agingTicks := 0 }) p
        exact ⟨h1.trans h2, h3⟩
      · exact ⟨.refl k, rfl⟩

/-- Reaping a process that owns nothing. -/
lemma sameStore_reap (unblock : Kernel → Int → Kernel) {z : Slot}
    (h : (k.procs z).kstackBase = none ∧ (k.procs z).fdTable = none ∧ (k.procs z).waitRes = []) :
    SameStore k (releaseSlot unblock (cleanupWaitResults (freeKstack k z) z) z) := by
  obtain ⟨h1, h2, h3⟩ := h
  have e : cleanupWaitResults k z = k.modify z fun c =>
      { c with waitRes := [], pendingExitValid := false, pendingExitPid := -1
               pendingExitCode := 0 } := by
    rw [cleanupWaitResults, h3]
    rfl
  have hs1 : SameStore k (cleanupWaitResults k z) := by
    rw [e]
    exact .modify_self k z ⟨rfl, rfl, h3.symm, rfl⟩
  rw [freeKstack, h1]
  dsimp only
  obtain ⟨-, a2, a3, -⟩ := hs1.procs z
  generalize cleanupWaitResults k z = k1 at hs1 a2 a3
  rw [releaseSlot, a2, h2]
  dsimp only
  have hs2 : SameStore k1 (cleanupWaitResults k1 z) := by
    rw [cleanupWaitResults, a3, h3]
    exact .modify_self k1 z ⟨rfl, rfl, a3.trans h3 |>.symm, rfl⟩
  have hs3 := hs2.trans (.modify_self _ z
    (f := fun c => { c with pendingExitValid := false, used := false }) ⟨rfl, rfl, rfl, rfl⟩)
  exact hs1.trans (hs3.trans (.of_same rfl fun _ => ⟨rfl, rfl, rfl, rfl⟩))

/-- A call back frees nothing. -/
lemma collect_spent (unblock : Kernel → Int → Kernel) {x : Slot} (hk : Spent x k) :
    SameStore k (collectZombiesWith unblock k) ∧ Spent x (collectZombiesWith unblock k) := by
  have hhead : ∀ {k'} (z : Option Slot), SameStore k k' → (z = none ∨ z = k.zombieHead) →
      SameStore k { k' with zombieHead := z } ∧ Spent x { k' with zombieHead := z } := by
    intro k' z h hz
    have h1 : SameStore k { k' with zombieHead := z } :=
      h.trans (.of_same rfl fun _ => ⟨rfl, rfl, rfl, rfl⟩)
    exact ⟨h1, hk.of_store h1 hz⟩
  unfold collectZombiesWith
  generalize maxProcs = n
  cases hz : k.zombieHead with
  | none =>
    rw [collectLoop_none]
    exact hhead none (.refl k) (.inl rfl)
  | some z =>
    obtain ⟨-, hnext, hown⟩ := hk z hz
    have e : update k.cleanupNext z none = k.cleanupNext := by
      rw [← hnext, update_eq_self]
    cases n with
    | zero => exact hhead none (.refl k) (.inl rfl)
    | succ n =>
      simp only [collectLoop, hnext, e, collectLoop_none]
      split
      · rename_i hr
        exact hhead none (sameStore_reap unblock (hown hr)) (.inl rfl)
      · exact hhead (some z) (.refl k) (.inr hz.symm)

lemma unblockDepth_spent (n : Nat) {x : Slot} (hk : Spent x k) (pid : Int) :
    SameStore k (procUnblockDepth n k pid) ∧ Spent x (procUnblockDepth n k pid) := by
  have h : ∀ unblock, SameStore k (unblockTarget (collectZombiesWith unblock k) pid).1 ∧
      Spent x (unblockTarget (collectZombiesWith unblock k) pid).1 := by
    intro unblock
    obtain ⟨h1, h2⟩ := collect_spent unblock hk
    obtain ⟨h3, h4⟩ := sameStore_unblockTarget (collectZombiesWith unblock k) pid
    exact ⟨h1.trans h3, h2.of_store h3 (.inr h4)⟩
  cases n with
  | zero => exact h _
  | succ n => exact h _

theorem nested_spent (n : Nat) (x : Slot) : Nested (Spent x) (procUnblockDepth n) where
  keep hk k' hp hz hc := by
    intro z hz'
    rw [hp, hc]
    exact hk z (by rwa [← hz])
  call hk pid := unblockDepth_spent n hk pid

/-- Writes to a process that is not the first zombie. -/
lemma Spent.off {x z : Slot} (hk : Spent x k) (hz : x ≠ z) (hh : k'.zombieHead = k.zombieHead)
    (hp : ∀ y, y ≠ z → k'.procs y = k.procs y ∧ k'.cleanupNext y = k.cleanupNext y) :
    Spent x k' := by
  intro y hy
  obtain ⟨rfl, h⟩ := hk y (by rwa [← hh])
  obtain ⟨h1, h2⟩ := hp y hz
  rw [h1, h2]
  exact ⟨rfl, h⟩

/-- One process is reaped. -/
def reap (unblock : Kernel → Int → Kernel) (k : Kernel) (z : Slot) : Kernel :=
  releaseSlot unblock (cleanupWaitResults (freeKstack k z) z) z

lemma SameStore.freeKstack (h : SameStore k0 k) (z : Slot) :
    SameStore (freeKstack k0 z) (freeKstack k z) := by
  rw [TP2Kernel.freeKstack, TP2Kernel.freeKstack, (h.procs z).1]
  cases (k0.procs z).kstackBase with
  | none => exact h
  | some a => exact (h.mmFree _).modify z fun c c' hc => ⟨rfl, hc.2⟩

lemma SameStore.cleanupWaitResults (h : SameStore k0 k) (z : Slot) :
    SameStore (cleanupWaitResults k0 z) (cleanupWaitResults k z) := by
  rw [TP2Kernel.cleanupWaitResults, TP2Kernel.cleanupWaitResults, (h.procs z).2.2.1]
  exact (h.mmFrees _).modify z fun c c' hc => ⟨hc.1, hc.2.1, rfl, hc.2.2.2⟩

lemma SameStore.freeSlot (h : SameStore k0 k) (z : Slot) :
    SameStore (freeSlot k0 z) (freeSlot k z) := by
  have h1 := h.modify z (f := fun c => { c with pendingExitValid := false, used := false })
    fun c c' hc => hc
  exact h1.write (.of_same rfl fun _ => ⟨rfl, rfl, rfl, rfl⟩)
    (.of_same rfl fun _ => ⟨rfl, rfl, rfl, rfl⟩)

lemma freeKstack_others (k : Kernel) (z : Slot) :
    (freeKstack k z).zombieHead = k.zombieHead ∧ (freeKstack k z).cleanupNext = k.cleanupNext ∧
      ∀ y, y ≠ z → (freeKstack k z).procs y = k.procs y := by
  unfold freeKstack
  split
  · exact ⟨rfl, rfl, fun y hy => Kernel.modify_procs_of_ne _ _ hy⟩
  · exact ⟨rfl, rfl, fun _ _ => rfl⟩

lemma cleanupWaitResults_others (k : Kernel) (z : Slot) :
    (cleanupWaitResults k z).zombieHead = k.zombieHead ∧
      (cleanupWaitResults k z).cleanupNext = k.cleanupNext ∧
      ∀ y, y ≠ z → (cleanupWaitResults k z).procs y = k.procs y := by
  rw [cleanupWaitResults, Kernel.mmFrees_eq]
  exact ⟨rfl, rfl, fun y hy => Kernel.modify_procs_of_ne _ _ hy⟩

lemma freeSlot_others (k : Kernel) (z : Slot) :
    (freeSlot k z).zombieHead = k.zombieHead ∧ (freeSlot k z).cleanupNext = k.cleanupNext ∧
      ∀ y, y ≠ z → (freeSlot k z).procs y = k.procs y :=
  ⟨rfl, rfl, fun _ hy => Kernel.modify_procs_of_ne k
    (fun c => { c with pendingExitValid := false, used := false }) hy⟩

lemma releaseSlot_drop (unblock : Kernel → Int → Kernel) (k : Kernel) (z : Slot) :
    releaseSlot unblock k z = freeSlot (cleanupWaitResults (dropTable unblock k z) z) z := rfl

section Reaping

variable {x z : Slot} {unblock : Kernel → Int → Kernel} (hn : Nested (Spent x) unblock)
include hn

lemma Spent.dropTable (hk : Spent x k) (hz : x ≠ z) (h : SameStore k0 k) :
    SameStore (dropTable wakeNobody k0 z) (dropTable unblock k z) ∧
      Spent x (dropTable unblock k z) := by
  rw [Proofs.dropTable, Proofs.dropTable, (h.procs z).2.1]
  cases (k0.procs z).fdTable with
  | none => exact ⟨h, hk⟩
  | some t =>
    obtain ⟨h1, h2⟩ := hn.destroy hk h t
    dsimp only
    generalize fdTableDestroy unblock k t = kd at h1 h2 ⊢
    exact ⟨h1.modify z fun c c' hc => ⟨hc.1, rfl, hc.2.2⟩,
      h2.off hz rfl fun y hy => ⟨Kernel.modify_procs_of_ne _ _ hy, rfl⟩⟩

/-- A later zombie is reaped as if nobody were woken. -/
lemma Spent.reap (hk : Spent x k) (hz : x ≠ z) (h : SameStore k0 k) :
    SameStore (reap wakeNobody k0 z) (reap unblock k z) ∧ Spent x (reap unblock k z) := by
  obtain ⟨a1, a2, a3⟩ := freeKstack_others k z
  have h1 := h.freeKstack z
  have hk1 : Spent x (freeKstack k z) := hk.off hz a1 fun y hy => ⟨a3 y hy, by rw [a2]⟩
  obtain ⟨b1, b2, b3⟩ := cleanupWaitResults_others (freeKstack k z) z
  have h2 := h1.cleanupWaitResults z
  have hk2 : Spent x (cleanupWaitResults (freeKstack k z) z) :=
    hk1.off hz b1 fun y hy => ⟨b3 y hy, by rw [b2]⟩
  obtain ⟨h3, hk3⟩ := hk2.dropTable hn hz h2
  unfold Proofs.reap
  rw [releaseSlot_drop, releaseSlot_drop]
  generalize Proofs.dropTable unblock (cleanupWaitResults (freeKstack k z) z) z = k3 at h3 hk3
  obtain ⟨c1, c2, c3⟩ := cleanupWaitResults_others k3 z
  have hk4 : Spent x (cleanupWaitResults k3 z) := hk3.off hz c1 fun y hy => ⟨c3 y hy, by rw [c2]⟩
  obtain ⟨d1, d2, d3⟩ := freeSlot_others (cleanupWaitResults k3 z) z
  exact ⟨(h3.cleanupWaitResults z).freeSlot z, hk4.off hz d1 fun y hy => ⟨d3 y hy, by rw [d2]⟩⟩

end Reaping

/-- Writes of the closing functions when they wake nobody. -/
lemma nested_frame (k : Kernel) : Nested (fun k' => k'.procs = k.procs ∧
    k'.zombieHead = k.zombieHead ∧ k'.cleanupNext = k.cleanupNext) wakeNobody where
  keep h _ hp hz hc := ⟨hp.trans h.1, hz.trans h.2.1, hc.trans h.2.2⟩
  call h _ := ⟨.refl _, h⟩

/-- What reaping does to the processes when nobody is woken. -/
structure Reaped (z : Slot) (k k' : Kernel) : Prop where
  head : k'.zombieHead = k.zombieHead
  cleanup : k'.cleanupNext = k.cleanupNext
  others : ∀ y, y ≠ z → k'.procs y = k.procs y
  reapable : reapable (k'.procs z) = reapable (k.procs z)

lemma Reaped.trans {z : Slot} {k'' : Kernel} (h : Reaped z k k') (h' : Reaped z k' k'') :
    Reaped z k k'' :=
  ⟨h'.head.trans h.head, h'.cleanup.trans h.cleanup,
    fun y hy => (h'.others y hy).trans (h.others y hy), h'.reapable.trans h.reapable⟩

lemma Reaped.of_modify {z : Slot} {f : Pcb → Pcb} (hp : k'.procs = k.procs)
    (hz : k'.zombieHead = k.zombieHead) (hc : k'.cleanupNext = k.cleanupNext)
    (hf : TP2Kernel.reapable (f (k.procs z)) = TP2Kernel.reapable (k.procs z)) :
    Reaped z k (k'.modify z f) := by
  refine ⟨hz, hc, fun y hy => ?_, ?_⟩
  · rw [Kernel.modify_procs_of_ne _ _ hy, hp]
  · rw [Kernel.modify_procs_self, hp, hf]

lemma reaped_freeKstack (k : Kernel) (z : Slot) :
    Reaped z k (freeKstack k z) ∧ ((freeKstack k z).procs z).kstackBase = none := by
  unfold freeKstack
  split
  · exact ⟨.of_modify rfl rfl rfl rfl, by simp [Kernel.modify]⟩
  · rename_i h
    exact ⟨⟨rfl, rfl, fun _ _ => rfl, rfl⟩, h⟩

lemma reaped_cleanupWaitResults (k : Kernel) (z : Slot) :
    Reaped z k (cleanupWaitResults k z) ∧ ((cleanupWaitResults k z).procs z).waitRes = [] ∧
      ((cleanupWaitResults k z).procs z).kstackBase = (k.procs z).kstackBase ∧
      ((cleanupWaitResults k z).procs z).fdTable = (k.procs z).fdTable := by
  rw [cleanupWaitResults, Kernel.mmFrees_eq]
  exact ⟨.of_modify rfl rfl rfl rfl, by simp [Kernel.modify], by simp [Kernel.modify],
    by simp [Kernel.modify]⟩

lemma reaped_dropTable (k : Kernel) (z : Slot) :
    Reaped z k (dropTable wakeNobody k z) ∧
      ((dropTable wakeNobody k z).procs z).fdTable = none ∧
      ((dropTable wakeNobody k z).procs z).kstackBase = (k.procs z).kstackBase ∧
      ((dropTable wakeNobody k z).procs z).waitRes = (k.procs z).waitRes := by
  unfold dropTable
  split
  · rename_i t _
    obtain ⟨hp, hz, hc⟩ := ((nested_frame k).destroy ⟨rfl, rfl, rfl⟩ (.refl k) t).2
    refine ⟨.of_modify hp hz hc rfl, by simp [Kernel.modify], ?_⟩
    rw [Kernel.modify_procs_self, hp]
    exact ⟨rfl, rfl⟩
  · rename_i h
    exact ⟨⟨rfl, rfl, fun _ _ => rfl, rfl⟩, h, rfl, rfl⟩

lemma reaped_reap (k : Kernel) (z : Slot) :
    Reaped z k (reap wakeNobody k z) ∧ ((reap wakeNobody k z).procs z).kstackBase = none ∧
      ((reap wakeNobody k z).procs z).fdTable = none ∧
      ((reap wakeNobody k z).procs z).waitRes = [] := by
  obtain ⟨h1, hs1⟩ := reaped_freeKstack k z
  obtain ⟨h2, -, hs2, -⟩ := reaped_cleanupWaitResults (freeKstack k z) z
  obtain ⟨h3, ht3, hs3, -⟩ := reaped_dropTable (cleanupWaitResults (freeKstack k z) z) z
  unfold reap
  rw [releaseSlot_drop]
  generalize dropTable wakeNobody (cleanupWaitResults (freeKstack k z) z) z = k3 at h3 ht3 hs3
  obtain ⟨h4, hw4, hs4, ht4⟩ := reaped_cleanupWaitResults k3 z
  generalize cleanupWaitResults k3 z = k4 at h4 hw4 hs4 ht4
  have h5 : Reaped z k4 (freeSlot k4 z) :=
    ⟨rfl, rfl, (freeSlot_others k4 z).2.2, by simp [freeSlot, Kernel.modify, reapable]⟩
  refine ⟨(((h1.trans h2).trans h3).trans h4).trans h5, ?_, ?_, ?_⟩
  · simp [freeSlot, Kernel.modify, hs4, hs3, hs2, hs1]
  · simp [freeSlot, Kernel.modify, ht4, ht3]
  · simp [freeSlot, Kernel.modify, hw4]

lemma SameStore.setHead (h : SameStore k0 k) (z : Option Slot) :
    SameStore { k0 with zombieHead := z } { k with zombieHead := z } :=
  h.write (.of_same rfl fun _ => ⟨rfl, rfl, rfl, rfl⟩) (.of_same rfl fun _ => ⟨rfl, rfl, rfl, rfl⟩)

/-- Once the first zombie is spent, the rest of the list is reaped as if nobody were woken. -/
lemma collectLoop_spent {x : Slot} {unblock : Kernel → Int → Kernel}
    (hn : Nested (Spent x) unblock) {zs : List Slot} {n : Nat} {cursor pending : Option Slot}
    (hk : Spent x k) (h : SameStore k0 k) (hzs : LinkedList.IsChain k.cleanupNext cursor zs)
    (hx : x ∉ zs) :
    SameStore (collectLoop wakeNobody n cursor pending k0)
      (collectLoop unblock n cursor pending k) := by
  induction zs generalizing n cursor pending k k0 with
  | nil =>
    cases hzs
    rw [collectLoop_none, collectLoop_none]
    exact h.setHead pending
  | cons z zs ih =>
    obtain ⟨rfl, hzs⟩ := hzs
    have hxz : x ≠ z := fun e => hx (by simp [e])
    have hzz : z ∉ zs := by
      have hch : LinkedList.IsChain k.cleanupNext (some z) (z :: zs) := ⟨rfl, hzs⟩
      exact (List.nodup_cons.mp (LinkedList.isChain_nodup hch)).1
    have hx' : x ∉ zs := fun h => hx (List.mem_cons_of_mem z h)
    cases n with
    | zero => exact h.setHead pending
    | succ n =>
      have hnext : k0.cleanupNext z = k.cleanupNext z := by rw [h.cleanup]
      simp only [collectLoop]
      rw [← (h.procs z).2.2.2, hnext]
      have h1 := h.relink z none
      have hk1 : Spent x { k with cleanupNext := update k.cleanupNext z none } :=
        hk.off hxz rfl fun y hy => ⟨rfl, update_of_ne hy _ _⟩
      have hlink : ∀ y ∈ zs, update k.cleanupNext z none y = k.cleanupNext y := fun y hy =>
        update_of_ne (ne_of_mem_of_not_mem hy hzz) _ _
      split
      · obtain ⟨h2, hk2⟩ := hk1.reap hn hxz h1
        have hc := (hk1.reap hn hxz (.refl _)).1.cleanup.trans (reaped_reap _ z).1.cleanup
        refine ih hk2 h2 ?_ hx'
        rw [reap] at hc
        rw [hc]
        exact (LinkedList.isChain_congr hlink).mpr hzs
      · have hk2 : Spent x { k with
            cleanupNext := update (update k.cleanupNext z none) z pending } :=
          hk1.off hxz rfl fun y hy => ⟨rfl, update_of_ne hy _ _⟩
        refine ih hk2 (h1.relink z pending) ?_ hx'
        refine (LinkedList.isChain_congr fun y hy => ?_).mpr hzs
        exact (update_of_ne (ne_of_mem_of_not_mem hy hzz) _ _).trans (hlink y hy)

end TP2Kernel.Proofs
