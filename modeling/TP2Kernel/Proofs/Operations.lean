import TP2Kernel.Syscalls
import TP2Kernel.Proofs.Keeping

/-!
# System calls as sequences of actions

Every operation of `proc.c` returns to its caller after a sequence of actions, or leaves
the processor behind one. A kill or an exit terminates only its target and the processes on
the target's list of children.
-/

namespace TP2Kernel.Proofs
open Function LinkedList

variable {s : Scope} {J : Agenda → Kernel → Prop} {a : Agenda} {k : Kernel} {exec : Slot}

/-- The current process yields as it is, or is blocked first. -/
inductive Leaves (k : Kernel) : Kernel → Prop
  | yields : Leaves k k
  | blocks {cur : Slot} (w : Pcb → Int) (hc : k.current = some cur) :
      Leaves k (k.modify cur fun c => { c with waitingFor := w c, state := .blocked, ticksLeft := 0 })

/-- The running process `p` is put on the ready queues by `proc_nice`. -/
def demoted (k : Kernel) (p : Slot) (prio : Int) : Kernel :=
  schedEnqueue ((schedRemove (k.modify p fun c => { c with state := .ready }) p).modify p fun c =>
    { c with priority := prio }) p

/-- How a call ends that starts in `k`: the actions that it does, and what follows them. -/
inductive Ends (Q : Kernel → Prop) (s : Scope) (k : Kernel) (exec : Slot) :
    Kernel × Outcome → Prop
  | back {k' : Kernel} {o : Outcome} (hs : Steps s k k') (hQ : Q k') (ho : ∀ f, o ≠ .load f) :
      Ends Q s k exec (k', o)
  | leave {k1 k2 : Kernel} (pc : Pc) (hs : Steps s k k1) (hQ : Q k1) (hl : Leaves k1 k2) :
      Ends Q s k exec (k2.yield ⟨exec, pc⟩)
  | demote {k1 : Kernel} {p : Slot} {prio : Int} (hd : s.demotes) (hs : Steps s k k1) (hQ : Q k1)
      (hp : PrioInRange prio) (hc : k1.current = some p) (hr : (k1.procs p).state = .running)
      (hi : k1.idleProc ≠ some p) : Ends Q s k exec ((demoted k1 p prio).yield ⟨exec, .user⟩)

lemma Ends.prepend {Q : Kernel → Prop} {k1 : Kernel} {r : Kernel × Outcome} (h : Steps s k k1)
    (he : Ends Q s k1 exec r) : Ends Q s k exec r := by
  cases he with
  | back hs hQ ho => exact .back (h.trans hs) hQ ho
  | leave pc hs hQ hl => exact .leave pc (h.trans hs) hQ hl
  | demote hd hs hQ hp hc hr hi => exact .demote hd (h.trans hs) hQ hp hc hr hi

/-- The rest of a call behind a sequence of actions. -/
lemma ends_goes {Q : Kernel → Prop} {k1 : Kernel} {r : Kernel × Outcome} (h : Goes Q s k k1)
    (hQ : Q k) (he : Q k1 → Ends Q s k1 exec r) : Ends Q s k exec r := by
  obtain ⟨hs, hQ1⟩ := h hQ
  exact (he hQ1).prepend hs

lemma ends_back {Q : Kernel → Prop} {k' : Kernel} {o : Outcome} (h : Goes Q s k k') (hQ : Q k)
    (ho : ∀ f, o ≠ .load f) : Ends Q s k exec (k', o) := by
  obtain ⟨hs, hQ1⟩ := h hQ
  exact .back hs hQ1 ho

lemma ends_block {Q : Kernel → Prop} {cur : Slot} (hQ : Q k) (hc : k.current = some cur) (pc : Pc) :
    Ends Q s k exec (k.blockAndYield cur ⟨exec, pc⟩) :=
  .leave pc .refl hQ (.blocks (fun c => c.waitingFor) hc)

lemma sameZombies_unready (k : Kernel) (p : Slot) : SameZombies k (unready k p) := by
  have hw := unready_write k p
  have hp := unready_procs k p
  refine ⟨(congrArg Kernel.cleanupNext hw :), (congrArg Kernel.zombieHead hw :), fun x => ?_,
    fun x => ?_, fun f => ?_⟩
  · rw [hp]
  · rw [hp]
  · rw [show (unready k p).files = k.files from (congrArg Kernel.files hw :)]

lemma goes_suspend (hJ : OfZombies (J a)) {p : Slot} (hm : s.moved p) (hi : k.idleProc ≠ some p)
    (hc : k.current ≠ some p) (he : (k.procs p).state ≠ .exited) : Goes (J a) s k
      ((unready k p).modify p fun c => { c with state := .blocked, ticksLeft := 0 }) := by
  refine .act (.suspend p hm hi hc he) (hJ _ _ ?_)
  apply (sameZombies_unready k p).trans
  apply sameZombies_modify
  · rw [unready_procs]
    simp [he]
  · rfl

/-- `proc_block`. -/
theorem ends_procBlock (hJ : ZombieRule s J) (hk : J a k) {pid : Int}
    (hm : ∀ p, procByPid (collectZombies k) pid = some p → s.moved p) :
    Ends (J a) s k exec (procBlock k exec pid) := by
  apply ends_goes (hJ.collects a k) hk
  intro hk1
  unfold procBlock
  generalize collectZombies k = k1 at hk1 hm
  dsimp only
  split
  · exact .back .refl hk1 (by simp)
  · rename_i target htarget
    split
    · exact .back .refl hk1 (by simp)
    · rename_i h1
      obtain ⟨hi, he⟩ := not_or.mp h1
      split
      · exact .back .refl hk1 (by simp)
      · split
        · rename_i hc
          have hmt : s.moved target := by
            split at htarget
            · exact hm target htarget
            · exact absurd htarget hc
          exact ends_back (goes_suspend (hJ.ofZombies a) hmt hi hc he) hk1 (by simp)
        · rename_i hc
          exact ends_block hk1 (not_not.mp hc) _

lemma sameZombies_schedRemove (k : Kernel) (p : Slot) : SameZombies k (schedRemove k p) := by
  have hw := schedRemove_write k p
  have hp := schedRemove_procs k p
  refine ⟨(congrArg Kernel.cleanupNext hw :), (congrArg Kernel.zombieHead hw :), fun x => ?_,
    fun x => ?_, fun f => ?_⟩
  · rw [hp]
  · rw [hp]
  · rw [show (schedRemove k p).files = k.files from (congrArg Kernel.files hw :)]

lemma goes_requeue (hJ : OfZombies (J a)) {p : Slot} {prio : Int} (hm : s.moved p) (hp : PrioInRange prio)
    (hu : (k.procs p).used) (hr : (k.procs p).state = .ready) : Goes (J a) s k
      (schedEnqueue ((schedRemove k p).modify p fun c => { c with priority := prio }) p) := by
  refine .act (.requeue p prio hm hp.1 hp.2 hu hr) (hJ _ _ ?_)
  have hst : ((schedRemove k p).procs p).state = .ready := by
    rw [schedRemove_procs]
    exact hr
  apply (sameZombies_schedRemove k p).trans
  apply (sameZombies_modify _ p (fun c => { c with priority := prio }) .rfl rfl).trans
  apply schedEnqueue_sameZombies
  rw [Kernel.modify_procs_self]
  simp [hst]

/-- `proc_nice`, which the idle process does not call. -/
theorem ends_procNice (hJ : ZombieRule s J) (hs : Sound k)
    (hni : ∀ c, k.current = some c → k.idleProc ≠ some c) (hk : J a k) {pid newPrio : Int}
    (hm : ∀ p, procByPid (collectZombies k) pid = some p → s.moved p)
    (hd : ∀ p, procByPid (collectZombies k) pid = some p → (collectZombies k).current = some p →
      ((collectZombies k).procs p).priority ≠ clampPrio newPrio → s.demotes) :
    Ends (J a) s k exec (procNice k exec pid newPrio) := by
  have hprio := clampPrio_inRange newPrio
  obtain ⟨h1, -⟩ := hJ.collect a k hk
  have hcur : ∀ c, (collectZombies k).current = some c → (collectZombies k).idleProc ≠ some c := by
    intro c hc
    rw [(steps_static hs h1).1]
    exact hni c (steps_current hs h1 hc)
  apply ends_goes (hJ.collects a k) hk
  intro hk1
  unfold procNice
  generalize collectZombies k = k1 at hk1 hcur hm hd
  generalize clampPrio newPrio = prio at hprio hd
  dsimp only
  split
  · exact .back .refl hk1 (by simp)
  · rename_i p hp
    obtain ⟨-, hu, -⟩ := procByPid_some hp
    split
    · exact .back .refl hk1 (by simp)
    · rename_i hne
      have hz : SameZombies k1 (k1.modify p fun c =>
          { c with basePriority := prio, agingTicks := 0 }) := sameZombies_modify _ _ _ .rfl rfl
      have h2 : Goes (J a) s k1 (k1.modify p fun c =>
          { c with basePriority := prio, agingTicks := 0 }) :=
        .act (.rebase p prio (hm p hp) hprio.1 hprio.2) (hJ.ofZombies a _ _ hz)
      have hself := k1.modify_procs_self p fun c => { c with basePriority := prio, agingTicks := 0 }
      apply ends_goes h2 hk1
      intro hk2
      have hcd : (k1.modify p fun c =>
          { c with basePriority := prio, agingTicks := 0 }).current = some p → s.demotes :=
        fun hc => hd p hp hc hne
      have hcur2 : ∀ c, (k1.modify p fun c =>
          { c with basePriority := prio, agingTicks := 0 }).current = some c →
        (k1.modify p fun c => { c with basePriority := prio, agingTicks := 0 }).idleProc ≠ some c :=
        hcur
      generalize (k1.modify p fun c => { c with basePriority := prio, agingTicks := 0 }) = k2
        at hk2 hself hcur2 hcd
      have hu2 : (k2.procs p).used := by
        rw [hself]
        exact hu
      split
      · rename_i hr
        exact ends_back (goes_requeue (hJ.ofZombies a) (hm p hp) hprio hu2 hr) hk2 (by simp)
      · rename_i hr
        split
        · rename_i hrun
          exact .demote (hcd hrun.2) .refl hk2 hprio hrun.2 hrun.1 (hcur2 p hrun.2)
        · have hz3 : SameZombies k2 (k2.modify p fun c => { c with priority := prio }) :=
            sameZombies_modify _ _ _ .rfl rfl
          have h3 : Goes (J a) s k2 (k2.modify p fun c => { c with priority := prio }) :=
            .act (.reprio p prio (hm p hp) hprio.1 hprio.2 hr) (hJ.ofZombies a _ _ hz3)
          exact ends_back h3 hk2 (by simp)

/-- `proc_unblock`. -/
theorem ends_procUnblock (hJ : ZombieRule s J) (hk : J a k) {pid : Int}
    (hw : ∀ p, procByPid (collectZombies k) pid = some p → s.woken p) :
    Ends (J a) s k exec (returning (procUnblock k pid)) := by
  apply ends_goes (hJ.collects a k) hk
  intro hk1
  exact ends_back (goes_unblockTarget (hJ.ofZombies a) _ pid hw) hk1 (by simp)

/-- A write that no process notices, except that links may be cut. -/
structure Gentle (k k' : Kernel) : Prop where
  procs : ∀ p, SameSched (k.procs p) (k'.procs p)
  waiting : ∀ p, (k'.procs p).waitingFor = (k.procs p).waitingFor ∨ (k'.procs p).waitingFor = 0
  current : k'.current = k.current
  idle : k'.idleProc = k.idleProc
  shrinks : ∀ p, Shrinks k k' p

lemma Gentle.trans {k' k'' : Kernel} (h : Gentle k k') (h' : Gentle k' k'') : Gentle k k'' := by
  refine ⟨fun p => (h.procs p).trans (h'.procs p), fun p => ?_, h'.current.trans h.current,
    h'.idle.trans h.idle, fun p => (h.shrinks p).trans (h'.shrinks p)⟩
  rcases h'.waiting p with e | e
  · rw [e]
    exact h.waiting p
  · exact .inr e

lemma gentle_calm {k' : Kernel} (h : Calm k k') : Gentle k k' :=
  ⟨fun p => h.still.procs p id, h.still.waiting, h.still.queues.current, h.still.queues.idleProc,
    fun p => ⟨.inl (h.still.links p id).1, .inl (h.still.links p id).2⟩⟩

lemma gentle_semWrite {k' : Kernel} (h : SemWrite k k') : Gentle k k' := by
  have hp := h.procs
  refine ⟨fun p => by rw [hp]; exact .refl _, fun p => .inl (by rw [hp]),
    (congrArg Kernel.current h.same :), (congrArg Kernel.idleProc h.same :), fun p => ?_⟩
  exact shrinks_of_eq (congrArg Kernel.childHead h.same :) (congrArg Kernel.siblingNext h.same :)

lemma Gentle.executing {k' : Kernel} {c : Slot} (h : Gentle k k') (hc : Executing k c) :
    Executing k' c :=
  ⟨h.current.trans hc.current, (h.procs c).used.trans hc.used, (h.procs c).state.trans hc.running⟩

/-- Reaping zombies leaves every process its pid, and frees slots only. -/
lemma steps_reaping {k' : Kernel} (h : Sound k) (hs : Steps s.reaping k k') (x : Slot) :
    (k'.procs x).pid = (k.procs x).pid ∧ ((k'.procs x).used → (k.procs x).used) := by
  induction hs with
  | refl => exact ⟨rfl, id⟩
  | tail h' ha ih =>
    cases act_fate (steps_sound h h') ha x with
    | same hs => exact ⟨hs.1.trans ih.1, fun hu => ih.2 (hs.2.1 ▸ hu)⟩
    | woken hs => exact ⟨hs.1.trans ih.1, fun hu => ih.2 (hs.2.1 ▸ hu)⟩
    | retired hs => exact ⟨hs.1.trans ih.1, fun hu => ih.2 (hs.2.1 ▸ hu)⟩
    | reaped _ _ hp hu => exact ⟨hp.trans ih.1, fun h => ih.2 (hu h)⟩
    | drafted hf => exact hf.elim
    | entered hs => exact ⟨hs.1.trans ih.1, fun hu => ih.2 (hs.2.1 ▸ hu)⟩
    | suspended hs => exact ⟨hs.1.trans ih.1, fun hu => ih.2 (hs.2.1 ▸ hu)⟩

/-- No process waits for a child, and pid 0 is not given out. -/
def NobodyWaits (k : Kernel) : Prop :=
  (∀ q, (k.procs q).waitingFor = 0) ∧ ∀ q, (k.procs q).used → (k.procs q).pid ≠ 0

/-- A termination may wake everybody, or nobody waits for a child. -/
def WaitsOk (s : Scope) (k : Kernel) : Prop := (∀ q, s.woken q) ∨ NobodyWaits k

lemma WaitsOk.reaping {k' : Kernel} (h : WaitsOk s k) (hk : Sound k) (hs : Steps s.reaping k k') :
    WaitsOk s k' := by
  refine h.imp id fun ⟨hz, hpid⟩ => ⟨steps_waiting hs hz, fun q hu => ?_⟩
  obtain ⟨h1, h2⟩ := steps_reaping hk hs q
  rw [h1]
  exact hpid q (h2 hu)

lemma WaitsOk.gentle {k' : Kernel} (h : WaitsOk s k) (hg : Gentle k k') : WaitsOk s k' := by
  refine h.imp id fun ⟨hz, hpid⟩ => ⟨fun q => ?_, fun q hu => ?_⟩
  · rcases hg.waiting q with e | e
    · exact e.trans (hz q)
    · exact e
  · rw [(hg.procs q).pid]
    exact hpid q ((hg.procs q).used ▸ hu)

/-- `s` allows a termination of `p` with its children. -/
def Dies (s : Scope) (k : Kernel) (p : Slot) : Prop :=
  s.terminated p ∧ ∀ d, OnChildList k p d → s.terminated d

lemma Dies.shrinks {k' : Kernel} {p : Slot} (h : Dies s k p) (hs : ∀ x, Shrinks k k' x) :
    Dies s k' p :=
  ⟨h.1, fun d hd => h.2 d (onChildList_of_shrinks hs hd)⟩

/-- The mark that `proc_exit` and `proc_kill` set. -/
def exitMark (code : Int) (valid : Pcb → Bool) (c : Pcb) : Pcb :=
  { c with exitCode := code, state := .exited, ticksLeft := 0, waitingFor := 0
           pendingExitValid := valid c }

/-- Marking and burying a process that is not `EXITED` yet. -/
lemma goes_terminate (hJ : ZombieRule s J) (hkin : s.kin) (hn : ∀ q, s.noted q) {p : Slot}
    (he : (k.procs p).state ≠ .exited) (hu : (k.procs p).used) (hd : Dies s k p) (hw : WaitsOk s k)
    (code : Int) (valid : Pcb → Bool) :
    Goes (J a) s k (buryProc ((unready k p).modify p (exitMark code valid)) p) := by
  intro hk
  have hne : ∀ x, a.dying x → x ≠ p := by
    rintro x hx rfl
    exact he ((hJ.meets hk).dying x hx)
  have h1 : Act s k ((unready k p).modify p (exitMark code valid)) :=
    act_retire hd.1 he _ (fun _ => rfl) fun _ => rfl
  have hJ1 := hJ.die hk he (grows_retire (exitMark code valid) (fun _ => rfl) fun _ h => h)
  have hl := (unready_write k p).links
  have hshr : ∀ x, Shrinks k ((unready k p).modify p (exitMark code valid)) x :=
    fun x => shrinks_of_eq hl.1 hl.2
  have hself : ((unready k p).modify p (exitMark code valid)).procs p =
      exitMark code valid (k.procs p) := by
    rw [Kernel.modify_procs_self, unready_procs]
  have hok : NotifyOk s ((unready k p).modify p (exitMark code valid)) p := by
    refine hw.imp id fun ⟨hz, hpid⟩ => ⟨fun q => ?_, ?_⟩
    · rw [Kernel.modify_procs, unready_procs]
      split
      · rfl
      · exact hz q
    · rw [hself]
      exact hpid p hu
  obtain ⟨h2, hJ2⟩ := goes_buryProc hJ hkin hn (hd.shrinks hshr).2 hok hne hJ1
  exact ⟨(Relation.ReflTransGen.single h1).trans h2, hJ2⟩

lemma calm_exitForeground (k : Kernel) (p : Slot) : Calm k (exitForeground k p) := by
  unfold exitForeground
  split
  · split
    · exact calm_procSetForeground k _
    · exact calm_ttySetForeground k _
  · exact .refl k

lemma calm_killForeground (k : Kernel) (p : Slot) : Calm k (killForeground k p) := by
  unfold killForeground
  split
  · split
    · exact calm_procSetForeground k _
    · split
      · exact calm_procSetForeground k _
      · exact calm_ttySetForeground k _
  · exact .refl k

/-- The semaphores, handles and the terminal that `proc_exit` gives up. -/
def exitRelease (k : Kernel) (p : Slot) : Kernel :=
  exitForeground (semCleanupProcessHandles (ksemRemoveWaitersFor k p)
    ((ksemRemoveWaitersFor k p).procs p).pid) p

/-- `proc_exit` behind its `collect_zombies`. -/
def exitTail (k : Kernel) (exec p : Slot) (code : Int) : Kernel × Outcome :=
  (buryProc ((exitRelease k p).modify p (exitMark code fun c => c.pendingExitValid)) p).yield
    ⟨exec, .hlt⟩

lemma procExit_eq (k : Kernel) (exec : Slot) (code : Int) : procExit k exec code =
    match (collectZombies k).current with
    | none => (collectZombies k, .ret 0)
    | some p =>
      if (collectZombies k).idleProc = some p then (collectZombies k, .ret 0)
      else exitTail (collectZombies k) exec p code := by
  unfold procExit exitTail exitRelease
  generalize collectZombies k = k1
  dsimp only
  generalize k1.current = cur
  cases cur with
  | none => rfl
  | some p =>
    dsimp only
    split
    · rfl
    · rfl

lemma unready_running {p : Slot} (h : (k.procs p).state = .running) : unready k p = k := by
  unfold unready
  rw [if_neg (by simp [h])]

lemma goes_exitRelease (hJ : OfZombies (J a)) (hsems : s.sems) (k : Kernel) (p : Slot) :
    Goes (J a) s k (exitRelease k p) ∧ Gentle k (exitRelease k p) := by
  have h1 := semWrite_removeWaitersFor k p
  have h2 := semWrite_cleanupHandles (ksemRemoveWaitersFor k p)
    ((ksemRemoveWaitersFor k p).procs p).pid
  have h3 := calm_exitForeground (semCleanupProcessHandles (ksemRemoveWaitersFor k p)
    ((ksemRemoveWaitersFor k p).procs p).pid) p
  exact ⟨((h1.trans h2).goes hJ hsems).trans (h3.goes hJ),
    (gentle_semWrite (h1.trans h2)).trans (gentle_calm h3)⟩

/-- The kernel in which `proc_exit` of `p` yields. -/
def exitBuried (k : Kernel) (p : Slot) (code : Int) : Kernel :=
  buryProc ((exitRelease (collectZombies k) p).modify p
    (exitMark code fun c => c.pendingExitValid)) p

lemma procExit_buried (exec : Slot) {p : Slot} (hc : (collectZombies k).current = some p)
    (hi : (collectZombies k).idleProc ≠ some p) (code : Int) :
    procExit k exec code = (exitBuried k p code).yield ⟨exec, .hlt⟩ := by
  rw [procExit_eq, hc]
  dsimp only
  rw [if_neg hi]
  rfl

lemma goes_exitBuried (hJ : ZombieRule s J) (hkin : s.kin) (hsems : s.sems)
    (hn : ∀ q, s.noted q) (hs : Sound k) {p : Slot} (hx : Executing k p)
    (hd : Dies s k p) (hw : WaitsOk s k) (hk : J a k) (code : Int) :
    Steps s k (exitBuried k p code) ∧ J a (exitBuried k p code) := by
  obtain ⟨h1, -⟩ := hJ.collect a k hk
  obtain ⟨h1', hk1⟩ := hJ.collects a k hk
  have hd1 := hd.shrinks (steps_shrinks id hs h1)
  have hx1 := steps_executing hs h1 id hx
  have hw1 := hw.reaping hs h1
  unfold exitBuried
  generalize collectZombies k = k1 at *
  obtain ⟨h2, hg⟩ := goes_exitRelease (s := s) (hJ.ofZombies a) hsems k1 p
  obtain ⟨h2, hk2⟩ := h2 hk1
  have hx2 := hg.executing hx1
  have h3 := goes_terminate (a := a) hJ hkin hn (by simp [hx2.running]) hx2.used
    (hd1.shrinks hg.shrinks) (hw1.gentle hg) code fun c => c.pendingExitValid
  rw [unready_running hx2.running] at h3
  obtain ⟨h4, hk4⟩ := h3 hk2
  exact ⟨(h1'.trans h2).trans h4, hk4⟩

/-- `proc_exit` of a process that is not the idle process ends in the scheduler. -/
theorem procExit_yields (exec : Slot) (hJ : ZombieRule s J) (hkin : s.kin) (hsems : s.sems)
    (hn : ∀ q, s.noted q) (hs : Sound k) {p : Slot} (hx : Executing k p) (hi : k.idleProc ≠ some p)
    (hd : Dies s k p) (hw : WaitsOk s k) (hk : J a k) (code : Int) :
    ∃ k1, Steps s k k1 ∧ J a k1 ∧ procExit k exec code = k1.yield ⟨exec, .hlt⟩ := by
  obtain ⟨h1, -⟩ := hJ.collect a k hk
  have hx1 := steps_executing hs h1 id hx
  have hi1 : (collectZombies k).idleProc ≠ some p := by
    rw [(steps_static hs h1).1]
    exact hi
  obtain ⟨h2, hk2⟩ := goes_exitBuried hJ hkin hsems hn hs hx hd hw hk code
  exact ⟨_, h2, hk2, procExit_buried exec hx1.current hi1 code⟩

/-- `proc_exit`. -/
theorem ends_procExit (hJ : ZombieRule s J) (hkin : s.kin) (hsems : s.sems) (hn : ∀ q, s.noted q)
    (hs : Sound k) (hcur : ∀ c, k.current = some c → Executing k c)
    (hd : ∀ c, k.current = some c → Dies s k c) (hw : WaitsOk s k) (hk : J a k) (code : Int) :
    Ends (J a) s k exec (procExit k exec code) := by
  obtain ⟨h1, -⟩ := hJ.collect a k hk
  have hback : ∀ v, Ends (J a) s k exec (collectZombies k, .ret v) :=
    fun v => ends_back (hJ.collects a k) hk (by simp)
  have hidle := (steps_static hs h1).1
  cases hc : (collectZombies k).current with
  | none =>
    rw [procExit_eq, hc]
    exact hback 0
  | some p =>
    have hp := steps_current hs h1 hc
    by_cases hi : k.idleProc = some p
    · rw [procExit_eq, hc]
      dsimp only
      rw [if_pos (hidle.trans hi)]
      exact hback 0
    · obtain ⟨k1, h2, hk1, e⟩ := procExit_yields exec hJ hkin hsems hn hs (hcur p hp) hi
        (hd p hp) hw hk code
      rw [e]
      exact .leave .hlt h2 hk1 .yields

/-- What `proc_kill` does before it looks at the state of its target. -/
def killRelease (k : Kernel) (p : Slot) : Kernel := killForeground (ksemRemoveWaitersFor k p) p

/-- `proc_kill` behind its `collect_zombies`. -/
def killTail (k : Kernel) (exec p : Slot) : Kernel × Outcome :=
  if ((killRelease k p).procs p).state ≠ .ready ∧ (killRelease k p).current = some p then
    procExit (killRelease k p) exec 0
  else
    (collectZombies (buryProc ((unready (killRelease k p) p).modify p
      (exitMark 0 fun _ => false)) p), .ret 0)

lemma procKill_eq (k : Kernel) (exec : Slot) (pid : Int) : procKill k exec pid =
    match procByPid (collectZombies k) pid with
    | none => (collectZombies k, .ret (-1))
    | some p =>
      if (collectZombies k).idleProc = some p then (collectZombies k, .ret (-1))
      else killTail (collectZombies k) exec p := by
  unfold procKill killTail killRelease unready
  generalize collectZombies k = k1
  dsimp only
  generalize procByPid k1 pid = target
  cases target with
  | none => rfl
  | some p =>
    dsimp only
    split
    · rfl
    · rfl

lemma goes_killRelease (hJ : OfZombies (J a)) (hsems : s.sems) (k : Kernel) (p : Slot) :
    Goes (J a) s k (killRelease k p) ∧ Gentle k (killRelease k p) := by
  have h1 := semWrite_removeWaitersFor k p
  have h2 := calm_killForeground (ksemRemoveWaitersFor k p) p
  exact ⟨(h1.goes hJ hsems).trans (h2.goes hJ), (gentle_semWrite h1).trans (gentle_calm h2)⟩

/-- Burying a process that is marked `EXITED` already. -/
lemma goes_rebury (hJ : ZombieRule s J) (hkin : s.kin) (hn : ∀ q, s.noted q) {p : Slot}
    (ha : ∀ x, ¬a.dying x) (hu : (k.procs p).used) (hd : Dies s k p) (hw : WaitsOk s k)
    (he : (k.procs p).state = .exited) (hk : J (a.die p) k) :
    Steps s k (buryProc ((unready k p).modify p (exitMark 0 fun _ => false)) p) ∧
      J a (buryProc ((unready k p).modify p (exitMark 0 fun _ => false)) p) := by
  have hself : exitMark 0 (fun _ => false) (k.procs p) = { k.procs p with
      exitCode := 0, ticksLeft := 0, waitingFor := 0, pendingExitValid := false } := by
    simp [exitMark, he]
  have hun : unready k p = k := by
    unfold unready
    rw [if_neg (by simp [he])]
  rw [hun]
  have hst : Still k (k.modify p (exitMark 0 fun _ => false)) := by
    apply still_modify_exited k p _ he
    · rw [hself]
      rfl
    · exact .inr rfl
  have hz : SameZombies k (k.modify p (exitMark 0 fun _ => false)) := by
    apply sameZombies_modify
    · rw [hself]
    · rfl
  have hok : NotifyOk s (k.modify p (exitMark 0 fun _ => false)) p := by
    refine hw.imp id fun ⟨hz, hpid⟩ => ⟨fun q => ?_, ?_⟩
    · rw [Kernel.modify_procs]
      split
      · rfl
      · exact hz q
    · rw [Kernel.modify_procs_self]
      exact hpid p hu
  have hsh : ∀ x, Shrinks k (k.modify p (exitMark 0 fun _ => false)) x :=
    fun _ => shrinks_of_eq rfl rfl
  obtain ⟨h2, hJ2⟩ := goes_buryProc hJ hkin hn (hd.shrinks hsh).2 hok (fun x hx => absurd hx (ha x))
    (hJ.ofZombies _ _ _ hz hk)
  exact ⟨(Relation.ReflTransGen.single (.still hst)).trans h2, hJ2⟩

lemma gentle_current {k' : Kernel} (hg : Gentle k k')
    (hcur : ∀ c, k.current = some c → Executing k c) :
    ∀ c, k'.current = some c → Executing k' c := fun c hc =>
  hg.executing (hcur c (hg.current ▸ hc))

/-- The current process keeps running while zombies are reaped. -/
lemma reaping_current {k' : Kernel} (hs : Sound k) (h : Steps s.reaping k k')
    (hcur : ∀ c, k.current = some c → Executing k c) :
    ∀ c, k'.current = some c → k.current = some c ∧ Executing k' c := by
  intro c hc
  have hck := steps_current hs h hc
  exact ⟨hck, steps_executing hs h id (hcur c hck)⟩

/-- `proc_kill` of the current process is its exit. -/
lemma procKill_self (exec : Slot) {p : Slot} {pid : Int} (hx : Executing (collectZombies k) p)
    (hp : procByPid (collectZombies k) pid = some p) (hi : (collectZombies k).idleProc ≠ some p) :
    procKill k exec pid = procExit (killRelease (collectZombies k) p) exec 0 := by
  have h1 := gentle_semWrite (semWrite_removeWaitersFor (collectZombies k) p)
  have hx2 := (h1.trans (gentle_calm (calm_killForeground _ p))).executing hx
  rw [procKill_eq, hp]
  dsimp only
  rw [if_neg hi, killTail]
  exact if_pos ⟨by simp [killRelease, hx2.running], hx2.current⟩

/-- `proc_kill` of the current process ends in the scheduler. -/
theorem procKill_yields (exec : Slot) (hJ : ZombieRule s J) (hkin : s.kin) (hsems : s.sems)
    (hn : ∀ q, s.noted q) (hs : Sound k) {p : Slot} {pid : Int} (hx : Executing k p)
    (hp : procByPid (collectZombies k) pid = some p) (hi : k.idleProc ≠ some p)
    (hd : Dies s k p) (hw : WaitsOk s k) (hk : J a k) :
    ∃ k1, Steps s k k1 ∧ J a k1 ∧ procKill k exec pid = k1.yield ⟨exec, .hlt⟩ := by
  obtain ⟨h1, -⟩ := hJ.collect a k hk
  obtain ⟨h1', hk1⟩ := hJ.collects a k hk
  have hd1 := hd.shrinks (steps_shrinks id hs h1)
  have hx1 := steps_executing hs h1 id hx
  have hw1 := hw.reaping hs h1
  have hs1 := steps_sound hs h1
  have hi1 : (collectZombies k).idleProc ≠ some p := by
    rw [(steps_static hs h1).1]
    exact hi
  rw [procKill_self exec hx1 hp hi1]
  generalize collectZombies k = k1 at *
  obtain ⟨h2, hg⟩ := goes_killRelease (s := s) (hJ.ofZombies a) hsems k1 p
  obtain ⟨h2, hk2⟩ := h2 hk1
  obtain ⟨k2, h3, hk3, e⟩ := procExit_yields exec hJ hkin hsems hn (steps_sound hs1 h2)
    (hg.executing hx1) (by rw [hg.idle]; exact hi1) (hd1.shrinks hg.shrinks) (hw1.gentle hg) hk2 0
  exact ⟨k2, (h1'.trans h2).trans h3, hk3, e⟩

/-- `proc_kill` of a process that it may terminate with its children. -/
theorem ends_procKill (hJ : ZombieRule s J) (hkin : s.kin) (hsems : s.sems) (hn : ∀ q, s.noted q)
    (hs : Sound k) (hcur : ∀ c, k.current = some c → Executing k c) {pid : Int}
    (hd : ∀ p, procByPid (collectZombies k) pid = some p → k.idleProc ≠ some p → Dies s k p)
    (hw : WaitsOk s k) (ha : ∀ x, ¬a.dying x) (hk : J a k) :
    Ends (J a) s k exec (procKill k exec pid) := by
  obtain ⟨h1, -⟩ := hJ.collect a k hk
  have hclaim : ∀ p, ((collectZombies k).procs p).state = .exited →
      J (a.die p) (collectZombies k) := fun p hp => hJ.claim hk ha hp
  have hshr := steps_shrinks id hs h1
  have hcur1 := reaping_current hs h1 hcur
  have hw1 := hw.reaping hs h1
  have hs1 := steps_sound hs h1
  have hidle := (steps_static hs h1).1
  apply ends_goes (hJ.collects a k) hk
  intro hk1
  rw [procKill_eq]
  generalize collectZombies k = k1 at *
  split
  · exact .back .refl hk1 (by simp)
  · rename_i p hp
    obtain ⟨-, hu, -⟩ := procByPid_some hp
    split
    · exact .back .refl hk1 (by simp)
    · rename_i hi
      have hd1 : Dies s k1 p := (hd p hp (hidle ▸ hi)).shrinks hshr
      obtain ⟨-, hg⟩ := @goes_killRelease s J a (hJ.ofZombies a) hsems k1 p
      have hd2 := hd1.shrinks hg.shrinks
      have hw2 := hw1.gentle hg
      have hu2 : ((killRelease k1 p).procs p).used := by
        rw [(hg.procs p).used]
        exact hu
      by_cases he : (k1.procs p).state = .exited
      · obtain ⟨h2, hk2⟩ := (@goes_killRelease s J (a.die p) (hJ.ofZombies _) hsems k1 p).1
          (hclaim p he)
        have he2 : ((killRelease k1 p).procs p).state = .exited := (hg.procs p).state.trans he
        have hnc : ¬(((killRelease k1 p).procs p).state ≠ .ready ∧
            (killRelease k1 p).current = some p) := by
          rintro ⟨-, hc⟩
          have := (gentle_current hg (fun c hc => (hcur1 c hc).2) p hc).running
          rw [he2] at this
          cases this
        obtain ⟨h3, hk3⟩ := goes_rebury hJ hkin hn ha hu2 hd2 hw2 he2 hk2
        obtain ⟨h4, hk4⟩ := hJ.collects a _ hk3
        unfold killTail
        rw [if_neg hnc]
        exact .back ((h2.trans h3).trans h4) hk4 (by simp)
      · obtain ⟨h2, hk2⟩ := (@goes_killRelease s J a (hJ.ofZombies a) hsems k1 p).1 hk1
        have he2 : ((killRelease k1 p).procs p).state ≠ .exited := by
          rw [(hg.procs p).state]
          exact he
        have hs2 := steps_sound hs1 h2
        unfold killTail
        split
        · rename_i hc
          refine (ends_procExit hJ hkin hsems hn hs2
            (gentle_current hg fun c hc => (hcur1 c hc).2) (fun c hc' => ?_) hw2 hk2 0).prepend h2
          rw [hc.2, Option.some.injEq] at hc'
          exact hc' ▸ hd2
        · obtain ⟨h3, hk3⟩ := (goes_terminate (a := a) hJ hkin hn he2 hu2 hd2 hw2 0
            fun _ => false) hk2
          obtain ⟨h4, hk4⟩ := hJ.collects a _ hk3
          exact .back ((h2.trans h3).trans h4) hk4 (by simp)

/-- `consume_wait_result` changes the results kept for the parent. -/
lemma goes_consume (hJ : OfZombies (J a)) {parent : Slot} (hn : s.noted parent) (k : Kernel)
    (targetPid : Int) : Goes (J a) s k (consumeWaitResult k parent targetPid).1 := by
  unfold consumeWaitResult
  split
  · rename_i r _
    have h1 : Act s k (k.modify parent fun c => { c with waitRes := c.waitRes.erase r }) := by
      refine .note parent hn (off_modify k parent _ (.inl rfl)) ?_ ⟨rfl, rfl⟩ fun _ h => h
      rw [Kernel.modify_procs_self]
      rfl
    have hz : SameZombies k (k.modify parent fun c => { c with waitRes := c.waitRes.erase r }) :=
      sameZombies_modify _ _ _ .rfl rfl
    exact (Goes.act h1 (hJ _ _ hz)).trans ((calm_mmFree _ (by simp)).goes hJ)
  · split
    · have h1 : Act s k (k.modify parent fun c => { c with pendingExitValid := false }) := by
        refine .note parent hn (off_modify k parent _ (.inl rfl)) ?_ ⟨rfl, rfl⟩ fun _ h => h
        rw [Kernel.modify_procs_self]
        rfl
      have hz : SameZombies k (k.modify parent fun c => { c with pendingExitValid := false }) :=
        sameZombies_modify _ _ _ .rfl rfl
      exact .act h1 (hJ _ _ hz)
    · exact .refl _ s k

lemma gentle_modify (k : Kernel) (p : Slot) {f : Pcb → Pcb} (hf : ∀ c, SameSched c (f c))
    (hw : ∀ c, (f c).waitingFor = c.waitingFor) : Gentle k (k.modify p f) := by
  have h : ∀ x, SameSched (k.procs x) ((k.modify p f).procs x) ∧
      ((k.modify p f).procs x).waitingFor = (k.procs x).waitingFor := by
    intro x
    rw [Kernel.modify_procs]
    split
    · subst_vars
      exact ⟨hf _, hw _⟩
    · exact ⟨.refl _, rfl⟩
  exact ⟨fun x => (h x).1, fun x => .inl (h x).2, rfl, rfl, fun _ => shrinks_of_eq rfl rfl⟩

lemma gentle_consume (k : Kernel) (parent : Slot) (targetPid : Int) :
    Gentle k (consumeWaitResult k parent targetPid).1 := by
  unfold consumeWaitResult
  split
  · rename_i r _
    have h1 : Gentle k (k.modify parent fun c => { c with waitRes := c.waitRes.erase r }) :=
      gentle_modify k parent (fun _ => rfl) fun _ => rfl
    have h2 : Block.kind ⟨.waitResult, r.node⟩ ≠ .stack := by simp
    exact h1.trans (gentle_calm (calm_mmFree _ h2))
  · split
    · have h1 : Gentle k (k.modify parent fun c => { c with pendingExitValid := false }) :=
        gentle_modify k parent (fun _ => rfl) fun _ => rfl
      exact h1
    · exact gentle_calm (.refl k)

lemma ends_waitPending (hJ : OfZombies (J a)) {parent : Slot} (hn : s.noted parent) (hk : J a k)
    (targetPid : Int) : Ends (J a) s k exec (waitPending k parent targetPid) := by
  unfold waitPending
  split
  · have h1 : Act s k (k.modify parent fun c => { c with pendingExitValid := false }) := by
      refine .note parent hn (off_modify k parent _ (.inl rfl)) ?_ ⟨rfl, rfl⟩ fun _ h => h
      rw [Kernel.modify_procs_self]
      rfl
    have hz : SameZombies k (k.modify parent fun c => { c with pendingExitValid := false }) :=
      sameZombies_modify _ _ _ .rfl rfl
    exact ends_back (.act h1 (hJ _ _ hz)) hk (by simp)
  · exact .back .refl hk (by simp)

/-- `proc_wait`, up to its yield. -/
theorem ends_procWait (hJ : ZombieRule s J) (hn : ∀ q, s.noted q) (hk : J a k) (targetPid : Int) :
    Ends (J a) s k exec (procWait k exec targetPid) := by
  apply ends_goes (hJ.collects a k) hk
  intro hk1
  unfold procWait
  generalize collectZombies k = k1 at *
  dsimp only
  generalize (if targetPid = 0 then -1 else targetPid) = target
  split
  · exact .back .refl hk1 (by simp)
  · rename_i parent hp
    have h2 := goes_consume (hJ.ofZombies a) (hn parent) k1 target
    have hc := (gentle_consume k1 parent target).current.trans hp
    generalize consumeWaitResult k1 parent target = r at h2 hc
    obtain ⟨k2, waitedPid, status⟩ := r
    apply ends_goes h2 hk1
    intro hk2
    dsimp only
    split
    · exact .back .refl hk2 (by simp)
    · split
      · exact ends_waitPending (hJ.ofZombies a) (hn parent) hk2 target
      · rw [Kernel.blockAndYield, Kernel.modify_modify]
        exact .leave _ .refl hk2 (.blocks (fun _ => target) hc)

/-- `proc_wait` behind its yield. -/
theorem ends_procWaitResume (hJ : ZombieRule s J) (hn : ∀ q, s.noted q) (hk : J a k)
    (parent : Slot) (targetPid : Int) :
    Ends (J a) s k exec (procWaitResume k parent targetPid) := by
  apply ends_goes (hJ.collects a k) hk
  intro hk1
  unfold procWaitResume
  generalize collectZombies k = k1 at *
  have h2 := goes_consume (hJ.ofZombies a) (hn parent) k1 targetPid
  dsimp only
  generalize consumeWaitResult k1 parent targetPid = r at h2
  obtain ⟨k2, waitedPid, status⟩ := r
  have h3 : Calm k2 (k2.modify parent fun c => { c with waitingFor := 0 }) :=
    calm_modify k2 parent _ rfl (fun _ => SameResults.refl _) (.inr rfl) rfl
  apply ends_goes (h2.trans (h3.goes (hJ.ofZombies a))) hk1
  intro hk3
  dsimp only
  split
  · exact .back .refl hk3 (by simp)
  · exact ends_waitPending (hJ.ofZombies a) (hn parent) hk3 targetPid

end TP2Kernel.Proofs
