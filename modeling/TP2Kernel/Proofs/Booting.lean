import TP2Kernel.Proofs.Running

/-!
# The kernel that `main` starts

`sched_init` creates the idle process while no process is current, so it becomes current at
once; the shell is its child.
-/

namespace TP2Kernel.Proofs
open Function LinkedList

variable {k k' : Kernel} {idle : Slot}

/-- The static data is still zero, except for the files, the heap and the processes. -/
structure Blank (k : Kernel) : Prop where
  same : k = { kernelZero k.heap.fails with
    procs := k.procs, cleanupNext := k.cleanupNext, nextPid := k.nextPid, current := k.current
    idleProc := k.idleProc, heap := k.heap, files := k.files, tables := k.tables
    stdinFile := k.stdinFile, stdoutFile := k.stdoutFile, stderrFile := k.stderrFile }
  freed : k.heap.freed = []
  files : ∀ f, (k.files f).ptr = .tty

lemma blank_zero (fails : Nat → Bool) : Blank (kernelZero fails) := ⟨rfl, rfl, fun _ => rfl⟩

lemma Blank.zombieHead (h : Blank k) : k.zombieHead = none := (congrArg Kernel.zombieHead h.same :)

lemma Blank.links (h : Blank k) (p : Slot) :
    k.queueNext p = none ∧ k.childHead p = none ∧ k.siblingNext p = none := by
  rw [h.same]
  exact ⟨rfl, rfl, rfl⟩

lemma Blank.write (hb : Blank k)
    (h : k' = { k with
      procs := k'.procs, cleanupNext := k'.cleanupNext, nextPid := k'.nextPid
      current := k'.current, idleProc := k'.idleProc, heap := k'.heap, files := k'.files
      tables := k'.tables, stdinFile := k'.stdinFile, stdoutFile := k'.stdoutFile
      stderrFile := k'.stderrFile })
    (hfails : k'.heap.fails = k.heap.fails) (hfreed : k'.heap.freed = k.heap.freed)
    (hf : ∀ f, (k'.files f).ptr = .tty) : Blank k' := by
  refine ⟨?_, hfreed.trans hb.freed, hf⟩
  rw [h, hb.same]
  simp only [hfails]

/-- Files are created, and the standard files are set. -/
structure StdWrite (k k' : Kernel) : Prop where
  same : k' = { k with
    heap := k'.heap, files := k'.files, tables := k'.tables, stdinFile := k'.stdinFile
    stdoutFile := k'.stdoutFile, stderrFile := k'.stderrFile }
  next : k.heap.next ≤ k'.heap.next
  fails : k'.heap.fails = k.heap.fails
  freed : k'.heap.freed = k.heap.freed
  files : (∀ f, (k.files f).ptr = .tty) → ∀ f, (k'.files f).ptr = .tty

namespace StdWrite

lemma refl (k : Kernel) : StdWrite k k := ⟨rfl, le_rfl, rfl, rfl, id⟩

lemma trans {k'' : Kernel} (h : StdWrite k k') (h' : StdWrite k' k'') : StdWrite k k'' :=
  ⟨by rw [h'.same, h.same], h.next.trans h'.next, h'.fails.trans h.fails,
    h'.freed.trans h.freed, fun hf => h'.files (h.files hf)⟩

lemma procs (h : StdWrite k k') : k'.procs = k.procs := (congrArg Kernel.procs h.same :)

lemma blank (h : StdWrite k k') (hb : Blank k) : Blank k' := by
  apply hb.write _ h.fails h.freed (h.files hb.files)
  rw [h.same]

lemma modifyFile (k : Kernel) (f : Nat) (g : File → File)
    (hg : (g (k.files f)).ptr = (k.files f).ptr ∨ (g (k.files f)).ptr = .tty) :
    StdWrite k (k.modifyFile f g) := by
  refine ⟨rfl, le_rfl, rfl, rfl, fun hf x => ?_⟩
  simp only [Kernel.modifyFile, update_apply]
  split
  · rcases hg with e | e
    · exact e.trans (hf f)
    · exact e
  · exact hf x

lemma setEntry (k : Kernel) (t : Nat) (fd : Fin fdMax) (e : Option Nat) :
    StdWrite k (k.setEntry t fd e) := ⟨rfl, le_rfl, rfl, rfl, id⟩

lemma setStd (k : Kernel) (f g h : Option Nat) :
    StdWrite k { k with stdinFile := f, stdoutFile := g, stderrFile := h } :=
  ⟨rfl, le_rfl, rfl, rfl, id⟩

lemma fileCreate (k : Kernel) (rd wr : Bool) : StdWrite k (fileCreate k .tty rd wr).1 := by
  unfold TP2Kernel.fileCreate
  have h1 : StdWrite k k.mmMalloc.1 := ⟨rfl, Nat.le_succ _, rfl, rfl, id⟩
  split
  · rename_i k1 e
    rw [e] at h1
    exact h1
  · rename_i k1 f e
    rw [e] at h1
    dsimp only at h1 ⊢
    exact h1.trans (modifyFile k1 f _ (.inr rfl))

lemma attachStd (k : Kernel) (t : Nat) (file : Option Nat) (fd : Fin fdMax) :
    StdWrite k (attachStd k t file fd) := by
  unfold TP2Kernel.attachStd
  split
  · exact refl k
  · rename_i f
    have h1 : StdWrite k (fileRef k f) := modifyFile k f _ (.inl rfl)
    exact h1.trans (setEntry _ t fd _)

lemma fdTableAttachStd (k : Kernel) (t : Nat) : StdWrite k (fdTableAttachStd k t) :=
  ((attachStd k t _ _).trans (attachStd _ t _ _)).trans (attachStd _ t _ _)

/-- The guard of `stdin` where its file exists. -/
def guardStdin (r : Kernel × Option Nat) : Kernel :=
  match r.2 with
  | some f => r.1.modifyFile f fun c => { c with fgReadGuard := true }
  | none => r.1

lemma guardStdin_write {r : Kernel × Option Nat} (h : StdWrite k r.1) :
    StdWrite k (guardStdin r) := by
  unfold guardStdin
  split
  · exact h.trans (modifyFile r.1 _ _ (.inl rfl))
  · exact h

lemma fdInitStd_eq (k : Kernel) : fdInitStd k =
    let r1 := TP2Kernel.fileCreate k .tty true false
    let r2 := TP2Kernel.fileCreate { guardStdin r1 with stdinFile := r1.2 } .tty false true
    let r3 := TP2Kernel.fileCreate { r2.1 with stdoutFile := r2.2 } .tty false true
    { r3.1 with stderrFile := r3.2 } := rfl

lemma fdInitStd (k : Kernel) : StdWrite k (fdInitStd k) := by
  rw [fdInitStd_eq]
  have h1 := guardStdin_write (fileCreate k true false)
  generalize TP2Kernel.fileCreate k .tty true false = r1 at h1 ⊢
  have h2 := h1.trans (setStd (guardStdin r1) r1.2 (guardStdin r1).stdoutFile
    (guardStdin r1).stderrFile)
  have h3 := h2.trans (fileCreate _ false true)
  dsimp only at h3 ⊢
  generalize TP2Kernel.fileCreate { guardStdin r1 with stdinFile := r1.2 } .tty false true = r2
    at h3 ⊢
  have h4 := h3.trans (setStd r2.1 r2.1.stdinFile r2.2 r2.1.stderrFile)
  have h5 := h4.trans (fileCreate _ false true)
  generalize TP2Kernel.fileCreate { r2.1 with stdoutFile := r2.2 } .tty false true = r3 at h5 ⊢
  exact h5.trans (setStd r3.1 r3.1.stdinFile r3.1.stdoutFile r3.2)

end StdWrite

/-- The kernel behind `sched_init`: the idle process runs, and there is no other process. -/
structure Alone (k : Kernel) (idle : Slot) : Prop extends Blank k where
  others : ∀ p, p ≠ idle → k.procs p = Pcb.zero
  self : ∃ stack table, stack < k.heap.next ∧ k.procs idle =
    { Pcb.zero with
      pid := 1, name := idleName, state := .running, kframe := some ⟨idle, .trampoline⟩
      kstackBase := some stack, parentPid := -1, ticksLeft := timeSliceTicks, used := true
      pendingExitPid := -1, fdTable := some table }
  nextPid : k.nextPid = 2
  current : k.current = some idle
  idleProc : k.idleProc = some idle

lemma collectZombies_none (h : k.zombieHead = none) : collectZombies k = k := by
  unfold collectZombies collectZombiesWith
  rw [h, collectLoop_none, ← h]

/-- The process with a pid, where pids are distinct. -/
lemma procByPid_eq {p : Slot} (hu : (k.procs p).used) (hpos : 0 < (k.procs p).pid)
    (h : ∀ q, (k.procs q).used → (k.procs q).pid = (k.procs p).pid → q = p) :
    procByPid k (k.procs p).pid = some p := by
  unfold procByPid
  rw [if_neg (by omega)]
  cases hf : (List.finRange maxProcs).find? fun i =>
      (k.procs i).used && decide ((k.procs i).pid = (k.procs p).pid) with
  | none =>
    have := List.find?_eq_none.mp hf p (List.mem_finRange p)
    simp [hu] at this
  | some q =>
    have := List.find?_some hf
    simp only [Bool.and_eq_true, decide_eq_true_eq] at this
    rw [h q this.1 this.2]

lemma furnish_none (h : k.current = none) (p : Slot) (t : Nat) :
    furnish k p t = fdTableAttachStd (k.modify p fun c => { c with fdTable := some t }) t := by
  unfold furnish
  have hc : (k.modify p fun c => { c with fdTable := some t }).current = none := h
  dsimp only
  rw [hc]

lemma schedEnqueue_idleProc (k : Kernel) (p : Slot) :
    (schedEnqueue k p).idleProc = k.idleProc := by
  by_cases hon : k.schedulerEnabled = false ∧ k.current = none
  · unfold schedEnqueue
    rw [if_pos hon]
    rfl
  · exact (congrArg Kernel.idleProc (schedEnqueue_write p hon) :)

/-- Creating a process while none is current leaves the idle process as it is. -/
lemma createTail_idleProc (hc : k.current = none) (prio : Int) (fg : Bool) (name : CStr) :
    (createTail k prio fg name).1.idleProc = k.idleProc := by
  rcases createTail_cases k (fun i _ => by simp [hc]) prio fg name with
    e | ⟨i, -, ⟨k1, e, hg⟩ | ⟨k1, t, stack, e, hp⟩⟩
  · rw [e]
  · rw [e]
    exact (congrArg Kernel.idleProc hg.write.same :)
  · have hw := hp.drafted.write
    have hc1 : k1.current = none := (congrArg Kernel.current hw.same :).trans hc
    have hi1 : k1.idleProc = k.idleProc := (congrArg Kernel.idleProc hw.same :)
    have hf : (furnish k1 i t).idleProc = k1.idleProc := by
      rw [furnish_none hc1]
      exact (congrArg Kernel.idleProc (StdWrite.fdTableAttachStd _ t).same :)
    rw [e, installProc_eq]
    dsimp only
    rw [← hi1, ← hf, ← schedEnqueue_idleProc (furnish k1 i t) i]
    split
    · rfl
    · rfl

/-- A slot that was set up in a blank kernel. -/
lemma Drafted.blank {i : Slot} {c : Pcb} (hb : Blank k) (h : Drafted k k' i c)
    (hfreed : k'.heap.freed = k.heap.freed) : Blank k' := by
  have hw := h.write
  have hq : k'.queueNext = k.queueNext := by
    funext q
    by_cases hqi : q = i
    · rw [hqi, h.cleared.1, (hb.links i).1]
    · have := congrFun hw.queue q
      rwa [update_of_ne hqi, update_of_ne hqi] at this
  have hch : k'.childHead = k.childHead := by
    funext q
    by_cases hqi : q = i
    · rw [hqi, h.cleared.2.1, (hb.links i).2.1]
    · exact (hw.links q hqi).1
  have hsb : k'.siblingNext = k.siblingNext := by
    funext q
    by_cases hqi : q = i
    · rw [hqi, h.cleared.2.2, (hb.links i).2.2]
    · exact (hw.links q hqi).2
  have hfiles : k'.files = k.files := (congrArg Kernel.files hw.same :)
  apply hb.write _ hw.fails hfreed fun f => by rw [hfiles]; exact hb.files f
  have := hw.same
  rw [hq, hch, hsb] at this
  rw [this]

/-- `sched_init`: the idle process is the only one, unless it could not be created. -/
lemma schedInit_cases (hb : Blank k) (hp : ∀ p, k.procs p = Pcb.zero) (hn : k.nextPid = 1) :
    ((schedInit k).idleProc = none ∧ (schedInit k).current = none ∧
      (schedInit k).zombieHead = none) ∨ ∃ idle, Alone (schedInit k) idle := by
  obtain ⟨k0, hk0⟩ : ∃ k0 : Kernel, k0 = { k with
    readyHead := fun _ => none, readyTail := fun _ => none
    schedulerEnabled := false, current := none, idleProc := none } := ⟨_, rfl⟩
  have hb0 : Blank k0 := by
    refine ⟨?_, by rw [hk0]; exact hb.freed, by rw [hk0]; exact hb.files⟩
    rw [hk0, hb.same]
    rfl
  have hp0 : ∀ p, k0.procs p = Pcb.zero := by
    rw [hk0]
    exact hp
  have hc0 : k0.current = none := by rw [hk0]
  have hi0 : k0.idleProc = none := by rw [hk0]
  have hn0 : k0.nextPid = 1 := by rw [hk0]; exact hn
  unfold schedInit
  dsimp only
  rw [← hk0, procCreate_some, collectZombies_none hb0.zombieHead]
  rcases createTail_cases k0 (fun i _ => by simp [hc0]) (clampPrio minPrio) false idleName with
    e | ⟨i, -, ⟨k1, e, hg⟩ | ⟨k1, t, stack, e, hpr⟩⟩
  · rw [e]
    exact .inl ⟨hi0, hc0, hb0.zombieHead⟩
  · rw [e]
    have hs := hg.write.same
    exact .inl ⟨(congrArg Kernel.idleProc hs :).trans hi0, (congrArg Kernel.current hs :).trans hc0,
      hg.write.sameZombies_head.trans hb0.zombieHead⟩
  · right
    rw [e]
    have hpcb := hpr.drafted.pcb
    have hw := hpr.drafted.write
    have hc1 : k1.current = none := (congrArg Kernel.current hw.same :).trans hc0
    have hb1 := hpr.drafted.blank hb0 hpr.freed
    have hstd := StdWrite.fdTableAttachStd (k1.modify i fun c => { c with fdTable := some t }) t
    have hbf := hstd.blank (hb1.write rfl rfl rfl hb1.files)
    rw [installProc_eq, furnish_none hc1]
    generalize fdTableAttachStd (k1.modify i fun c => { c with fdTable := some t }) t = kf at *
    have hpn : newPcb k0 i (clampPrio minPrio) false idleName stack = { Pcb.zero with
        pid := 1, name := idleName, kframe := some ⟨i, .trampoline⟩, kstackBase := some stack
        parentPid := -1, ticksLeft := timeSliceTicks, used := true, pendingExitPid := -1 } := by
      unfold newPcb claimedPcb newParent
      rw [hc0, hn0]
      rfl
    have hself : kf.procs i = { Pcb.zero with
        pid := 1, name := idleName, kframe := some ⟨i, .trampoline⟩, kstackBase := some stack
        parentPid := -1, ticksLeft := timeSliceTicks, used := true, pendingExitPid := -1
        fdTable := some t } := by
      rw [hstd.procs, Kernel.modify_procs_self, hpcb, hpn]
    have hothers : ∀ p, p ≠ i → kf.procs p = Pcb.zero := by
      intro p hpi
      rw [hstd.procs, Kernel.modify_procs_of_ne _ _ hpi, hw.procs p hpi, hp0]
    have hcf : kf.current = none := (congrArg Kernel.current hstd.same :).trans hc1
    have hef : kf.schedulerEnabled = false := (congrArg Kernel.schedulerEnabled hbf.same :)
    have hnf : kf.nextPid = 2 := by
      rw [show kf.nextPid = k1.nextPid from (congrArg Kernel.nextPid hstd.same :),
        hpr.drafted.bump, hn0]
      rfl
    have hen : schedEnqueue kf i = { kf.modify i fun c =>
        { c with state := .running, ticksLeft := timeSliceTicks } with current := some i } := by
      unfold schedEnqueue
      rw [if_pos ⟨hef, hcf⟩]
    have hne : (0 : Int) ≤ ((schedEnqueue kf i).procs i).pid := by
      rw [hen]
      simp [hself]
    have hpid : procByPid (schedEnqueue kf i) ((schedEnqueue kf i).procs i).pid = some i := by
      apply procByPid_eq
      · rw [hen]
        simp [hself]
      · rw [hen]
        simp [hself]
      · intro q hq _
        by_contra hqi
        rw [hen] at hq
        dsimp only at hq
        rw [Kernel.modify_procs_of_ne _ _ hqi, hothers q hqi] at hq
        cases hq
    dsimp only
    rw [if_neg Bool.false_ne_true, if_pos hne, hpid]
    dsimp only
    obtain ⟨k3, hk3⟩ : ∃ k3 : Kernel, k3 = ({ schedEnqueue kf i with idleProc := some i } :
      Kernel).modify i fun c => { c with fg := false } := ⟨_, rfl⟩
    rw [← hk3]
    have hself3 : k3.procs i = { Pcb.zero with
        pid := 1, name := idleName, kframe := some ⟨i, .trampoline⟩, kstackBase := some stack
        parentPid := -1, ticksLeft := timeSliceTicks, used := true, pendingExitPid := -1
        fdTable := some t, state := .running } := by
      rw [hk3, hen]
      simp [Kernel.modify, hself, Pcb.zero]
    have hothers3 : ∀ p, p ≠ i → k3.procs p = Pcb.zero := by
      intro p hpi
      rw [hk3, hen]
      simp [Kernel.modify, hpi, hothers p hpi]
    have hb3 : Blank k3 := by
      rw [hk3, hen]
      exact hbf.write rfl rfl rfl hbf.files
    have hn3 : k3.nextPid = 2 := by
      rw [hk3, hen]
      exact hnf
    have hi3 : k3.idleProc = some i := by
      rw [hk3]
      rfl
    have hheap3 : k3.heap.next = kf.heap.next := by
      rw [hk3, hen]
      rfl
    have hc3 : k3.current = some i := by
      rw [hk3, hen]
      rfl
    have hrem : schedRemove k3 i = { k3 with current := none } := by
      unfold schedRemove
      dsimp only
      rw [if_pos hc3, if_neg (by simp [hself3])]
    rw [hrem]
    refine ⟨i, hb3.write rfl rfl rfl hb3.files, fun p hpi => ?_, ⟨stack, t, ?_, ?_⟩, hn3, rfl, hi3⟩
    · rw [← hothers3 p hpi]
      simp [Kernel.modify, hpi]
    · have hlt : stack < kf.heap.next := hpr.high.trans_le hstd.next
      rw [← hheap3] at hlt
      exact hlt
    · simp [Kernel.modify, hself3]

/-- The idle process alone is a consistent process table. -/
lemma Alone.sane (h : Alone k idle) : Sane k idle ∧ Executing k idle := by
  obtain ⟨stack, table, hlt, hself⟩ := h.self
  have hlive : ∀ p, (k.procs p).used → p = idle := by
    intro p hu
    by_contra hp
    rw [h.others p hp] at hu
    cases hu
  have hrun : (k.procs idle).state = .running := by rw [hself]
  have hused : (k.procs idle).used := by rw [hself]
  have hfree : ∀ b, ¬StackFreed k b := by
    intro b hb
    unfold StackFreed at hb
    rw [h.freed] at hb
    cases hb
  have hstack : ∀ p b, (k.procs p).kstackBase = some b → p = idle ∧ b = stack := by
    intro p b hb
    by_cases hp : p = idle
    · rw [hp, hself] at hb
      exact ⟨hp, (Option.some.inj hb).symm⟩
    · rw [h.others p hp] at hb
      cases hb
  have hcons : Consistent k := by
    refine ⟨fun _ => [], ⟨fun l => ?_, fun _ _ _ p hp => absurd hp List.not_mem_nil⟩, fun p => ?_,
      fun _ p hp => absurd hp List.not_mem_nil, fun _ _ _ => List.not_mem_nil, fun p hu => ?_,
      fun _ p hp => absurd hp List.not_mem_nil⟩
    · rw [show k.readyHead = fun _ => none from (congrArg Kernel.readyHead h.same :),
        show k.readyTail = fun _ => none from (congrArg Kernel.readyTail h.same :)]
      exact ⟨rfl, rfl⟩
    · simp only [List.not_mem_nil, exists_false, not_false_eq_true, true_and, false_iff]
      rintro ⟨hu, hr⟩
      rw [hlive p hu, hrun] at hr
      cases hr
    · have h0 : PrioInRange 0 := ⟨le_rfl, by decide⟩
      rw [hlive p hu, hself]
      exact ⟨h0, h0⟩
  have hx : Executing k idle := ⟨h.current, hused, hrun⟩
  refine ⟨⟨⟨hcons, fun p hp => ?_, fun i hi => ?_, .inr ⟨idle, h.current, .inl ⟨hused, hrun⟩⟩⟩,
    ⟨fun p b hb => ?_, fun p q b hp hq => ?_, fun b hb => absurd hb (hfree b)⟩, h.idleProc, hused,
    hrun, ?_, fun p f hp hf => ?_⟩, hx⟩
  · rw [hlive p hp.1, hself]
    simp
  · rw [h.idleProc, Option.some.injEq] at hi
    rw [← hi, hrun]
    simp
  · rw [(hstack p b hb).2]
    exact ⟨hlt, hfree _⟩
  · rw [(hstack p b hp).1, (hstack q b hq).1]
  · rintro ⟨p, hp⟩
    rw [(h.links p).2.1, (h.links p).2.2] at hp
    rcases hp with hp | hp <;> cases hp
  · rw [hlive p hp.1, hself] at hf
    rw [hlive p hp.1, ← Option.some.inj hf]

/-- Creating the shell from the idle process. -/
lemma Alone.create (h : Alone k idle) {prio : Int} (hprio : PrioInRange prio) (fg : Bool)
    (name : CStr) : Steps (sparing idle none False) k (createTail k prio fg name).1 ∧
      SameHeads k (createTail k prio fg name).1 := by
  obtain ⟨-, hx⟩ := h.sane
  refine createTail_steps trivial trivial hprio (fun i hu => ⟨fun hc => ?_, fun hi => ?_⟩) fg name
  · rw [h.current, Option.some.injEq] at hc
    rw [← hc, hx.used] at hu
    cases hu
  · rw [h.idleProc, Option.some.injEq] at hi
    rw [← hi, hx.used] at hu
    cases hu

lemma bootKernel_eq (fails : Nat → Bool) : bootKernel fails = schedStart
    (procCreate (schedInit (fdInitStd (kernelZero fails))) (some 0) defaultPrio true
      (some shellName)).1 := by
  unfold bootKernel
  dsimp only

/-- The kernel that `main` starts, as one more creation behind `sched_init`. -/
lemma bootKernel_cases {fails : Nat → Bool} (hi : (bootKernel fails).idleProc = some idle) :
    ∃ k0, Alone k0 idle ∧
      bootKernel fails = schedStart (createTail k0 (clampPrio defaultPrio) true shellName).1 := by
  have hw := StdWrite.fdInitStd (kernelZero fails)
  have hb := hw.blank (blank_zero fails)
  rw [bootKernel_eq] at hi ⊢
  generalize fdInitStd (kernelZero fails) = k at *
  have hp : ∀ p, k.procs p = Pcb.zero := by
    rw [hw.procs]
    intro p
    rfl
  have hcreate : ∀ k1 : Kernel, k1.zombieHead = none →
      procCreate k1 (some 0) defaultPrio true (some shellName) =
        createTail k1 (clampPrio defaultPrio) true shellName := by
    intro k1 hz
    rw [procCreate_some, collectZombies_none hz]
  rcases schedInit_cases hb hp (congrArg Kernel.nextPid hw.same :) with ⟨h1, h2, h3⟩ | ⟨i, ha⟩
  · rw [hcreate _ h3] at hi
    have := createTail_idleProc h2 (clampPrio defaultPrio) true shellName
    rw [h1] at this
    rw [show (schedStart (createTail (schedInit k) (clampPrio defaultPrio) true shellName).1).idleProc
      = (createTail (schedInit k) (clampPrio defaultPrio) true shellName).1.idleProc from rfl,
      this] at hi
    cases hi
  · have he := hcreate _ ha.zombieHead
    rw [he] at hi ⊢
    obtain ⟨h1, -⟩ := ha.create (clampPrio_inRange defaultPrio) true shellName
    have hidle := (steps_static ha.sane.1.sound h1).1
    rw [ha.idleProc] at hidle
    have hii : i = idle := Option.some.inj (hidle.symm.trans hi)
    exact ⟨schedInit k, hii ▸ ha, rfl⟩

/-- `sched_start` changes nothing that the processes see. -/
lemma Sane.start (h : Sane k idle) : Sane (schedStart k) idle := by
  have hst : Stacks (schedStart k) := stacks_of_same h.apart (fun _ => rfl) le_rfl fun _ => .inl
  obtain ⟨q, hq⟩ := h.sound.consistent
  have hcons : Consistent (schedStart k) := ⟨q, hq.of_eq rfl rfl rfl rfl rfl⟩
  exact ⟨⟨hcons, h.sound.frame, h.sound.idle, .inl rfl⟩, hst, h.idleProc, h.idleUsed,
    h.idleRunning, h.unlinked, h.owner⟩

/-- A booted system. -/
theorem boot_kept {σ : System} (h : Boot σ) :
    ∃ idle, Kept σ idle ∧ σ.k.current = some idle ∧ σ.k.bailouts = 0 := by
  obtain ⟨fails, idle, hk, hi, hcpu⟩ := h
  rw [hk] at hi
  obtain ⟨k0, ha, e⟩ := bootKernel_cases hi
  obtain ⟨hs, hx⟩ := ha.sane
  obtain ⟨h1, hz, -⟩ := ha.create (clampPrio_inRange defaultPrio) true shellName
  have hti : ¬(sparing idle none False).terminated idle := fun ht => ht.1 rfl
  have hs1 := steps_sane hs h1 hti
  have hx1 := steps_executing hs.sound h1 hti hx
  have hself := (steps_self hs.sound h1 hti (.inl hx)).1.1
  rw [← hk] at e
  generalize (createTail k0 (clampPrio defaultPrio) true shellName).1 = k1 at *
  have hfr : (k1.procs idle).kframe = some ⟨idle, .trampoline⟩ := by
    obtain ⟨stack, table, -, hpcb⟩ := ha.self
    rw [hself.2.2.1, hpcb]
  have hexec : σ.exec = idle := by
    unfold System.exec
    rw [hcpu]
  refine ⟨idle, ⟨?_, ?_, fun c hc => ?_, ?_, fun f hf => ?_, fun _ => ?_⟩, ?_, ?_⟩
  · rw [e]
    exact hs1.start
  · rw [e]
    rfl
  · rw [e] at hc ⊢
    have hci : c = idle := Option.some.inj (hc.symm.trans hx1.current)
    rw [hci, hexec]
    exact ⟨rfl, hx1.current, hx1.used, hx1.running⟩
  · rw [e]
    refine ⟨[], ⟨?_, fun p hp => absurd hp List.not_mem_nil⟩, fun p hp => absurd hp List.not_mem_nil⟩
    exact hz.trans ha.zombieHead
  · rw [e] at hf
    rw [← Option.some.inj (hfr.symm.trans hf)]
    rfl
  · rw [hcpu]
    rfl
  · rw [e]
    exact hx1.current
  · rw [e]
    exact (steps_static hs.sound h1).2.2.trans (congrArg Kernel.bailouts ha.same :)

/-- Every state of a run in which nobody kills the parent of the executing process. -/
theorem reach_kept {σ : System} (h : Transition.Reach Boot System.step SparesCaller σ) :
    ∃ idle, Kept σ idle := by
  apply h.invariant
  · intro σ hb
    obtain ⟨idle, hk, -⟩ := boot_kept hb
    exact ⟨idle, hk⟩
  · rintro σ e σ' ⟨idle, hk⟩ hsp hs
    exact ⟨idle, (step_kept hk hsp hs).1⟩

end TP2Kernel.Proofs
