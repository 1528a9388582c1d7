import TP2Kernel.Runs
import TP2Kernel.Proofs.Calls
import TP2Kernel.Proofs.Consistency

/-!
# The running system

What holds of the system between two events. A call of the executing process ends in a
sequence of actions that spares it, or in the scheduler, which starts a process on its own
stack.
-/

namespace TP2Kernel.Proofs
open Function LinkedList

variable {s : Scope} {k k' : Kernel} {idle : Slot}

/-- The current or the idle process keeps its stack, its saved frame and its priority. -/
lemma steps_self {x : Slot} (hs : Sound k) (h : Steps s k k') (ht : ¬s.terminated x)
    (hx : Executing k x ∨ (k.idleProc = some x ∧ (k.procs x).used ∧ (k.procs x).state = .running)) :
    (SameSelf (k.procs x) (k'.procs x) ∧
      (¬s.moved x → SameRank (k.procs x) (k'.procs x))) ∧
      (Executing k' x ∨ (k'.idleProc = some x ∧ (k'.procs x).used ∧
        (k'.procs x).state = .running)) := by
  induction h with
  | refl => exact ⟨⟨.refl _, fun _ => .refl _⟩, hx⟩
  | tail h' ha ih =>
    rename_i k1 k2
    obtain ⟨⟨hself, hrank⟩, hx1⟩ := ih
    have hs1 := steps_sound hs h'
    have hur : (k1.procs x).used ∧ (k1.procs x).state = .running := by
      rcases hx1 with h1 | h1
      · exact ⟨h1.used, h1.running⟩
      · exact h1.2
    have hci : k1.current = some x ∨ k1.idleProc = some x :=
      hx1.imp (fun h => h.current) fun h => h.1
    have hf := act_fate hs1 ha x
    refine ⟨?_, ?_⟩
    · cases hf with
      | same hp _ hr => exact ⟨hself.trans hp, fun hm => (hrank hm).trans (hr.resolve_left hm)⟩
      | woken _ _ _ hb => simp [hur.2] at hb
      | retired _ h => exact absurd h ht
      | reaped he => simp [hur.2] at he
      | drafted _ hu => simp [hur.1] at hu
      | entered _ _ hn => simp [hur.2] at hn
      | suspended _ hi hc => exact absurd hci (not_or.mpr ⟨hc, hi⟩)
    · rcases hx1 with h1 | h1
      · exact .inl (act_executing hs1 ha ht h1)
      · refine .inr ⟨(act_static hs1 ha).1.trans h1.1, ?_⟩
        exact fate_running hf hci ht hur.1 hur.2

/-- The current process stays the current one, even when it is terminated. -/
lemma steps_sameCurrent (hs : Sound k) (h : Steps s k k') (hc : CurrentOff k) :
    k'.current = k.current := by
  induction h with
  | refl => rfl
  | tail h' ha ih =>
    rcases act_current (steps_sound hs h') ha with e | ⟨-, p, hp, hr⟩
    · exact e.trans ih
    · have := steps_currentOff hs h' hc p hp
      simp [hr] at this

/-- The zombie list holds terminated processes that can be reaped. -/
def Reapables (k : Kernel) : Prop :=
  ∃ zl, Zombies k zl ∧ ∀ p ∈ zl, reapable (k.procs p) = true

lemma Reapables.listed (h : Reapables k) (hw : ∀ p, s.woken p) : Listed s .idle k := by
  obtain ⟨zl, hz, hr⟩ := h
  exact ⟨⟨fun _ h => h.elim, fun _ h => h.elim, .inr hw⟩, zl, hz, hr, fun _ h => h.elim⟩

lemma Listed.reapables {a : Agenda} (h : Listed s a k) : Reapables k := by
  obtain ⟨-, zl, hz, hr, -⟩ := h
  exact ⟨zl, hz, hr⟩

/-- The state of the system between two events. -/
structure Kept (σ : System) (idle : Slot) : Prop where
  sane : Sane σ.k idle
  enabled : σ.k.schedulerEnabled = true
  current : ∀ c, σ.k.current = some c → c = σ.exec ∧ Executing σ.k c
  zombies : Reapables σ.k
  idleFrame : ∀ f, (σ.k.procs idle).kframe = some f → f.pc.interruptible
  idleCpu : σ.exec = idle → σ.cpu.pc.interruptible

lemma Sane.idleLive (h : Sane k idle) : Live k idle := ⟨h.idleUsed, by simp [h.idleRunning]⟩

/-- Whoever the scheduler selects was running, or waits on a ready queue. -/
lemma Switched.chosen_live {rsp : Frame} {f : Option Frame} {cur next : Slot} (h : Sane k idle)
    (hs : Switched k k' rsp f cur next) : Live k next := by
  rcases hs.chosen with hi | ⟨hu, hr | ⟨e, hr⟩⟩
  · rw [h.idleProc, Option.some.injEq] at hi
    exact hi ▸ h.idleLive
  · exact ⟨hu, by simp [hr]⟩
  · exact ⟨hu, by simp [e, hr]⟩

lemma Switched.live {rsp : Frame} {f : Option Frame} {cur next p : Slot} (h : Sane k idle)
    (hs : Switched k k' rsp f cur next) (hp : Live k' p) : Live k p := by
  have hu : (k'.procs p).used = (k.procs p).used := by
    rw [hs.procs p]
  by_cases hn : p = next
  · rw [hn]
    exact hs.chosen_live h
  · refine ⟨hu ▸ hp.1, fun he => hp.2 ?_⟩
    rw [hs.state, if_neg hn, if_neg, he]
    rintro ⟨rfl, hr, -⟩
    simp [hr] at he

lemma Switched.exited {rsp : Frame} {f : Option Frame} {cur next p : Slot} (h : Sane k idle)
    (hs : Switched k k' rsp f cur next) (hp : (k.procs p).state = .exited) :
    (k'.procs p).state = .exited := by
  rw [hs.state, if_neg, if_neg, hp]
  · rintro ⟨rfl, hr, -⟩
    simp [hr] at hp
  · rintro rfl
    exact (hs.chosen_live h).2 hp

lemma Switched.sane {rsp : Frame} {f : Option Frame} {cur next : Slot} (h : Sane k idle)
    (he : k.schedulerEnabled = true) (hs : Switched k k' rsp f cur next) (ho : rsp.owner = cur) :
    Sane k' idle := by
  have hidle : k'.idleProc = k.idleProc := (congrArg Kernel.idleProc hs.write :)
  have hheap : k'.heap = k.heap := (congrArg Kernel.heap hs.write :)
  have hen : k'.schedulerEnabled = true := (congrArg Kernel.schedulerEnabled hs.write :).trans he
  have hirun : (k'.procs idle).state = .running := by
    rw [hs.state]
    split
    · rfl
    · rw [if_neg, h.idleRunning]
      rintro ⟨rfl, -, hne⟩
      exact hne h.idleProc
  refine ⟨⟨hs.consistent, fun p hp => ?_, fun i hi => ?_, .inl hen⟩, ?_, hidle.trans h.idleProc, ?_,
    hirun, fun hl => h.unlinked ?_, fun p g hp hg => ?_⟩
  · rw [hs.kframe]
    split
    · simp
    · exact h.sound.frame p (hs.live h hp)
  · rw [hidle, h.idleProc, Option.some.injEq] at hi
    rw [← hi, hirun]
    simp
  · refine stacks_of_same h.apart (fun p => ?_) (by rw [hheap]) fun b hb => .inl ?_
    · rw [hs.procs p]
    · unfold StackFreed at hb ⊢
      rwa [hheap] at hb
  · rw [hs.procs idle]
    exact h.idleUsed
  · obtain ⟨p, hp⟩ := hl
    have hc : k'.childHead = k.childHead := (congrArg Kernel.childHead hs.write :)
    have hn : k'.siblingNext = k.siblingNext := (congrArg Kernel.siblingNext hs.write :)
    rw [hc, hn] at hp
    exact ⟨p, hp⟩
  · rw [hs.kframe] at hg
    split at hg
    · rename_i hpc
      rw [← Option.some.inj hg, ho, hpc]
    · exact h.owner p g (hs.live h hp) hg

lemma Switched.executing {rsp : Frame} {f : Option Frame} {cur next : Slot} (h : Sane k idle)
    (hs : Switched k k' rsp f cur next) : Executing k' next := by
  refine ⟨hs.current, ?_, ?_⟩
  · rw [hs.procs next]
    exact (hs.chosen_live h).1
  · rw [hs.state, if_pos rfl]

lemma Switched.reapables {rsp : Frame} {f : Option Frame} {cur next : Slot} (h : Sane k idle)
    (hs : Switched k k' rsp f cur next) (hz : Reapables k) : Reapables k' := by
  obtain ⟨zl, hzl, hr⟩ := hz
  refine ⟨zl, ⟨?_, fun p hp => hs.exited h (hzl.exited p hp)⟩, fun p hp => ?_⟩
  · rw [show k'.cleanupNext = k.cleanupNext from (congrArg Kernel.cleanupNext hs.write :),
      show k'.zombieHead = k.zombieHead from (congrArg Kernel.zombieHead hs.write :)]
    exact hzl.chain
  · rw [reapable, hs.procs p]
    exact hr p hp

/-- The scheduler starts a process at its saved frame. -/
lemma Switched.kept {rsp : Frame} {f : Option Frame} {cur next : Slot} (h : Sane k idle)
    (he : k.schedulerEnabled = true) (hz : Reapables k)
    (hf : ∀ g, (k.procs idle).kframe = some g → g.pc.interruptible)
    (hs : Switched k k' rsp f cur next) (ho : rsp.owner = cur)
    (hrsp : cur = idle → rsp.pc.interruptible) (d : Frame) : Kept ⟨k', f.getD d⟩ idle := by
  have hsane := hs.sane h he ho
  have hx := hs.executing h
  have hl : Live k' next := ⟨hx.used, by simp [hx.running]⟩
  have hfi : ∀ g, (k'.procs idle).kframe = some g → g.pc.interruptible := by
    intro g hg
    rw [hs.kframe] at hg
    split at hg
    · rename_i hi
      rw [← Option.some.inj hg]
      exact hrsp hi.symm
    · exact hf g hg
  obtain ⟨g, hg⟩ := Option.ne_none_iff_exists'.mp hs.frame_ne
  have hgf : (k'.procs next).kframe = some g := hs.frame.symm.trans hg
  have hown : g.owner = next := hsane.owner next g hl hgf
  rw [hg]
  refine ⟨hsane, ?_, fun c hc => ?_, hs.reapables h hz, hfi, fun hi => ?_⟩
  · exact (congrArg Kernel.schedulerEnabled hs.write :).trans he
  · have hcn : c = next := (Option.some.inj (hs.current.symm.trans hc)).symm
    rw [hcn]
    exact ⟨hown.symm, hx⟩
  · rw [show next = idle from hown.symm.trans hi] at hgf
    exact hfi g hgf

/-- A live process gets another state or another saved frame. -/
lemma Sane.write {p : Slot} (h : Sane k idle) (he : k.schedulerEnabled = true)
    (hw : SelectWrite k k') (hc : Consistent k') (hne : ∀ x, x ≠ p → k'.procs x = k.procs x)
    (hl : (k.procs p).state ≠ .exited)
    (hu : (k'.procs p).used = (k.procs p).used ∧ (k'.procs p).kstackBase = (k.procs p).kstackBase)
    (hf : (k'.procs p).kframe = (k.procs p).kframe ∨
      ∃ g, (k'.procs p).kframe = some g ∧ g.owner = p)
    (hi : p = idle → (k'.procs p).state = .running) : Sane k' idle := by
  have hirun : (k'.procs idle).state = .running := by
    by_cases hx : idle = p
    · exact hx ▸ hi hx.symm
    · rw [hne idle hx]
      exact h.idleRunning
  have hused : ∀ x, (k'.procs x).used = (k.procs x).used := by
    intro x
    by_cases hx : x = p
    · exact hx ▸ hu.1
    · rw [hne x hx]
  have hlive : ∀ x, Live k' x → Live k x := by
    rintro x ⟨hxu, hxe⟩
    refine ⟨hused x ▸ hxu, ?_⟩
    by_cases hx : x = p
    · exact hx ▸ hl
    · rw [← hne x hx]
      exact hxe
  have hidle : k'.idleProc = k.idleProc := (congrArg Kernel.idleProc hw :)
  have hheap : k'.heap = k.heap := (congrArg Kernel.heap hw :)
  have hen : k'.schedulerEnabled = true := (congrArg Kernel.schedulerEnabled hw :).trans he
  refine ⟨⟨hc, fun x hx => ?_, fun i hi' => ?_, .inl hen⟩, ?_, hidle.trans h.idleProc,
    (hused idle).trans h.idleUsed, hirun, ?_, fun x g hx hg => ?_⟩
  · have hkx := h.sound.frame x (hlive x hx)
    by_cases hxp : x = p
    · subst hxp
      rcases hf with e | ⟨g, e, -⟩
      · exact e ▸ hkx
      · simp [e]
    · rw [hne x hxp]
      exact hkx
  · have hii : i = idle := Option.some.inj (hi'.symm.trans (hidle.trans h.idleProc))
    rw [hii, hirun]
    simp
  · refine stacks_of_same h.apart (fun x => ?_) (by rw [hheap]) fun b hb => .inl ?_
    · by_cases hxp : x = p
      · exact hxp ▸ hu.2
      · rw [hne x hxp]
    · unfold StackFreed at hb ⊢
      exact hheap ▸ hb
  · rintro ⟨x, hx⟩
    rw [show k'.childHead = k.childHead from (congrArg Kernel.childHead hw :),
      show k'.siblingNext = k.siblingNext from (congrArg Kernel.siblingNext hw :)] at hx
    exact h.unlinked ⟨x, hx⟩
  · have hkx := h.owner x g (hlive x hx)
    by_cases hxp : x = p
    · subst hxp
      rcases hf with e | ⟨g', e, ho⟩
      · exact hkx (e ▸ hg)
      · rw [← Option.some.inj (e.symm.trans hg)]
        exact ho
    · exact hkx (hne x hxp ▸ hg)

/-- The zombie list does not see a write that leaves terminated processes alone. -/
lemma Reapables.write {p : Slot} (h : Reapables k) (hw : SelectWrite k k')
    (hne : ∀ x, x ≠ p → k'.procs x = k.procs x) (hp : (k.procs p).state ≠ .exited) :
    Reapables k' := by
  obtain ⟨zl, hz, hr⟩ := h
  have hzne : ∀ x ∈ zl, x ≠ p := fun x hx he => hp (he ▸ hz.exited x hx)
  refine ⟨zl, ⟨?_, fun x hx => ?_⟩, fun x hx => ?_⟩
  · rw [show k'.cleanupNext = k.cleanupNext from (congrArg Kernel.cleanupNext hw :),
      show k'.zombieHead = k.zombieHead from (congrArg Kernel.zombieHead hw :)]
    exact hz.chain
  · rw [hne x (hzne x hx)]
    exact hz.exited x hx
  · rw [hne x (hzne x hx)]
    exact hr x hx

lemma modify_write (k : Kernel) (p : Slot) (f : Pcb → Pcb) : SelectWrite k (k.modify p f) := rfl

/-- `schedule` returned at its first test, because no process is current. -/
lemma Kept.bail {σ : System} {n : Nat} {pc : Pc} (h : Kept σ idle) (hc : σ.k.current = none)
    (hp : σ.exec = idle → pc.interruptible) :
    Kept ⟨{ σ.k with bailouts := n }, ⟨σ.exec, pc⟩⟩ idle := by
  have hs := h.sane
  have hst : Stacks { σ.k with bailouts := n } :=
    stacks_of_same hs.apart (fun _ => rfl) le_rfl fun _ hb => .inl hb
  refine ⟨⟨⟨?_, hs.sound.frame, hs.sound.idle, hs.sound.on⟩, hst, hs.idleProc, hs.idleUsed,
    hs.idleRunning, hs.unlinked, hs.owner⟩, h.enabled, fun c hc' => ?_, ?_, h.idleFrame, hp⟩
  · obtain ⟨q, hq⟩ := hs.sound.consistent
    exact ⟨q, hq.of_eq rfl rfl rfl rfl rfl⟩
  · have hcc : σ.k.current = some c := hc'
    simp [hc] at hcc
  · obtain ⟨zl, hz, hr⟩ := h.zombies
    exact ⟨zl, ⟨hz.chain, hz.exited⟩, hr⟩

/-- If there was a current process, there still is one, and no call of `schedule` returned at
its first test. -/
def Selects (k k' : Kernel) : Prop :=
  k.current ≠ none → k'.current ≠ none ∧ k'.bailouts = k.bailouts

lemma Selects.prepend {k1 : Kernel} (hc : k1.current = k.current) (hb : k1.bailouts = k.bailouts)
    (h : Selects k1 k') : Selects k k' := fun hne =>
  have h1 := h (hc ▸ hne)
  ⟨h1.1, h1.2.trans hb⟩

lemma Switched.selects {rsp : Frame} {f : Option Frame} {cur next : Slot}
    (hs : Switched k k' rsp f cur next) : Selects k k' := by
  intro _
  rw [hs.current]
  exact ⟨by simp, (congrArg Kernel.bailouts hs.write :)⟩

/-- `sched_force_yield` by the executing process, whatever state it has left itself in. -/
lemma yield_kept {exec : Slot} (pc : Pc) (h : Sane k idle) (he : k.schedulerEnabled = true)
    (hz : Reapables k) (hf : ∀ g, (k.procs idle).kframe = some g → g.pc.interruptible)
    (hc : ∀ c, k.current = some c → c = exec ∧ ((k.procs c).state = .running → (k.procs c).used))
    (hp : exec = idle → pc.interruptible) (back : Frame) :
    Kept ⟨(k.yield ⟨exec, pc⟩).1, (k.yield ⟨exec, pc⟩).2.frame back⟩ idle ∧
      Selects k (k.yield ⟨exec, pc⟩).1 := by
  obtain ⟨q, hq⟩ := h.sound.consistent
  have hy : Yielded k ⟨exec, pc⟩ (schedForceYield k ⟨exec, pc⟩) :=
    schedForceYield_cases hq fun c hc' => (hc c hc').2
  rw [show k.yield ⟨exec, pc⟩ = ((schedForceYield k ⟨exec, pc⟩).1,
    .load ((schedForceYield k ⟨exec, pc⟩).2.getD ⟨exec, pc⟩)) from rfl]
  generalize schedForceYield k ⟨exec, pc⟩ = r at hy
  cases hy with
  | bail hb =>
    rw [he] at hb
    have hcn : k.current = none := by simpa using hb
    have hk : Kept ⟨k, ⟨exec, pc⟩⟩ idle :=
      ⟨h, he, fun c hc' => by simp [hcn] at hc', hz, hf, hp⟩
    have hd : drained k = k := by
      unfold drained
      rw [hcn]
    rw [hd]
    exact ⟨hk.bail hcn hp, fun hne => absurd hcn hne⟩
  | switch hcur hs =>
    have ho := (hc _ hcur).1
    exact ⟨hs.kept h he hz hf ho.symm (fun hi => hp (ho ▸ hi)) _, hs.selects⟩
  | stuck hcur _ _ _ hidle _ =>
    exact absurd (hidle idle h.idleProc).2 (h.sound.frame idle h.idleLive)

/-- The timer interrupt. -/
lemma tick_kept {σ : System} (h : Kept σ idle) (hp : σ.cpu.pc.interruptible) :
    Kept ⟨(schedule σ.k σ.cpu).1, (schedule σ.k σ.cpu).2.getD σ.cpu⟩ idle ∧
      Selects σ.k (schedule σ.k σ.cpu).1 := by
  have hs := h.sane
  obtain ⟨q, hq⟩ := hs.sound.consistent
  have hy : Scheduled σ.k σ.cpu (schedule σ.k σ.cpu) :=
    schedule_cases hq fun c hc _ => (h.current c hc).2.used
  generalize schedule σ.k σ.cpu = r at hy
  cases hy with
  | bail hb =>
    rw [h.enabled] at hb
    have hcn : σ.k.current = none := by simpa using hb
    exact ⟨h.bail hcn fun _ => hp, fun hne => absurd hcn hne⟩
  | stay hc hr ht =>
    rename_i cur
    obtain ⟨rfl, hx⟩ := h.current _ hc
    have hl : (σ.k.procs σ.exec).state ≠ .exited := by simp [hx.running]
    have hcons : Consistent (σ.k.modify σ.exec fun c =>
        { c with kframe := some σ.cpu, ticksLeft := c.ticksLeft - 1 }) :=
      ⟨q, queuedOff_modify_frame hq σ.exec _ σ.cpu fun c => ⟨_, rfl⟩⟩
    have hw := modify_write σ.k σ.exec fun c =>
      { c with kframe := some σ.cpu, ticksLeft := c.ticksLeft - 1 }
    have hself := σ.k.modify_procs_self σ.exec fun c =>
      { c with kframe := some σ.cpu, ticksLeft := c.ticksLeft - 1 }
    have hne := fun x (hx : x ≠ σ.exec) => σ.k.modify_procs_of_ne (fun c =>
      { c with kframe := some σ.cpu, ticksLeft := c.ticksLeft - 1 }) hx
    have hcur : (σ.k.modify σ.exec fun c =>
      { c with kframe := some σ.cpu, ticksLeft := c.ticksLeft - 1 }).current = σ.k.current := rfl
    generalize (σ.k.modify σ.exec fun c =>
      { c with kframe := some σ.cpu, ticksLeft := c.ticksLeft - 1 }) = k' at *
    have hrun : (k'.procs σ.exec).state = .running := by
      rw [hself]
      exact hx.running
    have hsane := hs.write h.enabled hw hcons hne hl (by simp [hself])
      (.inr ⟨σ.cpu, by simp [hself], rfl⟩) fun _ => hrun
    refine ⟨⟨hsane, ?_, fun c hc' => ?_, h.zombies.write hw hne hl, fun g hg => ?_, fun _ => hp⟩,
      fun hne => ⟨hcur ▸ hne, (congrArg Kernel.bailouts hw :)⟩⟩
    · exact (congrArg Kernel.schedulerEnabled hw :).trans h.enabled
    · obtain ⟨rfl, hxc⟩ := h.current c (hcur ▸ hc')
      refine ⟨rfl, hc', ?_, hrun⟩
      rw [show (k'.procs σ.exec).used = (σ.k.procs σ.exec).used by rw [hself]]
      exact hxc.used
    · by_cases hi : idle = σ.exec
      · rw [hi, hself] at hg
        rw [← Option.some.inj hg]
        exact hp
      · rw [hne idle hi] at hg
        exact h.idleFrame g hg
  | switch hcur hsw =>
    have ho := (h.current _ hcur).1
    exact ⟨hsw.kept hs h.enabled h.zombies h.idleFrame ho.symm (fun _ => hp) _, hsw.selects⟩
  | stuck hcur _ _ _ hidle _ =>
    exact absurd (hidle idle hs.idleProc).2 (hs.sound.frame idle hs.idleLive)

lemma demoted_write {p : Slot} (he : k.schedulerEnabled = true) (prio : Int) :
    SelectWrite k (demoted k p prio) ∧
      (demoted k p prio).current = (if k.current = some p then none else k.current) ∧
      ∀ x, (demoted k p prio).procs x = if x = p then { k.procs p with
        priority := clampPrio prio, state := .ready, ticksLeft := timeSliceTicks, agingTicks := 0 }
        else k.procs x := by
  have h1 := schedRemove_write (k.modify p fun c => { c with state := .ready }) p
  have hp1 := schedRemove_procs (k.modify p fun c => { c with state := .ready }) p
  have hc1 := schedRemove_current (k.modify p fun c => { c with state := .ready }) p
  have he1 : (schedRemove (k.modify p fun c => { c with state := .ready }) p).schedulerEnabled =
      true := (congrArg Kernel.schedulerEnabled h1 :).trans he
  unfold demoted
  generalize schedRemove (k.modify p fun c => { c with state := .ready }) p = k1 at *
  have hon : ¬((k1.modify p fun c => { c with priority := prio }).schedulerEnabled = false ∧
      (k1.modify p fun c => { c with priority := prio }).current = none) := by
    rintro ⟨h, -⟩
    simp [Kernel.modify, he1] at h
  have h2 := schedEnqueue_write p hon
  have hp2 := schedEnqueue_procs p hon
  generalize schedEnqueue (k1.modify p fun c => { c with priority := prio }) p = k2 at *
  refine ⟨?_, ?_, fun x => ?_⟩
  · unfold SelectWrite
    rw [h2, Kernel.modify, h1]
    rfl
  · rw [show k2.current = k1.current from (congrArg Kernel.current h2 :), hc1]
    rfl
  · rw [hp2, update_apply]
    split
    · rw [Kernel.modify_procs_self, hp1, Kernel.modify_procs_self]
    · rename_i hx
      rw [Kernel.modify_procs_of_ne _ _ hx, hp1, Kernel.modify_procs_of_ne _ _ hx]

/-- A call that spares the idle process, and the executing process if it is current. -/
lemma ends_kept {σ : System} {r : Kernel × Outcome} (back : Frame) (h : Kept σ idle)
    (he : Ends (Listed s .idle) s σ.k σ.exec r) (hti : ¬s.terminated idle)
    (htx : σ.k.current = none ∨ ¬s.terminated σ.exec) (hback : back.owner = σ.exec)
    (hp : σ.exec = idle → back.pc.interruptible ∧ ∀ f, r.2 ≠ .load f) :
    Kept ⟨r.1, r.2.frame back⟩ idle ∧ (¬s.demotes → Selects σ.k r.1) := by
  have hs := h.sane
  have hkept : ∀ {k1 : Kernel}, Steps s σ.k k1 → Sane k1 idle ∧ k1.schedulerEnabled = true ∧
      (∀ c, k1.current = some c → c = σ.exec ∧ Executing k1 c) ∧
      ∀ g, (k1.procs idle).kframe = some g → g.pc.interruptible := by
    intro k1 h1
    refine ⟨steps_sane hs h1 hti, (steps_static hs.sound h1).2.1.trans h.enabled,
      fun c hc => ?_, fun g hg => ?_⟩
    · have hck := steps_current hs.sound h1 hc
      obtain ⟨rfl, hx⟩ := h.current c hck
      exact ⟨rfl, steps_executing hs.sound h1 (htx.resolve_left (by simp [hck])) hx⟩
    · have hself := (steps_self hs.sound h1 hti
        (.inr ⟨hs.idleProc, hs.idleUsed, hs.idleRunning⟩)).1.1
      exact h.idleFrame g (hself.2.2.1 ▸ hg)
  have hcurrent : ∀ {k1 : Kernel}, Steps s σ.k k1 → k1.current = σ.k.current := by
    intro k1 h1
    cases hc : σ.k.current with
    | none =>
      cases hc1 : k1.current with
      | none => rfl
      | some c => exact (steps_current hs.sound h1 hc1).symm.trans hc
    | some c =>
      obtain ⟨rfl, hx⟩ := h.current c hc
      exact (steps_executing hs.sound h1 (htx.resolve_left (by simp [hc])) hx).current
  have hsel : ∀ {k1 : Kernel}, Steps s σ.k k1 → Selects σ.k k1 := fun h1 hne =>
    ⟨hcurrent h1 ▸ hne, (steps_static hs.sound h1).2.2⟩
  cases he with
  | back h1 hQ ho =>
    rename_i k1 o
    obtain ⟨hs1, he1, hc1, hf1⟩ := hkept h1
    have hfr : o.frame back = back := by
      cases o with
      | load f => exact absurd rfl (ho f)
      | _ => rfl
    dsimp only
    rw [hfr]
    refine ⟨⟨hs1, he1, fun c hc => ?_, hQ.reapables, hf1, fun hi => (hp (hback ▸ hi)).1⟩,
      fun _ => hsel h1⟩
    rw [show System.exec ⟨k1, back⟩ = σ.exec from hback]
    exact hc1 c hc
  | leave pc h1 hQ hl =>
    rename_i k1 k2
    have hni : σ.exec ≠ idle := fun hi => (hp hi).2 _ rfl
    obtain ⟨hs1, he1, hc1, hf1⟩ := hkept h1
    cases hl with
    | yields =>
      obtain ⟨h2, hsel2⟩ := yield_kept pc hs1 he1 hQ.reapables hf1
        (fun c hc => ⟨(hc1 c hc).1, fun _ => (hc1 c hc).2.used⟩) (fun hi => absurd hi hni) back
      exact ⟨h2, fun _ => hsel2.prepend (hcurrent h1) (steps_static hs.sound h1).2.2⟩
    | blocks w hcur =>
      obtain ⟨rfl, hx⟩ := hc1 _ hcur
      have hl : (k1.procs σ.exec).state ≠ .exited := by simp [hx.running]
      have hnr : (k1.procs σ.exec).state ≠ .ready := by simp [hx.running]
      have hcons := consistent_modify hs1.sound.consistent hnr (f := fun c =>
        { c with waitingFor := w c, state := .blocked, ticksLeft := 0 }) (by simp) rfl ⟨rfl, rfl⟩
      have hne := fun x (hx : x ≠ σ.exec) => k1.modify_procs_of_ne (fun c =>
        { c with waitingFor := w c, state := .blocked, ticksLeft := 0 }) hx
      have hw := modify_write k1 σ.exec fun c =>
        { c with waitingFor := w c, state := .blocked, ticksLeft := 0 }
      have hsane := hs1.write he1 hw hcons hne hl (by simp) (.inl (by simp))
        fun hi => absurd hi hni
      have hf2 : ∀ g, ((k1.modify σ.exec fun c =>
          { c with waitingFor := w c, state := .blocked, ticksLeft := 0 }).procs idle).kframe =
            some g → g.pc.interruptible := by
        rw [hne idle (Ne.symm hni)]
        exact hf1
      have hc2 : ∀ c, k1.current = some c → c = σ.exec ∧ (((k1.modify σ.exec fun c =>
          { c with waitingFor := w c, state := .blocked, ticksLeft := 0 }).procs c).state = .running →
          ((k1.modify σ.exec fun c =>
            { c with waitingFor := w c, state := .blocked, ticksLeft := 0 }).procs c).used) := by
        intro c hc
        obtain rfl := (hc1 c hc).1
        exact ⟨rfl, fun hr => by simp at hr⟩
      obtain ⟨h2, hsel2⟩ := yield_kept pc hsane he1 (hQ.reapables.write hw hne hl) hf2 hc2
        (fun hi => absurd hi hni) back
      exact ⟨h2, fun _ => hsel2.prepend (hcurrent h1) (steps_static hs.sound h1).2.2⟩
  | demote hd h1 hQ hpr hcur hr hi =>
    rename_i k1 p prio
    have hni : σ.exec ≠ idle := fun hi => (hp hi).2 _ rfl
    obtain ⟨hs1, he1, hc1, hf1⟩ := hkept h1
    obtain ⟨rfl, hx⟩ := hc1 p hcur
    have hl : (k1.procs σ.exec).state ≠ .exited := by simp [hx.running]
    have hcons := (demoted_consistent hs1.sound hpr hcur hx.used hr hi).1
    obtain ⟨hw, hcd, hpd⟩ := demoted_write (p := σ.exec) he1 prio
    generalize demoted k1 σ.exec prio = k2 at *
    have hne : ∀ x, x ≠ σ.exec → k2.procs x = k1.procs x := by
      intro x hx'
      rw [hpd, if_neg hx']
    have hself : k2.procs σ.exec = { k1.procs σ.exec with
        priority := clampPrio prio, state := .ready, ticksLeft := timeSliceTicks
        agingTicks := 0 } := by
      rw [hpd, if_pos rfl]
    rw [if_pos hcur] at hcd
    have hsane := hs1.write he1 hw hcons hne hl (by simp [hself]) (.inl (by simp [hself]))
      fun hi => absurd hi hni
    refine ⟨(yield_kept .user hsane ?_ (hQ.reapables.write hw hne hl) (fun g hg => ?_)
      (fun c hc => by simp [hcd] at hc) (fun hi => absurd hi hni) back).1, fun hnd => absurd hd hnd⟩
    · exact (congrArg Kernel.schedulerEnabled hw :).trans he1
    · rw [hne idle (Ne.symm hni)] at hg
      exact hf1 g hg

/-- The executing process has terminated itself. -/
lemma terminated_kept {σ : System} (h : Kept σ idle) (hni : σ.exec ≠ idle)
    (h1 : Steps s σ.k k) (hk : Listed s .idle k) (hti : ¬s.terminated idle) (pc : Pc)
    (back : Frame) : Kept ⟨(k.yield ⟨σ.exec, pc⟩).1, (k.yield ⟨σ.exec, pc⟩).2.frame back⟩ idle ∧
      Selects σ.k (k.yield ⟨σ.exec, pc⟩).1 := by
  have hs := h.sane
  have hself := (steps_self hs.sound h1 hti
    (.inr ⟨hs.idleProc, hs.idleUsed, hs.idleRunning⟩)).1.1
  have hoff0 : CurrentOff σ.k := fun c hc =>
    have hx := (h.current c hc).2
    .inl ⟨hx.used, hx.running⟩
  have hoff := steps_currentOff hs.sound h1 hoff0
  have hc : ∀ c, k.current = some c → c = σ.exec ∧
      ((k.procs c).state = .running → (k.procs c).used) := fun c hc =>
    ⟨(h.current c (steps_current hs.sound h1 hc)).1, hoff.used c hc⟩
  obtain ⟨h2, hsel⟩ := yield_kept pc (steps_sane hs h1 hti)
    ((steps_static hs.sound h1).2.1.trans h.enabled) hk.reapables
    (fun g hg => h.idleFrame g (hself.2.2.1 ▸ hg)) hc (fun hi => absurd hi hni) back
  exact ⟨h2, hsel.prepend (steps_sameCurrent hs.sound h1 hoff0) (steps_static hs.sound h1).2.2⟩

/-- The scope of an event that spares the idle process, and the current process; `d` says
whether it may put the current process on the ready queues. -/
def sparing (idle : Slot) (current : Option Slot) (d : Prop) : Scope :=
  { anything with terminated := fun p => p ≠ idle ∧ current ≠ some p, demotes := d }

lemma sparing_open (idle : Slot) (current : Option Slot) (d : Prop) :
    Open (sparing idle current d) :=
  ⟨fun _ => trivial, fun _ => trivial, trivial⟩

lemma procKill_ret {exec : Slot} {pid : Int} (h : ∀ p, procByPid (collectZombies k) pid = some p →
    (collectZombies k).idleProc = some p ∨ (collectZombies k).current ≠ some p) :
    ∃ v, (procKill k exec pid).2 = .ret v := by
  rw [procKill_eq]
  split
  · exact ⟨_, rfl⟩
  · rename_i p hp
    have h1 := h p hp
    split
    · exact ⟨_, rfl⟩
    · rename_i hi
      have hcur : (killRelease (collectZombies k) p).current ≠ some p := by
        have hg := (@goes_killRelease anything (Sealed anything) .idle
          ((sealed_rule anything).ofZombies _) trivial (collectZombies k) p).2
        rw [hg.current]
        exact h1.resolve_left hi
      unfold killTail
      rw [if_neg fun hc => hcur hc.2]
      exact ⟨_, rfl⟩

/-- The children of a killed process are not the idle process, and not the current process
where the event spares it. -/
lemma dies_sparing {σ : System} {e : Event} {pid : Int} (h : Kept σ idle)
    (hsp : SparesCaller σ e) (hv : e.victim σ.k = some pid) {p : Slot}
    (hp : procByPid (collectZombies σ.k) pid = some p) (hi : σ.k.idleProc ≠ some p)
    (hc : σ.k.current ≠ some p) : Dies (sparing idle σ.k.current False) σ.k p := by
  have hs := h.sane
  have hpi : p ≠ idle := fun e => hi (e ▸ hs.idleProc)
  obtain ⟨h1, -⟩ := (listed_rule anything).collect .idle σ.k (h.zombies.listed fun _ => trivial)
  obtain ⟨-, hu, hpid⟩ := procByPid_some hp
  obtain ⟨hpid1, hu1⟩ := steps_reaping hs.sound h1 p
  refine ⟨⟨hpi, hc⟩, fun d hd => ⟨?_, fun hcd => ?_⟩⟩
  · rintro rfl
    exact hs.unlinked (onChildList_linked hd)
  · obtain ⟨rfl, -⟩ := h.current d hcd
    refine hsp p ⟨hu1 hu, by rw [hv, ← hpid1, hpid], ?_, hi⟩ hd
    rintro rfl
    exact hc hcd

/-- A kill of whatever process, by a call or by Ctrl-C. -/
lemma kill_kept {σ : System} {e : Event} {pid : Int} (back : Frame) (h : Kept σ idle)
    (hsp : SparesCaller σ e) (hv : e.victim σ.k = some pid)
    (hback : back.owner = σ.exec) (hp : σ.exec = idle → back.pc.interruptible) :
    Kept ⟨(procKill σ.k σ.exec pid).1, (procKill σ.k σ.exec pid).2.frame back⟩ idle ∧
      Selects σ.k (procKill σ.k σ.exec pid).1 := by
  have hs := h.sane
  have hx : ∀ c, σ.k.current = some c → Executing σ.k c := fun c hc => (h.current c hc).2
  have hl : ∀ s : Scope, (∀ p, s.woken p) → Listed s .idle σ.k := fun s hw => h.zombies.listed hw
  obtain ⟨h1, -⟩ := (listed_rule anything).collect .idle σ.k (hl anything fun _ => trivial)
  have hidle1 := (steps_static hs.sound h1).1
  by_cases hself : ∃ p, procByPid (collectZombies σ.k) pid = some p ∧ σ.k.current = some p ∧
      p ≠ idle
  · obtain ⟨p, hpp, hc, hpi⟩ := hself
    obtain ⟨rfl, hxp⟩ := h.current p hc
    have hd : Dies (sparing idle none False) σ.k σ.exec :=
      ⟨⟨hpi, by simp⟩, fun d hd => ⟨fun e => hs.unlinked (e ▸ onChildList_linked hd), by simp⟩⟩
    obtain ⟨k1, h2, hk1, e⟩ := procKill_yields σ.exec (listed_rule _) trivial trivial
      (fun _ => trivial) hs.sound hxp hpp (fun e => hpi (Option.some.inj (e.symm.trans hs.idleProc)))
      hd (.inl fun _ => trivial) (hl _ fun _ => trivial)
    rw [e]
    exact terminated_kept h hpi h2 hk1 (fun ht => ht.1 rfl) .hlt back
  · have hne : ∀ p, procByPid (collectZombies σ.k) pid = some p → σ.k.idleProc ≠ some p →
        σ.k.current ≠ some p := by
      intro p hpp hi hc
      exact hself ⟨p, hpp, hc, fun e => hi (e ▸ hs.idleProc)⟩
    have he : Ends (Listed (sparing idle σ.k.current False) .idle) (sparing idle σ.k.current False)
        σ.k σ.exec (procKill σ.k σ.exec pid) :=
      ends_procKill (listed_rule _) trivial trivial (fun _ => trivial) hs.sound hx
        (fun p hpp hi => dies_sparing h hsp hv hpp hi (hne p hpp hi)) (.inl fun _ => trivial)
        (fun _ h => h.elim) (hl _ fun _ => trivial)
    obtain ⟨v, hv⟩ : ∃ v, (procKill σ.k σ.exec pid).2 = .ret v := by
      apply procKill_ret
      intro p hpp
      rw [hidle1]
      by_cases hi : σ.k.idleProc = some p
      · exact .inl hi
      · exact .inr fun hc => hne p hpp hi (steps_current hs.sound h1 hc)
    refine (ends_kept back h he (fun ht => ht.1 rfl) ?_ hback fun hi =>
      ⟨hp hi, fun f => by simp [hv]⟩).imp id fun hsel => hsel id
    cases hc : σ.k.current with
    | none => exact .inl rfl
    | some c =>
      obtain ⟨rfl, -⟩ := h.current c hc
      exact .inr fun ht => ht.2 rfl

/-- Every event that does not kill the parent of the executing process. -/
theorem step_kept {σ σ' : System} {e : Event} (h : Kept σ idle) (hsp : SparesCaller σ e)
    (hs : System.step σ e = some σ') : Kept σ' idle ∧ (KeepsCurrent σ e → Selects σ.k σ'.k) := by
  have hsane := h.sane
  have hx : ∀ c, σ.k.current = some c → Executing σ.k c := fun c hc => (h.current c hc).2
  have hl : ∀ d, Listed (sparing idle σ.k.current d) .idle σ.k := fun d =>
    h.zombies.listed fun _ => trivial
  have hidle : ∀ i, σ.k.idleProc = some i → Live σ.k i := by
    intro i hi
    rw [hsane.idleProc, Option.some.injEq] at hi
    exact hi ▸ hsane.idleLive
  have htx : ∀ d, σ.k.current = none ∨ ¬(sparing idle σ.k.current d).terminated σ.exec := by
    intro d
    cases hc : σ.k.current with
    | none => exact .inl rfl
    | some c =>
      obtain ⟨rfl, -⟩ := h.current c hc
      exact .inr fun ht => ht.2 rfl
  have hti : ∀ d, ¬(sparing idle σ.k.current d).terminated idle := fun _ ht => ht.1 rfl
  cases e with
  | syscall c =>
    simp only [System.step] at hs
    split at hs
    · rename_i hg
      obtain rfl := Option.some.inj hs
      have hni : σ.exec ≠ idle := fun e => hg.2 (e ▸ hsane.idleProc)
      have hnc : ∀ c, σ.k.current = some c → σ.k.idleProc ≠ some c := by
        intro c hc
        rw [(h.current c hc).1]
        exact hg.2
      have hcall : CallOk (sparing idle σ.k.current (¬KeepsCurrent σ (.syscall c))) σ.k c → Kept
          ⟨(syscall σ.k σ.exec c).1, (syscall σ.k σ.exec c).2.frame ⟨σ.exec, .user⟩⟩ idle ∧
          (KeepsCurrent σ (.syscall c) → Selects σ.k (syscall σ.k σ.exec c).1) := fun hd =>
        have hc := ends_syscall (sparing_open _ _ _) hsane.sound hx hnc hidle (hl _) c hd
          fun _ => trivial
        (ends_kept ⟨σ.exec, .user⟩ h hc (hti _) (htx _) rfl fun e => absurd e hni).imp id
          fun hsel hk => hsel (not_not.mpr hk)
      cases c with
      | kill pid =>
        exact (kill_kept ⟨σ.exec, .user⟩ h hsp rfl rfl fun e => absurd e hni).imp id fun hsel _ => hsel
      | exit code =>
        cases hc : σ.k.current with
        | none => exact hcall fun c hc' => by simp [hc] at hc'
        | some c =>
          obtain ⟨rfl, hxc⟩ := h.current c hc
          have hd : Dies (sparing idle none False) σ.k σ.exec :=
            ⟨⟨hni, by simp⟩, fun d hd =>
              ⟨fun e => hsane.unlinked (e ▸ onChildList_linked hd), by simp⟩⟩
          obtain ⟨k1, h2, hk1, e⟩ := procExit_yields σ.exec (listed_rule _) trivial trivial
            (fun _ => trivial) hsane.sound hxc hg.2 hd (.inl fun _ => trivial)
            (h.zombies.listed fun _ => trivial) code
          simp only [syscall]
          rw [e]
          exact (terminated_kept h hni h2 hk1 (fun ht => ht.1 rfl) .hlt _).imp id fun hsel _ => hsel
      | block pid => exact hcall fun _ _ => trivial
      | nice pid newPrio =>
        refine hcall fun p hp => ⟨trivial, fun hc hne hk => hne ?_⟩
        -- reaping the zombies first changes neither the pid nor the priority of the caller
        obtain ⟨h1, -⟩ := (listed_rule anything).collect .idle σ.k (h.zombies.listed fun _ => trivial)
        obtain ⟨rfl, hxp⟩ := h.current p (steps_current hsane.sound h1 hc)
        have hself := (steps_self hsane.sound h1 id (.inl hxp)).1
        rw [(hself.2 id).1]
        apply hk.2 pid newPrio rfl
        rw [← hself.1.1]
        exact (procByPid_some hp).2.2
      | _ => exact hcall trivial
    · cases hs
  | resume =>
    simp only [System.step, Option.map_eq_some_iff] at hs
    obtain ⟨r, hr, rfl⟩ := hs
    refine (ends_kept ⟨σ.exec, .user⟩ h (ends_resume (sparing_open _ _ False) (hl _) hr) (hti _) (htx _) rfl
      fun e => ?_).imp id fun hsel _ => hsel id
    have hint := h.idleCpu e
    cases hpc : σ.cpu.pc <;> simp [hpc, Pc.interruptible, TP2Kernel.resume] at hint hr
  | tick =>
    simp only [System.step] at hs
    split at hs
    · rename_i hp
      obtain rfl := Option.some.inj hs
      exact (tick_kept h hp).imp id fun hsel _ => hsel
    · cases hs
  | key c =>
    simp only [System.step] at hs
    split at hs
    · rename_i hp
      obtain rfl := Option.some.inj hs
      by_cases h3 : c = 3 ∧ 0 < procGetForegroundPid σ.k
      · have e : ttyPushChar σ.k σ.exec c = procKill σ.k σ.exec (procGetForegroundPid σ.k) := by
          unfold ttyPushChar
          rw [if_pos h3.1]
          exact if_pos h3.2
        rw [e]
        exact (kill_kept σ.cpu h hsp (by simp [Event.victim, h3.1]) rfl fun _ => hp).imp id
          fun hsel _ => hsel
      · have hret : ∃ v, (ttyPushChar σ.k σ.exec c).2 = .ret v := by
          unfold ttyPushChar
          split
          · rename_i hc3
            dsimp only
            rw [if_neg fun h => h3 ⟨hc3, h⟩]
            exact ⟨_, rfl⟩
          · split
            · exact ⟨_, rfl⟩
            · exact ⟨_, rfl⟩
        obtain ⟨v, hv⟩ := hret
        have he := ends_ttyPushChar σ.exec (sparing_open _ _ False) hsane.sound hx (hl _) c
          fun hc3 => ⟨fun p hpp => absurd ⟨hc3, (procByPid_some hpp).1⟩ h3, trivial⟩
        exact (ends_kept σ.cpu h he (hti _) (htx _) rfl fun _ => ⟨hp, fun f => by simp [hv]⟩).imp id
          fun hsel _ => hsel id
    · cases hs

end TP2Kernel.Proofs
