import TP2Kernel.Proofs.Offstage

/-!
# Processes that sleep until they are unblocked

Every wake-up goes through `proc_unblock`, which is passed the pid of a process that is queued
somewhere or that waits for a child. A process that is blocked and neither queued nor waiting is
only made ready by `sys_unblock`.
-/

namespace TP2Kernel.Proofs
open Function

variable {c : Option Slot} {k k' : Kernel} {n : Int} {p : Slot}

lemma claimed_procs {i x : Slot} (hx : x ≠ i) {prio : Int} {fg : Bool} {name : CStr} :
    (claimed k i prio fg name).procs x = k.procs x := by
  unfold claimed
  rw [setParentPid_eq]
  simp [Kernel.modify, hx]

/-- Only `p` has the pid `n`, no wake-up for it is pending, and it is not the process `c`. -/
structure Undisturbed (c : Option Slot) (n : Int) (p : Slot) (k : Kernel) : Prop where
  pid : (k.procs p).pid = n
  alone : ∀ q, (k.procs q).used → (k.procs q).pid = n → q = p
  unawaited : Unawaited k n
  caller : ∀ q, c = some q → (k.procs q).pid ≠ n

/-- What may happen to an undisturbed process. -/
structure Disturbs (c : Option Slot) (k k' : Kernel) : Prop where
  pid : ∀ x, (k'.procs x).pid = (k.procs x).pid
  used : ∀ x, (k'.procs x).used → (k.procs x).used
  waiting : ∀ x, (k'.procs x).waitingFor = (k.procs x).waitingFor ∨
    (k'.procs x).waitingFor = 0 ∨ c = some x
  sems : ∀ s, ∀ w ∈ (k'.sems s).waiters, w ∈ (k.sems s).waiters ∨ c = some w.proc
  readers : ∀ i, ∀ w ∈ (k'.pipes i).rWaiters, w ∈ (k.pipes i).rWaiters ∨ c = some w.proc
  writers : ∀ i, ∀ w ∈ (k'.pipes i).wWaiters, w ∈ (k.pipes i).wWaiters ∨ c = some w.proc
  tty : ∀ w ∈ k'.tty.waiters, w ∈ k.tty.waiters ∨ c = some w.proc

lemma Joins.mem {ws ws' : List Waiter} (h : Joins c ws ws') :
    ∀ w ∈ ws', w ∈ ws ∨ c = some w.proc := by
  intro w hw
  rcases h with h | ⟨cur, node, hc, rfl⟩
  · exact .inl (h.subset hw)
  · rcases List.mem_append.mp hw with hw | hw
    · exact .inl hw
    · rw [List.mem_singleton] at hw
      rw [hw]
      exact .inr hc

namespace Disturbs

lemma refl (c : Option Slot) (k : Kernel) : Disturbs c k k :=
  ⟨fun _ => rfl, fun _ => id, fun _ => .inl rfl, fun _ _ => .inl, fun _ _ => .inl, fun _ _ => .inl,
    fun _ => .inl⟩

lemma trans {k'' : Kernel} (h : Disturbs c k k') (h' : Disturbs c k' k'') : Disturbs c k k'' := by
  refine ⟨fun x => (h'.pid x).trans (h.pid x), fun x hx => h.used x (h'.used x hx), fun x => ?_,
    fun s w hw => ?_, fun i w hw => ?_, fun i w hw => ?_, fun w hw => ?_⟩
  · rcases h'.waiting x with hx | hx | hx
    · rw [hx]
      exact h.waiting x
    · exact .inr (.inl hx)
    · exact .inr (.inr hx)
  · exact (h'.sems s w hw).elim (h.sems s w) .inr
  · exact (h'.readers i w hw).elim (h.readers i w) .inr
  · exact (h'.writers i w hw).elim (h.writers i w) .inr
  · exact (h'.tty w hw).elim (h.tty w) .inr

/-- Writes outside the PCBs and the queues. -/
lemma of_eq (c : Option Slot) (hp : k'.procs = k.procs) (hs : k'.sems = k.sems)
    (hi : k'.pipes = k.pipes) (ht : k'.tty.waiters = k.tty.waiters) : Disturbs c k k' := by
  have h0 := refl c k
  refine ⟨?_, ?_, ?_, ?_, ?_, ?_, ?_⟩
  · rw [hp]
    exact h0.pid
  · rw [hp]
    exact h0.used
  · rw [hp]
    exact h0.waiting
  · rw [hs]
    exact h0.sems
  · rw [hi]
    exact h0.readers
  · rw [hi]
    exact h0.writers
  · rw [ht]
    exact h0.tty

lemma modify (c : Option Slot) (k : Kernel) (p : Slot) {f : Pcb → Pcb}
    (hp : (f (k.procs p)).pid = (k.procs p).pid) (hu : (f (k.procs p)).used → (k.procs p).used)
    (hw : (f (k.procs p)).waitingFor = (k.procs p).waitingFor ∨ (f (k.procs p)).waitingFor = 0 ∨
      c = some p) : Disturbs c k (k.modify p f) := by
  have h0 := refl c k
  refine ⟨fun x => ?_, fun x => ?_, fun x => ?_, h0.sems, h0.readers, h0.writers, h0.tty⟩
  all_goals
    rw [Kernel.modify_procs]
    split
    · rename_i hx
      rw [hx]
      assumption
  · rfl
  · exact id
  · exact .inl rfl

lemma pipes (c : Option Slot) (k : Kernel) (p : Nat) {f : Kpipe → Kpipe}
    (hr : Joins c (k.pipes p).rWaiters (f (k.pipes p)).rWaiters)
    (hw : Joins c (k.pipes p).wWaiters (f (k.pipes p)).wWaiters) : Disturbs c k (k.modifyPipe p f) := by
  have h0 := refl c k
  refine ⟨h0.pid, h0.used, h0.waiting, h0.sems, fun i => ?_, fun i => ?_, h0.tty⟩
  · by_cases hi : i = p
    · rw [hi]
      simpa [Kernel.modifyPipe] using hr.mem
    · simpa [Kernel.modifyPipe, hi] using h0.readers i
  · by_cases hi : i = p
    · rw [hi]
      simpa [Kernel.modifyPipe] using hw.mem
    · simpa [Kernel.modifyPipe, hi] using h0.writers i

lemma sem (c : Option Slot) (k : Kernel) (s : Nat) {f : Ksem → Ksem}
    (h : Joins c (k.sems s).waiters (f (k.sems s)).waiters) : Disturbs c k (k.modifySem s f) := by
  have h0 := refl c k
  refine ⟨h0.pid, h0.used, h0.waiting, fun i => ?_, h0.readers, h0.writers, h0.tty⟩
  by_cases hi : i = s
  · rw [hi]
    simpa [Kernel.modifySem] using h.mem
  · simpa [Kernel.modifySem, hi] using h0.sems i

lemma redispatch (c : Option Slot) (h : Redispatch k k') : Disturbs c k k' := by
  have h0 := refl c k
  have hw := h.write
  refine ⟨fun x => ?_, fun x => ?_, fun x => ?_, ?_, ?_, ?_, ?_⟩
  · rw [h.procs x]
  · rw [h.procs x]
    exact id
  · rw [h.procs x]
    exact .inl rfl
  · rw [show k'.sems = k.sems from (congrArg Kernel.sems hw :)]
    exact h0.sems
  · rw [show k'.pipes = k.pipes from (congrArg Kernel.pipes hw :)]
    exact h0.readers
  · rw [show k'.pipes = k.pipes from (congrArg Kernel.pipes hw :)]
    exact h0.writers
  · rw [show k'.tty = k.tty from (congrArg Kernel.tty hw :)]
    exact h0.tty

lemma front (c : Option Slot) (h : ForegroundWrite k k') : Disturbs c k k' := by
  have h0 := refl c k
  have hw := h.same
  refine ⟨fun x => ?_, fun x => ?_, fun x => ?_, ?_, ?_, ?_, ?_⟩
  · rw [h.procs x]
  · rw [h.procs x]
    exact id
  · rw [h.procs x]
    exact .inl rfl
  · rw [show k'.sems = k.sems from (congrArg Kernel.sems hw :)]
    exact h0.sems
  · rw [show k'.pipes = k.pipes from (congrArg Kernel.pipes hw :)]
    exact h0.readers
  · rw [show k'.pipes = k.pipes from (congrArg Kernel.pipes hw :)]
    exact h0.writers
  · rw [show k'.tty.waiters = k.tty.waiters from (congrArg (fun k => k.tty.waiters) hw :)]
    exact h0.tty

/-- Calls of process `c` queue no other process. -/
lemma loose (c : Option Slot) : CallLoose c (Disturbs c) where
  refl := refl c
  trans := trans
  link h := by
    rw [LinkWriteAny] at h
    rw [h]
    exact of_eq c rfl rfl rfl rfl
  modify k p f h := by
    apply modify c k p _ h.2
    · left
      rw [h.1]
    · rw [h.1]
  pipe k p f h := pipes c k p (.inl h.1) (.inl h.2)
  free _ _ _ := of_eq c rfl rfl rfl rfl
  index h := by
    rw [h.1]
    exact of_eq c rfl rfl rfl rfl
  write k p f h := by
    apply modify c k p _ h.2.1 (h.2.2.imp_right .inl)
    rw [h.1]
  wait k p _ hc := modify c k p rfl id (.inr (.inr hc))
  queue k p _ hr hw := pipes c k p hr hw
  tty k f _ h := by
    have h0 := refl c k
    exact ⟨h0.pid, h0.used, h0.waiting, h0.sems, h0.readers, h0.writers, h.mem⟩
  sem k s _ h := sem c k s h
  handle _ _ _ _ := of_eq c rfl rfl rfl rfl
  dispatch := redispatch c

lemma closed (c : Option Slot) : CallClosed c Anyhow Anyone (Disturbs c) := (loose c).closed

lemma undisturbed (h : Disturbs c k k') (hu : Undisturbed c n p k) : Undisturbed c n p k' := by
  have hq : ∀ w : Waiter, (k.procs w.proc).pid ≠ n ∨ c = some w.proc → (k'.procs w.proc).pid ≠ n := by
    intro w hw
    rw [h.pid]
    exact hw.elim id (hu.caller _)
  refine ⟨?_, fun q hq he => ?_, ⟨fun s w hw => ?_, fun i w hw => ?_, fun i w hw => ?_, fun w hw => ?_,
    fun q hq he => ?_⟩, fun q hc => ?_⟩
  · rw [h.pid, hu.pid]
  · rw [h.pid] at he
    exact hu.alone q (h.used q hq) he
  · exact hq w ((h.sems s w hw).imp_left (hu.unawaited.sems s w))
  · exact hq w ((h.readers i w hw).imp_left (hu.unawaited.readers i w))
  · exact hq w ((h.writers i w hw).imp_left (hu.unawaited.writers i w))
  · exact hq w ((h.tty w hw).imp_left (hu.unawaited.tty w))
  · rw [h.pid] at he
    rcases h.waiting q with hw | hw | hw
    · rw [hw]
      exact hu.unawaited.children q (h.used q hq) he
    · exact hw
    · exact absurd he (hu.caller q hw)
  · rw [h.pid]
    exact hu.caller q hc

/-- A new process in another slot that gets another pid. -/
lemma claim {i : Slot} (hu : Undisturbed c n p k) (hi : i ≠ p) (hn : k.nextPid ≠ n) (prio : Int)
    (fg : Bool) (name : CStr) : Undisturbed c n p (claimed k i prio fg name) := by
  have hp : ∀ x, x ≠ i → (claimed k i prio fg name).procs x = k.procs x := fun x hx =>
    claimed_procs hx
  have hpi : ((claimed k i prio fg name).procs i).pid ≠ n := by
    unfold claimed
    rw [setParentPid_eq]
    simpa [Kernel.modify, initPcb] using hn
  have hne : ∀ x, (k.procs x).pid ≠ n → ((claimed k i prio fg name).procs x).pid ≠ n := by
    intro x hx
    by_cases hxi : x = i
    · rw [hxi]
      exact hpi
    · rw [hp x hxi]
      exact hx
  have hself : ∀ x, ((claimed k i prio fg name).procs x).pid = n → x ≠ i := by
    rintro x hx rfl
    exact hpi hx
  have hw := hu.unawaited
  have hq : (claimed k i prio fg name).sems = k.sems ∧ (claimed k i prio fg name).pipes = k.pipes ∧
      (claimed k i prio fg name).tty = k.tty := by
    unfold claimed
    rw [setParentPid_eq]
    exact ⟨rfl, rfl, rfl⟩
  obtain ⟨hs, hi', ht⟩ := hq
  refine ⟨?_, fun q hq he => ?_, ⟨fun s w h => ?_, fun j w h => ?_, fun j w h => ?_, fun w h => ?_,
    fun q hq he => ?_⟩, fun q hc => hne q (hu.caller q hc)⟩
  · rw [hp p (Ne.symm hi)]
    exact hu.pid
  · rw [hp q (hself q he)] at hq he
    exact hu.alone q hq he
  · rw [hs] at h
    exact hne _ (hw.sems s w h)
  · rw [hi'] at h
    exact hne _ (hw.readers j w h)
  · rw [hi'] at h
    exact hne _ (hw.writers j w h)
  · rw [ht] at h
    exact hne _ (hw.tty w h)
  · have hqi := hself q he
    rw [hp q hqi] at hq he ⊢
    exact hw.children q hq he

end Disturbs

/-- `p` with the pid `n` is blocked or terminated, while process `c` runs, and nothing but
`sys_unblock` would wake it. -/
structure Asleep (c : Option Slot) (n : Int) (p : Slot) (k : Kernel) : Prop where
  undisturbed : Undisturbed c n p k
  offstage : Offstage p k

lemma Asleep.disturbs (h : Asleep c n p k) (hd : Disturbs c k k') (ho : Offstage p k') :
    Asleep c n p k' :=
  ⟨hd.undisturbed h.undisturbed, ho⟩

/-- Writes outside the PCBs and the scheduler's data. -/
lemma Asleep.outside (h : Asleep c n p k) (hd : Disturbs c k k') (hp : k'.procs = k.procs)
    (hc : k'.current = k.current) (hi : k'.idleProc = k.idleProc)
    (hh : k'.readyHead = k.readyHead) (hn : k'.queueNext = k.queueNext) : Asleep c n p k' := by
  apply h.disturbs hd (h.offstage.of_eq _ hc hi hh hn)
  rw [hp]
  exact h.offstage.asleep

lemma Asleep.ne (h : Asleep c n p k) {x : Slot} (hx : (k.procs x).pid ≠ n) : x ≠ p := by
  rintro rfl
  exact hx h.undisturbed.pid

lemma asleep_closed (c : Option Slot) (n : Int) (p : Slot) :
    EventClosed c (Asleep c n p) (· ≠ n) (fun i m => i ≠ p ∧ m ≠ n)
      fun k k' => Asleep c n p k → Asleep c n p k' where
  refl _ h := h
  trans h h' ha := h' (h ha)
  given h ha := h ha ha
  link h ha := by
    apply ha.disturbs ((Disturbs.closed c).link h)
    rw [LinkWrite] at h
    rw [h]
    exact ha.offstage.of_eq ha.offstage.asleep rfl rfl rfl rfl
  modify k x f h ha := by
    apply ha.disturbs ((Disturbs.closed c).modify k x f h) (ha.offstage.keepState x _)
    rw [h.1]
  ready k x h ha :=
    ha.disturbs ((Disturbs.closed c).ready k x trivial) (ha.offstage.modify (ha.ne h) _)
  enqueue k x h ha :=
    ha.disturbs ((Disturbs.closed c).enqueue k x h) (ha.offstage.schedEnqueue (ha.offstage.ne h))
  pipe k x f h ha := ha.outside ((Disturbs.closed c).pipe k x f h) rfl rfl rfl rfl rfl
  free k b h ha := ha.outside ((Disturbs.closed c).free k h) rfl rfl rfl rfl rfl
  queued ha x w hw := by
    have hu := ha.undisturbed.unawaited
    exact hw.elim (hu.readers x w) (hu.writers x w)
  index h ha := by
    have hd := (Disturbs.closed c).index h
    rw [h.1] at hd ⊢
    exact ha.outside hd rfl rfl rfl rfl rfl
  write k x f h hr ha := by
    apply ha.disturbs ((Disturbs.closed c).write k x f h hr) (ha.offstage.keep x _)
    intro hx
    rcases hr with hr | hr | hr
    · rw [Awake, hr]
      exact hx
    · simp [Awake, hr]
    · simp [Awake, hr]
  rouse k x h ha :=
    ha.disturbs ((Disturbs.closed c).rouse k x h) (ha.offstage.modify (ha.offstage.ne h) _)
  wait k x m h ha :=
    ha.disturbs ((Disturbs.closed c).wait k x m h) (ha.offstage.keepState x rfl)
  queue k x f hr hw ha := ha.outside ((Disturbs.closed c).queue k x f hr hw) rfl rfl rfl rfl rfl
  tty k f hf h ha := ha.outside ((Disturbs.closed c).tty k f hf h) rfl rfl rfl rfl rfl
  sem k s f h ha := ha.outside ((Disturbs.closed c).sem k s f h) rfl rfl rfl rfl rfl
  handle k i e h ha := ha.outside ((Disturbs.closed c).handle k i e h) rfl rfl rfl rfl rfl
  remove k x ha := ha.disturbs ((Disturbs.closed c).remove k x) (ha.offstage.schedRemove x)
  yield k rsp ha := ha.disturbs ((Disturbs.closed c).yield k rsp) (ha.offstage.yield rsp)
  block k x rsp h ha := by
    have hx := ha.ne (ha.undisturbed.caller x h)
    apply ha.disturbs ((Disturbs.closed c).block k x rsp h)
    exact (ha.offstage.modify hx fun a => { a with state := .blocked, ticksLeft := 0 }).yield rsp
  semQueued ha := ha.undisturbed.unawaited.sems
  ttyQueued ha := ha.undisturbed.unawaited.tty
  parent {k x q} ha hu hw hx he := by
    rw [ha.undisturbed.unawaited.children q hu he] at hw
    rcases hw with hw | hw
    · exact hx hw.symm
    · cases hw
  front h ha := by
    apply ha.disturbs (.front c h)
    have hp := h.procs p
    rw [h.same]
    refine ha.offstage.of_eq ?_ rfl rfl rfl rfl
    rw [Awake, hp]
    exact ha.offstage.asleep
  tick k rsp ha := ha.disturbs (.redispatch c (.schedule k rsp)) (ha.offstage.schedule rsp)
  frame k x f ha :=
    ha.disturbs (.redispatch c (.modify k x fun _ => rfl)) (ha.offstage.keepState x rfl)
  claim k i prio fg name _ hn ha := by
    refine ⟨Disturbs.claim ha.undisturbed hn.1 hn.2 prio fg name, ?_⟩
    refine (ha.offstage.clear i).of_eq ?_ ?_ ?_ ?_ ?_
    · rw [claimed_procs (Ne.symm hn.1)]
      exact ha.offstage.asleep
    all_goals
      unfold claimed
      rw [setParentPid_eq]
      rfl

end TP2Kernel.Proofs
