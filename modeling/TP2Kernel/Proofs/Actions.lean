import TP2Kernel.Actions
import TP2Kernel.Proofs.Aging

/-!
# Actions keep the ready queues consistent

The frames of `Off` compose, and every action keeps `Sound`: taking a process off the
ready queues and putting it back are the only two ways in which the queues change.
-/

namespace TP2Kernel
open Function LinkedList

namespace SameSched

variable {c c' : Pcb}

lemma refl (c : Pcb) : SameSched c c := rfl

lemma trans {c'' : Pcb} (h : SameSched c c') (h' : SameSched c' c'') : SameSched c c'' := by
  unfold SameSched at *
  rw [h', h]

lemma pid (h : SameSched c c') : c'.pid = c.pid :=
  (congrArg Pcb.pid h :)
lemma priority (h : SameSched c c') : c'.priority = c.priority :=
  (congrArg Pcb.priority h :)
lemma basePriority (h : SameSched c c') : c'.basePriority = c.basePriority :=
  (congrArg Pcb.basePriority h :)
lemma state (h : SameSched c c') : c'.state = c.state :=
  (congrArg Pcb.state h :)
lemma kframe (h : SameSched c c') : c'.kframe = c.kframe :=
  (congrArg Pcb.kframe h :)
lemma kstackBase (h : SameSched c c') : c'.kstackBase = c.kstackBase :=
  (congrArg Pcb.kstackBase h :)
lemma parentPid (h : SameSched c c') : c'.parentPid = c.parentPid :=
  (congrArg Pcb.parentPid h :)
lemma used (h : SameSched c c') : c'.used = c.used :=
  (congrArg Pcb.used h :)

end SameSched

namespace SameQueues

variable {k k' : Kernel}

lemma refl (k : Kernel) : SameQueues k k := rfl

lemma trans {k'' : Kernel} (h : SameQueues k k') (h' : SameQueues k' k'') : SameQueues k k'' := by
  unfold SameQueues at *
  rw [h', h]

lemma queueNext (h : SameQueues k k') : k'.queueNext = k.queueNext :=
  (congrArg Kernel.queueNext h :)
lemma readyHead (h : SameQueues k k') : k'.readyHead = k.readyHead :=
  (congrArg Kernel.readyHead h :)
lemma readyTail (h : SameQueues k k') : k'.readyTail = k.readyTail :=
  (congrArg Kernel.readyTail h :)
lemma schedulerEnabled (h : SameQueues k k') : k'.schedulerEnabled = k.schedulerEnabled :=
  (congrArg Kernel.schedulerEnabled h :)
lemma current (h : SameQueues k k') : k'.current = k.current :=
  (congrArg Kernel.current h :)
lemma idleProc (h : SameQueues k k') : k'.idleProc = k.idleProc :=
  (congrArg Kernel.idleProc h :)
lemma bailouts (h : SameQueues k k') : k'.bailouts = k.bailouts :=
  (congrArg Kernel.bailouts h :)
lemma sems (h : SameQueues k k') : k'.sems = k.sems :=
  (congrArg Kernel.sems h :)
lemma semBuckets (h : SameQueues k k') : k'.semBuckets = k.semBuckets :=
  (congrArg Kernel.semBuckets h :)
lemma semHandles (h : SameQueues k k') : k'.semHandles = k.semHandles :=
  (congrArg Kernel.semHandles h :)

lemma queues (h : SameQueues k k') {q : Fin maxPrios → List Slot} (hq : ReadyQueues k q) :
    ReadyQueues k' q := hq.of_eq h.queueNext h.readyHead h.readyTail

end SameQueues

lemma SameResults.refl (c : Pcb) : SameResults c c := ⟨rfl, rfl, rfl, rfl⟩

lemma SameResults.trans {c c' c'' : Pcb} (h : SameResults c c') (h' : SameResults c' c'') :
    SameResults c c'' :=
  ⟨h'.1.trans h.1, h'.2.1.trans h.2.1, h'.2.2.1.trans h.2.2.1, h'.2.2.2.trans h.2.2.2⟩

lemma Off.refl (X : Slot → Prop) (k : Kernel) : Off X k k where
  queues := rfl
  procs _ _ := rfl
  links _ _ := ⟨rfl, rfl⟩
  results _ _ _ := SameResults.refl _
  waiting _ := .inl rfl
  next := le_rfl
  fails := rfl
  freed _ h := .inl h

lemma Still.trans {k k' k'' : Kernel} (h : Still k k') (h' : Still k' k'') : Still k k'' where
  queues := h.queues.trans h'.queues
  procs p hp := (h.procs p hp).trans (h'.procs p hp)
  links p hp := ⟨(h'.links p hp).1.trans (h.links p hp).1, (h'.links p hp).2.trans (h.links p hp).2⟩
  results p hp he := (h.results p hp he).trans
    (h'.results p hp (by rwa [(h.procs p hp).state]))
  waiting p := by
    rcases h'.waiting p with h2 | h2
    · rw [h2]
      exact h.waiting p
    · exact .inr h2
  next := h.next.trans h'.next
  fails := h'.fails.trans h.fails
  freed a ha := by
    have hn := h.next
    have hn' := h'.next
    rcases h'.freed a ha with h2 | ⟨h2, h3⟩ | ⟨_, hx, _⟩
    · rcases h.freed a h2 with h4 | ⟨h4, h5⟩ | h4
      · exact .inl h4
      · exact .inr (.inl ⟨h4, by omega⟩)
      · exact .inr (.inr h4)
    · exact .inr (.inl ⟨by omega, h3⟩)
    · exact hx.elim

/-- A write to one PCB. -/
lemma off_modify (k : Kernel) (p : Slot) (f : Pcb → Pcb)
    (hw : (f (k.procs p)).waitingFor = (k.procs p).waitingFor ∨ (f (k.procs p)).waitingFor = 0) :
    Off (· = p) k (k.modify p f) := by
  refine ⟨rfl, fun x hx => ?_, fun _ _ => ⟨rfl, rfl⟩, fun x hx _ => ?_, fun x => ?_, le_rfl, rfl,
    fun _ ha => .inl ha⟩
  · rw [Kernel.modify_procs_of_ne _ _ hx]
    exact SameSched.refl _
  · rw [Kernel.modify_procs_of_ne _ _ hx]
    exact SameResults.refl _
  · rw [Kernel.modify_procs]
    split
    · subst_vars
      exact hw
    · exact .inl rfl

namespace QueuedOff

variable {X : Slot → Prop} {k k' : Kernel} {q : Fin maxPrios → List Slot} {p : Slot}

lemma notMem (h : QueuedOff (· = p) k q) (l : Fin maxPrios) : p ∉ q l := fun hm =>
  (h.ready p).mp ⟨l, hm⟩ |>.1 rfl

lemma off (h : QueuedOff X k q) (ho : Off X k k') (hr : ∀ p, X p → (k'.procs p).used →
    PrioInRange (k'.procs p).priority ∧ PrioInRange (k'.procs p).basePriority) :
    QueuedOff X k' q where
  queues := ho.queues.queues h.queues
  ready p := by
    by_cases hp : X p
    · rw [h.ready p]
      simp [hp]
    · rw [h.ready p, (ho.procs p hp).used, (ho.procs p hp).state]
  place l p hm := by
    have hp : ¬X p := ((h.ready p).mp ⟨l, hm⟩).1
    rw [(ho.procs p hp).priority]
    exact h.place l p hm
  notIdle i hi := h.notIdle i (ho.queues.idleProc ▸ hi)
  range p hu := by
    by_cases hp : X p
    · exact hr p hp hu
    · rw [(ho.procs p hp).priority, (ho.procs p hp).basePriority]
      exact h.range p ((ho.procs p hp).used ▸ hu)
  frame l p hm := by
    have hp : ¬X p := ((h.ready p).mp ⟨l, hm⟩).1
    rw [(ho.procs p hp).kframe]
    exact h.frame l p hm

lemma except (h : QueuedOff (fun _ => False) k q)
    (hp : ¬((k.procs p).used ∧ (k.procs p).state = .ready)) : QueuedOff (· = p) k q :=
  { h with
    ready := fun x => by
      rw [h.ready x]
      by_cases hx : x = p
      · subst hx
        simpa using hp
      · simp [hx] }

lemma settle (h : QueuedOff (· = p) k q)
    (hp : ¬((k.procs p).used ∧ (k.procs p).state = .ready)) : QueuedOff (fun _ => False) k q :=
  { h with
    ready := fun x => by
      rw [h.ready x]
      by_cases hx : x = p
      · subst hx
        simpa using hp
      · simp [hx] }

lemma of_eq (h : QueuedOff X k q) (hp : k'.procs = k.procs) (hn : k'.queueNext = k.queueNext)
    (hh : k'.readyHead = k.readyHead) (ht : k'.readyTail = k.readyTail)
    (hi : k'.idleProc = k.idleProc) : QueuedOff X k' q where
  queues := h.queues.of_eq hn hh ht
  ready p := by rw [hp, h.ready p]
  place l p hm := by rw [hp, h.place l p hm]
  notIdle i he := h.notIdle i (hi ▸ he)
  range p hu := by
    rw [hp] at hu ⊢
    exact h.range p hu
  frame l p hm := by
    rw [hp]
    exact h.frame l p hm

end QueuedOff

namespace Proofs

lemma level_eq {prio : Int} {l : Fin maxPrios} (h : prio = ((l : Nat) : Int)) : level prio = l := by
  subst h
  revert l
  decide

lemma level_val {prio : Int} (h : PrioInRange prio) : prio = ((level prio : Nat) : Int) := by
  obtain ⟨h0, h3⟩ := h
  simp only [minPrio, highestPrio] at h0 h3
  have hc : prio = 0 ∨ prio = 1 ∨ prio = 2 ∨ prio = 3 := by omega
  rcases hc with rfl | rfl | rfl | rfl <;> rfl

lemma clampPrio_of_inRange {prio : Int} (h : PrioInRange prio) : clampPrio prio = prio := by
  obtain ⟨h0, h3⟩ := h
  rw [clampPrio, if_neg (by omega), if_neg (by omega)]

lemma clampPrio_inRange (prio : Int) : PrioInRange (clampPrio prio) := by
  unfold clampPrio PrioInRange minPrio highestPrio
  split
  · omega
  · split <;> omega

/-- The first assignment of `sched_remove`. -/
def clearCurrent (k : Kernel) (p : Slot) : Kernel :=
  if k.current = some p then { k with current := none } else k

lemma clearCurrent_write (k : Kernel) (p : Slot) :
    clearCurrent k p = { k with current := (clearCurrent k p).current } := by
  unfold clearCurrent
  split <;> rfl

lemma clearCurrent_procs (k : Kernel) (p : Slot) : (clearCurrent k p).procs = k.procs :=
  (congrArg Kernel.procs (clearCurrent_write k p) :)

lemma clearCurrent_current (k : Kernel) (p : Slot) :
    (clearCurrent k p).current = if k.current = some p then none else k.current := by
  unfold clearCurrent
  split <;> rfl

lemma schedRemove_eq (k : Kernel) (p : Slot) :
    schedRemove k p = if (k.procs p).state = .ready then qRemove (clearCurrent k p) p
      else clearCurrent k p := by
  rw [← clearCurrent_procs k p]
  rfl

/-- What `sched_remove` may write. -/
def RemoveWrite (k k' : Kernel) : Prop :=
  k' = { k with
    queueNext := k'.queueNext, readyHead := k'.readyHead, readyTail := k'.readyTail
    current := k'.current }

lemma schedRemove_write (k : Kernel) (p : Slot) : RemoveWrite k (schedRemove k p) := by
  have hc := clearCurrent_write k p
  have hq := qRemove_write (clearCurrent k p) p
  unfold QueueWrite at hq
  unfold RemoveWrite
  rw [schedRemove_eq]
  split
  · rw [hq, hc]
  · rw [hc]

/-- `sched_remove` leaves the PCBs alone. -/
lemma schedRemove_procs (k : Kernel) (p : Slot) : (schedRemove k p).procs = k.procs :=
  (congrArg Kernel.procs (schedRemove_write k p) :)

lemma schedRemove_current (k : Kernel) (p : Slot) :
    (schedRemove k p).current = if k.current = some p then none else k.current := by
  rw [schedRemove_eq, ← clearCurrent_current]
  split
  · exact (congrArg Kernel.current (qRemove_write _ _) :)
  · rfl

lemma unready_write (k : Kernel) (p : Slot) : RemoveWrite k (unready k p) := by
  unfold unready
  split
  · exact schedRemove_write k p
  · rfl

lemma unready_procs (k : Kernel) (p : Slot) : (unready k p).procs = k.procs :=
  (congrArg Kernel.procs (unready_write k p) :)

lemma qRemove_notMem {k : Kernel} {q : Fin maxPrios → List Slot} {p : Slot}
    (h : ReadyQueues k q) (hp : ∀ l, p ∉ q l) : ReadyQueues (qRemove k p) q := by
  by_cases hr : (k.procs p).priority < minPrio ∨ highestPrio < (k.procs p).priority
  · unfold qRemove
    rw [if_pos hr]
    exact h
  · simp only [minPrio, highestPrio] at hr
    have := qRemove_queues (p := p) h (by omega) (by omega)
    rwa [List.erase_of_not_mem (hp _), update_eq_self] at this

lemma mem_erase_queue {q : Fin maxPrios → List Slot} {l : Fin maxPrios} {p : Slot}
    (hnd : (q l).Nodup) (hd : ∀ l l', l ≠ l' → ∀ p ∈ q l, p ∉ q l') (hp : p ∈ q l)
    (l' : Fin maxPrios) (x : Slot) : x ∈ update q l ((q l).erase p) l' ↔ x ∈ q l' ∧ x ≠ p := by
  by_cases hl : l' = l
  · subst hl
    rw [update_self, hnd.mem_erase_iff, and_comm]
  · rw [update_of_ne hl]
    refine ⟨fun hx => ⟨hx, ?_⟩, And.left⟩
    rintro rfl
    exact hd l l' (Ne.symm hl) x hp hx

/-- The queues without `p`, when they shrink to `q'` and the PCBs stay. -/
lemma queuedOff_shrink {k k' : Kernel} {q q' : Fin maxPrios → List Slot} {p : Slot}
    (h : QueuedOff (fun _ => False) k q) (hw : RemoveWrite k k') (hq : ReadyQueues k' q')
    (hm : ∀ l x, x ∈ q' l ↔ x ∈ q l ∧ x ≠ p) : QueuedOff (· = p) k' q' := by
  have hp : k'.procs = k.procs := (congrArg Kernel.procs hw :)
  have hi : k'.idleProc = k.idleProc := (congrArg Kernel.idleProc hw :)
  refine ⟨hq, fun x => ?_, fun l x hx => ?_, fun i he l hx => ?_, fun x hx => ?_, fun l x hx => ?_⟩
  · rw [hp]
    have := h.ready x
    simp only [not_false_eq_true, true_and] at this
    simp only [hm]
    by_cases hx : x = p
    · simp [hx]
    · simpa [hx] using this
  · rw [hp]
    exact h.place l x ((hm l x).mp hx).1
  · exact h.notIdle i (hi ▸ he) l ((hm l i).mp hx).1
  · rw [hp] at hx ⊢
    exact h.range x hx
  · rw [hp]
    exact h.frame l x ((hm l x).mp hx).1

lemma queuedOff_clearCurrent {X : Slot → Prop} {k : Kernel} {q : Fin maxPrios → List Slot}
    (h : QueuedOff X k q) (p : Slot) : QueuedOff X (clearCurrent k p) q := by
  rw [clearCurrent_write]
  exact h.of_eq rfl rfl rfl rfl rfl

/-- `sched_remove` of a `READY` process. -/
lemma queuedOff_schedRemove {k : Kernel} {q : Fin maxPrios → List Slot}
    (h : QueuedOff (fun _ => False) k q) {p : Slot} (hr : (k.procs p).state = .ready) :
    ∃ q', QueuedOff (· = p) (schedRemove k p) q' := by
  have hq := queuedOff_clearCurrent h p
  have hw := schedRemove_write k p
  rw [schedRemove_eq, if_pos hr] at hw ⊢
  by_cases hu : (k.procs p).used
  · obtain ⟨l, hl⟩ := (h.ready p).mpr ⟨id, hu, hr⟩
    have hprio := h.place l p hl
    obtain ⟨h0, h3⟩ := (h.range p hu).1
    have hrem := qRemove_queues (p := p) hq.queues (by rwa [clearCurrent_procs])
      (by rwa [clearCurrent_procs])
    rw [clearCurrent_procs, level_eq hprio] at hrem
    exact ⟨_, queuedOff_shrink h hw hrem
      (mem_erase_queue (hq.queues.queue l).nodup hq.queues.disjoint hl)⟩
  · have hno : ∀ l, p ∉ q l := fun l hl => hu ((h.ready p).mp ⟨l, hl⟩).2.1
    refine ⟨q, queuedOff_shrink h hw (qRemove_notMem hq.queues hno) fun l x => ⟨fun hx => ?_, And.left⟩⟩
    exact ⟨hx, fun he => hno l (he ▸ hx)⟩

/-- Taking a process off the ready queues, if it is on them. -/
lemma queuedOff_unready {k : Kernel} {q : Fin maxPrios → List Slot}
    (h : QueuedOff (fun _ => False) k q) (p : Slot) :
    ∃ q', QueuedOff (· = p) (unready k p) q' := by
  unfold unready
  split
  · exact queuedOff_schedRemove h ‹_›
  · rename_i hr
    exact ⟨q, h.except fun hu => hr hu.2⟩

/-- `sched_enqueue` once the scheduler is on. -/
lemma schedEnqueue_eq {k : Kernel} {p : Slot}
    (hon : ¬(k.schedulerEnabled = false ∧ k.current = none)) :
    schedEnqueue k p = qPush { k.modify p fun c =>
      { c with priority := clampPrio c.priority, state := .ready, ticksLeft := timeSliceTicks,
               agingTicks := 0 } with queueNext := update k.queueNext p none } p := by
  unfold schedEnqueue
  rw [if_neg hon]
  simp [Kernel.modify]

/-- `q_push` of a process that is `READY` but not queued. -/
lemma queuedOff_push {k : Kernel} {q : Fin maxPrios → List Slot} {p : Slot}
    (h : QueuedOff (· = p) k q) (hu : (k.procs p).used) (hr : (k.procs p).state = .ready)
    (hf : (k.procs p).kframe ≠ none) (hi : k.idleProc ≠ some p) :
    ∃ q', QueuedOff (fun _ => False) (qPush k p) q' := by
  have hpush := qPush_queues h.queues h.notMem
  have hw := qPush_write k p
  have hprocs := hw.procs_eq
  obtain ⟨lv, hlv⟩ : ∃ lv, lv = level (k.procs p).priority := ⟨_, rfl⟩
  rw [← hlv] at hpush
  have hm : ∀ l x, x ∈ update q lv (q lv ++ [p]) l ↔ x ∈ q l ∨ (x = p ∧ l = lv) := by
    intro l x
    by_cases hl : l = lv
    · subst hl
      simp
    · simp [hl]
  have hidle : (qPush k p).idleProc = k.idleProc := (congrArg Kernel.idleProc hw :)
  refine ⟨_, hpush, fun x => ?_, fun l x hx => ?_, fun i he l hx => ?_, fun x hx => ?_,
    fun l x hx => ?_⟩
  · rw [hprocs]
    simp only [hm, exists_or, not_false_eq_true, true_and]
    by_cases hx : x = p
    · subst hx
      simp [hu, hr]
    · have := h.ready x
      simp only [hx, not_false_eq_true, true_and] at this
      simpa [hx] using this
  · rw [hprocs]
    rcases (hm l x).mp hx with hx | ⟨rfl, rfl⟩
    · exact h.place l x hx
    · rw [hlv]
      exact level_val (h.range x hu).1
  · rcases (hm l i).mp hx with hx | ⟨rfl, -⟩
    · exact h.notIdle i (hidle ▸ he) l hx
    · exact hi (hidle ▸ he)
  · rw [hprocs] at hx ⊢
    exact h.range x hx
  · rw [hprocs]
    rcases (hm l x).mp hx with hx | ⟨rfl, -⟩
    · exact h.frame l x hx
    · exact hf

/-- Putting a process on the ready queues. -/
lemma queuedOff_schedEnqueue {k : Kernel} {q : Fin maxPrios → List Slot} {p : Slot}
    (h : QueuedOff (· = p) k q) (hu : (k.procs p).used) (hf : (k.procs p).kframe ≠ none)
    (hi : k.idleProc ≠ some p) (hon : ¬(k.schedulerEnabled = false ∧ k.current = none)) :
    ∃ q', QueuedOff (fun _ => False) (schedEnqueue k p) q' := by
  rw [schedEnqueue_eq hon]
  have h1 : QueuedOff (· = p) (k.modify p fun c =>
      { c with priority := clampPrio c.priority, state := .ready, ticksLeft := timeSliceTicks,
               agingTicks := 0 }) q := by
    refine h.off (off_modify k p _ (.inl rfl)) fun x he hux => ?_
    subst he
    simp only [Kernel.modify_procs_self] at hux ⊢
    exact ⟨clampPrio_inRange _, (h.range x hux).2⟩
  have h2 : QueuedOff (· = p) { k.modify p (fun c =>
      { c with priority := clampPrio c.priority, state := .ready, ticksLeft := timeSliceTicks,
               agingTicks := 0 }) with queueNext := update k.queueNext p none } q :=
    ⟨(h1.queues.update_next h1.notMem none).of_eq rfl rfl rfl, h1.ready, h1.place, h1.notIdle,
      h1.range, h1.frame⟩
  exact queuedOff_push h2 (by simpa [Kernel.modify] using hu) (by simp [Kernel.modify])
    (by simpa [Kernel.modify] using hf) hi

lemma schedEnqueue_write {k : Kernel} (p : Slot)
    (hon : ¬(k.schedulerEnabled = false ∧ k.current = none)) : SchedWrite k (schedEnqueue k p) := by
  rw [schedEnqueue_eq hon]
  exact (qPush_write _ _).schedWrite

lemma schedEnqueue_procs {k : Kernel} (p : Slot)
    (hon : ¬(k.schedulerEnabled = false ∧ k.current = none)) :
    (schedEnqueue k p).procs = update k.procs p { k.procs p with
      priority := clampPrio (k.procs p).priority, state := .ready, ticksLeft := timeSliceTicks
      agingTicks := 0 } := by
  rw [schedEnqueue_eq hon, (qPush_write _ _).procs_eq]
  rfl

lemma not_off {k : Kernel} (h : SchedulerOn k) :
    ¬(k.schedulerEnabled = false ∧ k.current = none) := by
  rintro ⟨h1, h2⟩
  rcases h with h | ⟨c, hc, -⟩
  · simp [h] at h1
  · simp [hc] at h2

/-- What `SchedulerOn` reads does not change for the current process. -/
lemma on_of_eq {k k' : Kernel} (h : SchedulerOn k) (he : k'.schedulerEnabled = k.schedulerEnabled)
    (hc : ∀ c, k.current = some c →
      ((k.procs c).used ∧ (k.procs c).state = .running) ∨ (k.procs c).state = .exited →
      k'.current = some c ∧
        (((k'.procs c).used ∧ (k'.procs c).state = .running) ∨ (k'.procs c).state = .exited)) :
    SchedulerOn k' := by
  rcases h with h | ⟨c, hcur, hst⟩
  · exact .inl (he.trans h)
  · exact .inr ⟨c, hc c hcur hst⟩

section Sound

variable {k k' : Kernel} {p : Slot}

/-- A write that keeps what the scheduler reads in every PCB. -/
lemma sound_of_same (h : Sound k) (hw : SameQueues k k')
    (hp : ∀ x, (k'.procs x).priority = (k.procs x).priority ∧
      (k'.procs x).basePriority = (k.procs x).basePriority ∧
      (k'.procs x).state = (k.procs x).state ∧ (k'.procs x).kframe = (k.procs x).kframe ∧
      (k'.procs x).used = (k.procs x).used) : Sound k' := by
  obtain ⟨q, hq⟩ := h.consistent
  refine ⟨⟨q, hw.queues hq.queues, fun x => ?_, fun l x hx => ?_, fun i hi => ?_, fun x hx => ?_,
    fun l x hx => ?_⟩, fun x hx => ?_, fun i hi => ?_, ?_⟩
  · rw [hq.ready x, (hp x).2.2.1, (hp x).2.2.2.2]
  · rw [(hp x).1]
    exact hq.place l x hx
  · exact hq.notIdle i (hw.idleProc ▸ hi)
  · rw [(hp x).1, (hp x).2.1]
    exact hq.range x ((hp x).2.2.2.2 ▸ hx)
  · rw [(hp x).2.2.2.1]
    exact hq.frame l x hx
  · rw [(hp x).2.2.2.1]
    exact h.frame x ⟨(hp x).2.2.2.2 ▸ hx.1, (hp x).2.2.1 ▸ hx.2⟩
  · rw [(hp i).2.2.1]
    exact h.idle i (hw.idleProc ▸ hi)
  · refine on_of_eq h.on hw.schedulerEnabled fun c hc hst => ⟨hw.current.trans hc, ?_⟩
    rwa [(hp c).2.2.1, (hp c).2.2.2.2]

lemma sound_still (h : Sound k) (hs : Still k k') : Sound k' :=
  sound_of_same h hs.queues fun x =>
    ⟨(hs.procs x id).priority, (hs.procs x id).basePriority, (hs.procs x id).state,
      (hs.procs x id).kframe, (hs.procs x id).used⟩

lemma sound_note (h : Sound k) (ho : Off (· = p) k k')
    (hp : SameSched (k.procs p) (k'.procs p)) : Sound k' := by
  have hall : ∀ x, SameSched (k.procs x) (k'.procs x) := by
    intro x
    by_cases hx : x = p
    · exact hx ▸ hp
    · exact ho.procs x hx
  exact sound_of_same h ho.queues fun x =>
    ⟨(hall x).priority, (hall x).basePriority, (hall x).state, (hall x).kframe, (hall x).used⟩

lemma sound_reap (h : Sound k) (he : (k.procs p).state = .exited) (ho : Off (· = p) k k')
    (hp : SameSched { k.procs p with
      kstackBase := (k'.procs p).kstackBase, used := (k'.procs p).used } (k'.procs p))
    (hu : (k'.procs p).used → (k.procs p).used) : Sound k' := by
  obtain ⟨q, hq⟩ := h.consistent
  have hst : (k'.procs p).state = .exited := hp.state.trans he
  have hq' : QueuedOff (· = p) k' q := by
    refine (hq.except (by simp [he])).off ho fun x hx hux => ?_
    subst hx
    rw [hp.priority, hp.basePriority]
    exact hq.range x (hu hux)
  refine ⟨⟨q, hq'.settle (by simp [hst])⟩, fun x hx => ?_, fun i hi => ?_, ?_⟩
  · by_cases hxp : x = p
    · exact absurd (hxp ▸ hst) hx.2
    · rw [(ho.procs x hxp).kframe]
      exact h.frame x ⟨(ho.procs x hxp).used ▸ hx.1, (ho.procs x hxp).state ▸ hx.2⟩
  · by_cases hip : i = p
    · simp [hip, hst]
    · rw [(ho.procs i hip).state]
      exact h.idle i (ho.queues.idleProc ▸ hi)
  · refine on_of_eq h.on ho.queues.schedulerEnabled fun c hc hcs => ⟨ho.queues.current.trans hc, ?_⟩
    by_cases hcp : c = p
    · exact .inr (hcp ▸ hst)
    · rwa [(ho.procs c hcp).used, (ho.procs c hcp).state]

/-- Putting a process that is neither idle nor current on the ready queues. -/
lemma sound_schedEnqueue {q : Fin maxPrios → List Slot} (hq : QueuedOff (· = p) k q)
    (hf : ∀ x, x ≠ p → Live k x → (k.procs x).kframe ≠ none) (hu : (k.procs p).used)
    (hfp : (k.procs p).kframe ≠ none) (hi : k.idleProc ≠ some p)
    (hidle : ∀ i, k.idleProc = some i → (k.procs i).state ≠ .blocked) (hon : SchedulerOn k)
    (hc : k.current = some p → k.schedulerEnabled = true) : Sound (schedEnqueue k p) := by
  have hoff := not_off hon
  have hw := schedEnqueue_write p hoff
  have hp := schedEnqueue_procs p hoff
  have hcur : (schedEnqueue k p).current = k.current := (congrArg Kernel.current hw :)
  have hid : (schedEnqueue k p).idleProc = k.idleProc := (congrArg Kernel.idleProc hw :)
  have hen : (schedEnqueue k p).schedulerEnabled = k.schedulerEnabled :=
    (congrArg Kernel.schedulerEnabled hw :)
  refine ⟨queuedOff_schedEnqueue hq hu hfp hi hoff, fun x hx => ?_, fun i he => ?_, ?_⟩
  · rw [Live, hp] at hx
    rw [hp]
    by_cases hxp : x = p
    · subst hxp
      simpa using hfp
    · rw [update_of_ne hxp] at hx ⊢
      exact hf x hxp hx
  · rw [hid] at he
    have hip : i ≠ p := fun e => hi (e ▸ he)
    rw [hp, update_of_ne hip]
    exact hidle i he
  · by_cases hen' : k.schedulerEnabled = true
    · exact .inl (hen.trans hen')
    · refine on_of_eq hon hen fun c hcc hcs => ⟨hcur.trans hcc, ?_⟩
      have hcp : c ≠ p := fun e => hen' (hc (e ▸ hcc))
      rwa [hp, update_of_ne hcp]

lemma sound_wake (h : Sound k) (hu : (k.procs p).used) (hb : (k.procs p).state = .blocked) :
    Sound (schedEnqueue (k.modify p fun c =>
      { c with state := .ready, ticksLeft := timeSliceTicks, agingTicks := 0 }) p) := by
  obtain ⟨q, hq⟩ := h.consistent
  have hi : k.idleProc ≠ some p := fun e => h.idle p e hb
  have hoff : ∀ x, x ≠ p → (k.modify p fun c =>
      { c with state := .ready, ticksLeft := timeSliceTicks, agingTicks := 0 }).procs x =
      k.procs x := fun x hx => Kernel.modify_procs_of_ne _ _ hx
  have hqp : QueuedOff (· = p) (k.modify p fun c =>
      { c with state := .ready, ticksLeft := timeSliceTicks, agingTicks := 0 }) q := by
    refine (hq.except (by simp [hb])).off (off_modify k p _ (.inl rfl)) fun x hx _ => ?_
    subst hx
    simpa using hq.range x hu
  refine sound_schedEnqueue hqp (fun x hx hl => ?_) ?_ ?_ hi (fun i he => ?_) ?_ fun hc => ?_
  · rw [Live, hoff x hx] at hl
    rw [hoff x hx]
    exact h.frame x hl
  · simpa using hu
  · simpa using h.frame p ⟨hu, by simp [hb]⟩
  · rw [hoff i fun e => hi (e ▸ he)]
    exact h.idle i he
  · refine on_of_eq h.on rfl fun c hc hcs => ⟨hc, ?_⟩
    have hcp : c ≠ p := by
      rintro rfl
      simp [hb] at hcs
    rwa [hoff c hcp]
  · rcases h.on with hen | ⟨c, hcc, hcs⟩
    · exact hen
    · obtain rfl : c = p := Option.some.inj (hcc.symm.trans hc)
      simp [hb] at hcs

lemma unready_current_of_running {c : Slot} (h : k.current = some c)
    (hc : ((k.procs c).used ∧ (k.procs c).state = .running) ∨ (k.procs c).state = .exited)
    (p : Slot) : (unready k p).current = some c := by
  unfold unready
  split
  · rename_i hr
    have hne : c ≠ p := by
      rintro rfl
      simp [hr] at hc
    rw [schedRemove_current, if_neg (by simpa [h] using hne), h]
  · exact h

lemma sound_retire (h : Sound k) (ho : Off (· = p) (unready k p) k')
    (hp : SameSched { k.procs p with
      state := .exited, parentPid := (k'.procs p).parentPid } (k'.procs p)) : Sound k' := by
  obtain ⟨q, hq⟩ := h.consistent
  obtain ⟨q', hq'⟩ := queuedOff_unready hq p
  have hst : (k'.procs p).state = .exited := hp.state
  have hoff : ∀ x, x ≠ p → SameSched (k.procs x) (k'.procs x) := fun x hx => by
    rw [← unready_procs k p]
    exact ho.procs x hx
  have hidle : k'.idleProc = k.idleProc :=
    ho.queues.idleProc.trans (congrArg Kernel.idleProc (unready_write k p) :)
  have hen : k'.schedulerEnabled = k.schedulerEnabled :=
    ho.queues.schedulerEnabled.trans (congrArg Kernel.schedulerEnabled (unready_write k p) :)
  refine ⟨⟨q', (hq'.off ho fun x hx hu => ?_).settle (by simp [hst])⟩, fun x hx => ?_,
    fun i hi => ?_, ?_⟩
  · subst hx
    rw [hp.priority, hp.basePriority]
    exact hq.range x (hp.used ▸ hu)
  · by_cases hxp : x = p
    · exact absurd (hxp ▸ hst) hx.2
    · rw [(hoff x hxp).kframe]
      exact h.frame x ⟨(hoff x hxp).used ▸ hx.1, (hoff x hxp).state ▸ hx.2⟩
  · by_cases hip : i = p
    · simp [hip, hst]
    · rw [(hoff i hip).state]
      exact h.idle i (hidle ▸ hi)
  · refine on_of_eq h.on hen fun c hc hcs => ⟨?_, ?_⟩
    · rw [ho.queues.current]
      exact unready_current_of_running hc hcs p
    · by_cases hcp : c = p
      · exact .inr (hcp ▸ hst)
      · rwa [(hoff c hcp).used, (hoff c hcp).state]

lemma sound_draft (h : Sound k) (hu : (k.procs p).used = false) (hc : k.current ≠ some p)
    (hi : k.idleProc ≠ some p)
    (ho : Off (· = p) { k with queueNext := update k.queueNext p none } k')
    (hp : (k'.procs p).state = .new)
    (hused : (k'.procs p).used → (k'.procs p).kframe = some ⟨p, .trampoline⟩ ∧
      (0 ≤ (k'.procs p).priority ∧ (k'.procs p).priority ≤ 3) ∧
      (k'.procs p).basePriority = (k'.procs p).priority) : Sound k' := by
  obtain ⟨q, hq⟩ := h.consistent
  have hno : ∀ l, p ∉ q l := fun l hl => by
    have := ((hq.ready p).mp ⟨l, hl⟩).2.1
    simp [hu] at this
  have hq1 : QueuedOff (· = p) { k with queueNext := update k.queueNext p none } q := by
    have h1 := hq.except (p := p) (by simp [hu])
    exact ⟨hq.queues.update_next hno none, h1.ready, h1.place, h1.notIdle, h1.range, h1.frame⟩
  have hoff : ∀ x, x ≠ p → SameSched (k.procs x) (k'.procs x) := fun x hx => ho.procs x hx
  refine ⟨⟨q, (hq1.off ho fun x hx hux => ?_).settle (by simp [hp])⟩, fun x hx => ?_,
    fun i he => ?_, ?_⟩
  · subst hx
    obtain ⟨-, hr, hb⟩ := hused hux
    rw [hb]
    exact ⟨hr, hr⟩
  · by_cases hxp : x = p
    · subst hxp
      simp [(hused hx.1).1]
    · rw [(hoff x hxp).kframe]
      exact h.frame x ⟨(hoff x hxp).used ▸ hx.1, (hoff x hxp).state ▸ hx.2⟩
  · have he' : k.idleProc = some i := ho.queues.idleProc ▸ he
    have hip : i ≠ p := fun e => hi (e ▸ he')
    rw [(hoff i hip).state]
    exact h.idle i he'
  · refine on_of_eq h.on ho.queues.schedulerEnabled fun c hcc hcs => ⟨ho.queues.current.trans hcc, ?_⟩
    have hcp : c ≠ p := fun e => hc (e ▸ hcc)
    rwa [(hoff c hcp).used, (hoff c hcp).state]

lemma sound_enter (h : Sound k) (hu : (k.procs p).used) (hn : (k.procs p).state = .new)
    (hf : (k.procs p).kframe ≠ none) (hi : k.idleProc ≠ some p) : Sound (schedEnqueue k p) := by
  obtain ⟨q, hq⟩ := h.consistent
  refine sound_schedEnqueue (hq.except (by simp [hn])) (fun x _ hl => h.frame x hl) hu hf hi h.idle
    h.on fun hc => ?_
  rcases h.on with hen | ⟨c, hcc, hcs⟩
  · exact hen
  · obtain rfl : c = p := Option.some.inj (hcc.symm.trans hc)
    simp [hn] at hcs

lemma sound_suspend (h : Sound k) (hi : k.idleProc ≠ some p) (hc : k.current ≠ some p)
    (he : (k.procs p).state ≠ .exited) :
    Sound ((unready k p).modify p fun c => { c with state := .blocked, ticksLeft := 0 }) := by
  obtain ⟨q, hq⟩ := h.consistent
  obtain ⟨q', hq'⟩ := queuedOff_unready hq p
  have hpr := unready_procs k p
  have hw := unready_write k p
  have hoff : ∀ x, x ≠ p → ((unready k p).modify p fun c =>
      { c with state := .blocked, ticksLeft := 0 }).procs x = k.procs x := fun x hx => by
    rw [Kernel.modify_procs_of_ne _ _ hx, hpr]
  refine ⟨⟨q', (hq'.off (off_modify _ p (fun c => { c with state := .blocked, ticksLeft := 0 })
    (.inl rfl)) fun x hx hu => ?_).settle (by simp)⟩, fun x hx => ?_, fun i he => ?_, ?_⟩
  · subst hx
    simp only [Kernel.modify_procs_self, hpr] at hu ⊢
    exact hq.range x hu
  · by_cases hxp : x = p
    · subst hxp
      simp only [Live, Kernel.modify_procs_self, hpr] at hx ⊢
      exact h.frame x ⟨hx.1, he⟩
    · rw [Live, hoff x hxp] at hx
      rw [hoff x hxp]
      exact h.frame x hx
  · have he' : k.idleProc = some i := (congrArg Kernel.idleProc hw :).symm.trans he
    have hip : i ≠ p := fun e => hi (e ▸ he')
    rw [hoff i hip]
    exact h.idle i he'
  · refine on_of_eq h.on (congrArg Kernel.schedulerEnabled hw :) fun c hcc hcs => ⟨?_, ?_⟩
    · exact unready_current_of_running hcc hcs p
    · rwa [hoff c fun e => hc (e ▸ hcc)]

/-- Changing the priorities of a process that is not queued, or the base priority of any. -/
lemma sound_reprio (h : Sound k) (f : Pcb → Pcb)
    (hf : ∀ c, (f c).state = c.state ∧ (f c).kframe = c.kframe ∧ (f c).used = c.used)
    (hr : (k.procs p).used → PrioInRange (f (k.procs p)).priority ∧
      PrioInRange (f (k.procs p)).basePriority)
    (hp : (f (k.procs p)).priority = (k.procs p).priority ∨ (k.procs p).state ≠ .ready) :
    Sound (k.modify p f) := by
  obtain ⟨q, hq⟩ := h.consistent
  have hoff : ∀ x, x ≠ p → (k.modify p f).procs x = k.procs x := fun x hx =>
    Kernel.modify_procs_of_ne _ _ hx
  have hst : ∀ x, ((k.modify p f).procs x).state = (k.procs x).state ∧
      ((k.modify p f).procs x).kframe = (k.procs x).kframe ∧
      ((k.modify p f).procs x).used = (k.procs x).used := by
    intro x
    by_cases hx : x = p
    · subst hx
      simpa using hf _
    · rw [hoff x hx]
      exact ⟨rfl, rfl, rfl⟩
  refine ⟨⟨q, hq.queues.of_eq rfl rfl rfl, fun x => ?_, fun l x hx => ?_, hq.notIdle,
    fun x hx => ?_, fun l x hx => ?_⟩, fun x hx => ?_, fun i hi => ?_, ?_⟩
  · rw [hq.ready x, (hst x).1, (hst x).2.2]
  · rw [← hq.place l x hx]
    by_cases hxp : x = p
    · subst hxp
      rw [Kernel.modify_procs_self]
      rcases hp with hp | hp
      · exact hp
      · exact absurd ((hq.ready x).mp ⟨l, hx⟩).2.2 hp
    · rw [hoff x hxp]
  · rw [(hst x).2.2] at hx
    by_cases hxp : x = p
    · subst hxp
      rw [Kernel.modify_procs_self]
      exact hr hx
    · rw [hoff x hxp]
      exact hq.range x hx
  · rw [(hst x).2.1]
    exact hq.frame l x hx
  · rw [(hst x).2.1]
    exact h.frame x ⟨(hst x).2.2 ▸ hx.1, (hst x).1 ▸ hx.2⟩
  · rw [(hst i).1]
    exact h.idle i hi
  · refine on_of_eq h.on rfl fun c hc hcs => ⟨hc, ?_⟩
    rwa [(hst c).1, (hst c).2.2]

lemma sound_requeue (h : Sound k) {prio : Int} (h0 : 0 ≤ prio) (h3 : prio ≤ 3)
    (hu : (k.procs p).used) (hr : (k.procs p).state = .ready) :
    Sound (schedEnqueue ((schedRemove k p).modify p fun c => { c with priority := prio }) p) := by
  obtain ⟨q, hq⟩ := h.consistent
  obtain ⟨l, hl⟩ := (hq.ready p).mpr ⟨id, hu, hr⟩
  obtain ⟨q', hq'⟩ := queuedOff_schedRemove hq hr
  have hpr := schedRemove_procs k p
  have hw := schedRemove_write k p
  have hi : k.idleProc ≠ some p := fun e => hq.notIdle p e l hl
  have hidle : (schedRemove k p).idleProc = k.idleProc := (congrArg Kernel.idleProc hw :)
  have hoff : ∀ x, x ≠ p → ((schedRemove k p).modify p fun c => { c with priority := prio }).procs x
      = k.procs x := fun x hx => by
    rw [Kernel.modify_procs_of_ne _ _ hx, hpr]
  have hself : ((schedRemove k p).modify p fun c => { c with priority := prio }).procs p =
      { k.procs p with priority := prio } := by
    rw [Kernel.modify_procs_self, hpr]
  have hq2 : QueuedOff (· = p)
      ((schedRemove k p).modify p fun c => { c with priority := prio }) q' := by
    refine hq'.off (off_modify _ p _ (.inl rfl)) fun x hx _ => ?_
    subst hx
    rw [hself]
    exact ⟨⟨h0, h3⟩, (hq.range x hu).2⟩
  have hon : ∀ c, k.current = some c → ((k.procs c).used ∧ (k.procs c).state = .running) ∨
      (k.procs c).state = .exited → c ≠ p := by
    rintro c - hcs rfl
    simp [hr] at hcs
  refine sound_schedEnqueue hq2 (fun x hx hl => ?_) ?_ ?_ ?_ (fun i he => ?_) ?_ fun hc => ?_
  · rw [Live, hoff x hx] at hl
    rw [hoff x hx]
    exact h.frame x hl
  · rw [hself]
    exact hu
  · rw [hself]
    exact h.frame p ⟨hu, by simp [hr]⟩
  · exact fun e => hi (hidle ▸ e)
  · have he' : k.idleProc = some i := hidle.symm.trans he
    rw [hoff i fun e => hi (e ▸ he')]
    exact h.idle i he'
  · refine on_of_eq h.on (congrArg Kernel.schedulerEnabled hw :) fun c hc hcs => ⟨?_, ?_⟩
    · have hcp := hon c hc hcs
      show (schedRemove k p).current = some c
      rw [schedRemove_current, if_neg (by simpa [hc] using hcp), hc]
    · rwa [hoff c (hon c hc hcs)]
  · have hc' : (schedRemove k p).current = some p := hc
    rw [schedRemove_current] at hc'
    split at hc'
    · cases hc'
    · exact absurd hc' ‹_›

/-- Every action keeps the ready queues consistent with the process table. -/
theorem act_sound {s : Scope} (h : Sound k) (ha : Act s k k') : Sound k' := by
  cases ha with
  | still hs => exact sound_still h hs
  | note p _ ho hp => exact sound_note h ho hp
  | kin _ hw _ hp =>
    refine sound_of_same h hw fun x => ?_
    obtain ⟨parent, hx⟩ := hp x
    rw [hx]
    exact ⟨rfl, rfl, rfl, rfl, rfl⟩
  | sems _ hw =>
    rw [hw]
    obtain ⟨q, hq⟩ := h.consistent
    exact ⟨⟨q, hq.of_eq rfl rfl rfl rfl rfl⟩, h.frame, h.idle, h.on⟩
  | reap p he ho hp hu => exact sound_reap h he ho hp hu
  | wake p _ hu hb => exact sound_wake h hu hb
  | retire p _ _ ho hp => exact sound_retire h ho hp
  | draft p _ hu hc hi ho _ hp hused =>
    exact sound_draft h hu hc hi ho hp fun hx => ⟨(hused hx).1, (hused hx).2.1, (hused hx).2.2.1⟩
  | enter p hu hn hf hi => exact sound_enter h hu hn hf hi
  | suspend p _ hi hc he => exact sound_suspend h hi hc he
  | rebase p prio _ h0 h3 =>
    obtain ⟨q, hq⟩ := h.consistent
    exact sound_reprio h _ (fun _ => ⟨rfl, rfl, rfl⟩)
      (fun hu => ⟨(hq.range p hu).1, h0, h3⟩) (.inl rfl)
  | reprio p prio _ h0 h3 hn =>
    obtain ⟨q, hq⟩ := h.consistent
    exact sound_reprio h _ (fun _ => ⟨rfl, rfl, rfl⟩)
      (fun hu => ⟨⟨h0, h3⟩, (hq.range p hu).2⟩) (.inr hn)
  | requeue p prio _ h0 h3 hu hn => exact sound_requeue h h0 h3 hu hn

theorem steps_sound {s : Scope} (h : Sound k) (hs : Steps s k k') : Sound k' := by
  induction hs with
  | refl => exact h
  | tail _ ha ih => exact act_sound ih ha

end Sound

lemma reaping_sub (s : Scope) : s.reaping.Sub s :=
  ⟨fun _ h => h, fun _ h => h.elim, fun _ h => h.elim, fun _ h => h.elim, False.elim, False.elim,
    False.elim, False.elim⟩

lemma Act.mono {s s' : Scope} (hs : s.Sub s') {k k' : Kernel} (h : Act s k k') : Act s' k k' := by
  cases h with
  | still h => exact .still h
  | note p hp ho h hl hf => exact .note p (hs.noted p hp) ho h hl hf
  | kin hk h hh hp hl => exact .kin (hs.kin hk) h hh hp hl
  | sems hk h hn hf hst => exact .sems (hs.sems hk) h hn hf hst
  | reap p he h hp hu hl hst => exact .reap p he h hp hu hl hst
  | wake p hp hu hb => exact .wake p (hs.woken p hp) hu hb
  | retire p hp he h h' hl hst => exact .retire p (hs.terminated p hp) he h h' hl hst
  | draft p hf hu hc hi h hl hp hused hfree =>
    exact .draft p (hs.fresh hf) hu hc hi h hl hp hused hfree
  | enter p hu hn hf hi => exact .enter p hu hn hf hi
  | suspend p ht hi hc he => exact .suspend p (hs.moved p ht) hi hc he
  | rebase p prio ht h0 h3 => exact .rebase p prio (hs.moved p ht) h0 h3
  | reprio p prio ht h0 h3 hn => exact .reprio p prio (hs.moved p ht) h0 h3 hn
  | requeue p prio ht h0 h3 hu hn => exact .requeue p prio (hs.moved p ht) h0 h3 hu hn

lemma Steps.mono {s s' : Scope} (hs : s.Sub s') {k k' : Kernel} (h : Steps s k k') :
    Steps s' k k' := by
  induction h with
  | refl => exact .refl
  | tail _ ha ih => exact ih.tail (Act.mono hs ha)

end Proofs

end TP2Kernel
