import TP2Kernel.Proofs.Actions

/-!
# Selecting the next process

What `schedule` and `sched_force_yield` do to consistent ready queues: the previous
process is put back, the queues are aged, and the chosen process is taken out, marked
`RUNNING` and made current.
-/

namespace TP2Kernel.Proofs
open Function LinkedList

/-- Two PCBs that differ only in what `schedule` writes. -/
def Resched (c c' : Pcb) : Prop :=
  c' = { c with
    state := c'.state, kframe := c'.kframe, priority := c'.priority
    ticksLeft := c'.ticksLeft, agingTicks := c'.agingTicks }

lemma Resched.refl (c : Pcb) : Resched c c := rfl

lemma Resched.trans {c c' c'' : Pcb} (h : Resched c c') (h' : Resched c' c'') : Resched c c'' := by
  unfold Resched at *
  rw [h', h]

lemma aged_eq (c : Pcb) : aged c = { c with
    priority := if promotes c then c.priority + 1 else c.priority
    agingTicks := if promotes c then 0 else agedTicks c } := by
  unfold aged
  split <;> simp_all

lemma agedProcs_cases (c : Slot → Pcb) (q : Fin maxPrios → List Slot) (p : Slot) :
    ((∃ l, p ∈ q l) ∧ agedProcs c q [0, 1, 2, 3] p = aged (c p)) ∨
      ((∀ l, p ∉ q l) ∧ agedProcs c q [0, 1, 2, 3] p = c p) := by
  have hall : ∀ l : Fin maxPrios, l ∈ [(0 : Fin maxPrios), 1, 2, 3] := by decide
  unfold agedProcs
  simp only [hall, true_and]
  by_cases h : ∃ l, p ∈ q l
  · exact .inl ⟨h, if_pos h⟩
  · exact .inr ⟨fun l hl => h ⟨l, hl⟩, if_neg h⟩

/-- The processes that `schedule` would see with their new priorities. -/
lemma agedProcs_same (c : Slot → Pcb) (q : Fin maxPrios → List Slot) (p : Slot) :
    Resched (c p) (agedProcs c q [0, 1, 2, 3] p) ∧
      (agedProcs c q [0, 1, 2, 3] p).state = (c p).state ∧
      (agedProcs c q [0, 1, 2, 3] p).kframe = (c p).kframe := by
  rcases agedProcs_cases c q p with ⟨-, h⟩ | ⟨-, h⟩
  · rw [h, aged_eq]
    exact ⟨rfl, rfl, rfl⟩
  · rw [h]
    exact ⟨.refl _, rfl, rfl⟩

lemma agedProcs_inRange {c : Slot → Pcb} {p : Slot} (q : Fin maxPrios → List Slot)
    (h : PrioInRange (c p).priority) :
    PrioInRange (agedProcs c q [0, 1, 2, 3] p).priority := by
  rcases agedProcs_cases c q p with ⟨-, e⟩ | ⟨-, e⟩
  · rw [e, aged_eq]
    by_cases hpr : promotes (c p)
    · simp only [hpr, if_true, PrioInRange, minPrio, highestPrio] at h ⊢
      simp only [promotes, Bool.and_eq_true, decide_eq_true_eq] at hpr
      have hlt : (c p).priority < 3 := hpr.1
      omega
    · simpa only [hpr, Bool.false_eq_true, if_false] using h
  · rwa [e]

lemma queued_inRange {k : Kernel} {q : Fin maxPrios → List Slot}
    (h : QueuedOff (fun _ => False) k q) {l : Fin maxPrios} {x : Slot} (hx : x ∈ q l) :
    PrioInRange (k.procs x).priority := (h.range x ((h.ready x).mp ⟨l, hx⟩).2.1).1

lemma mem_agedQueues {k : Kernel} {q : Fin maxPrios → List Slot}
    (h : QueuedOff (fun _ => False) k q) (l : Fin maxPrios) (x : Slot) :
    x ∈ agedQueues k.procs q l ↔
      (∃ l', x ∈ q l') ∧ (agedProcs k.procs q [0, 1, 2, 3] x).priority = ((l : Nat) : Int) := by
  have hall : ∀ l : Fin maxPrios, l ∈ [(0 : Fin maxPrios), 1, 2, 3] := by decide
  simp only [agedQueues, mem_pushAll, keptQueues, promotedList, List.mem_filter, List.mem_flatMap,
    hall, true_and, Bool.not_eq_true']
  constructor
  · rintro (⟨hx, hpr⟩ | ⟨⟨l', hx, -⟩, hl⟩)
    · refine ⟨⟨l, hx⟩, ?_⟩
      rcases agedProcs_cases k.procs q x with ⟨-, e⟩ | ⟨hn, -⟩
      · rw [e, aged_eq]
        simpa only [hpr, Bool.false_eq_true, if_false] using h.place l x hx
      · exact absurd hx (hn l)
    · exact ⟨⟨l', hx⟩, hl ▸ level_val (agedProcs_inRange q (queued_inRange h hx))⟩
  · rintro ⟨⟨l', hx⟩, hl⟩
    by_cases hpr : promotes (k.procs x)
    · exact .inr ⟨⟨l', hx, hpr⟩, level_eq hl⟩
    · left
      rcases agedProcs_cases k.procs q x with ⟨-, e⟩ | ⟨hn, -⟩
      · rw [e, aged_eq] at hl
        simp only [hpr, Bool.false_eq_true, if_false] at hl
        have hll : l = l' := Fin.ext (by have := h.place l' x hx; omega)
        exact ⟨hll ▸ hx, by simpa using hpr⟩
      · exact absurd hx (hn l')

lemma queuedOff_applyAging {k : Kernel} {q : Fin maxPrios → List Slot}
    (h : QueuedOff (fun _ => False) k q) :
    QueuedOff (fun _ => False) (applyAging k) (agedQueues k.procs q) := by
  obtain ⟨h1, h2, h3⟩ := applyAging_queues h.queues
  have hm := mem_agedQueues h
  have hsame := agedProcs_same k.procs q
  have hin : ∀ x, (∃ l, x ∈ agedQueues k.procs q l) ↔ ∃ l, x ∈ q l := fun x =>
    ⟨fun ⟨l, hx⟩ => ((hm l x).mp hx).1, fun ⟨l, hx⟩ =>
      ⟨_, (hm _ x).mpr ⟨⟨l, hx⟩, level_val (agedProcs_inRange q (queued_inRange h hx))⟩⟩⟩
  have hidle : (applyAging k).idleProc = k.idleProc := (congrArg Kernel.idleProc h3 :)
  refine ⟨h1, fun x => ?_, fun l x hx => ?_, fun i hi l hx => ?_, fun x hx => ?_, fun l x hx => ?_⟩
  · rw [h2, hin x, h.ready x, (hsame x).1, (hsame x).2.1]
  · rw [h2]
    exact ((hm l x).mp hx).2
  · obtain ⟨l', hl'⟩ := (hin i).mp ⟨l, hx⟩
    exact h.notIdle i (hidle ▸ hi) l' hl'
  · rw [h2] at hx ⊢
    have hu : (k.procs x).used := by
      rw [(hsame x).1] at hx
      exact hx
    have hb : (agedProcs k.procs q [0, 1, 2, 3] x).basePriority = (k.procs x).basePriority := by
      rw [(hsame x).1]
    rw [hb]
    exact ⟨agedProcs_inRange q (h.range x hu).1, (h.range x hu).2⟩
  · rw [h2, (hsame x).2.2]
    obtain ⟨l', hl'⟩ := (hin x).mp ⟨l, hx⟩
    exact h.frame l' x hl'

/-- Writes of `schedule` with `current` left as it is. -/
def SelectWrite (k k' : Kernel) : Prop :=
  k' = { k with
    queueNext := k'.queueNext, readyHead := k'.readyHead, readyTail := k'.readyTail
    procs := k'.procs, current := k'.current }

lemma SchedWrite.select {k k' : Kernel} (h : SchedWrite k k') : SelectWrite k k' := by
  unfold SchedWrite at h
  unfold SelectWrite
  rw [h]

lemma SelectWrite.trans {k k' k'' : Kernel} (h : SelectWrite k k') (h' : SelectWrite k' k'') :
    SelectWrite k k'' := by
  unfold SelectWrite at *
  rw [h', h]

/-- `next` starts: its saved frame `f` is loaded, and it is `RUNNING` and current. -/
structure Dispatched (k k' : Kernel) (f : Option Frame) (next : Slot) : Prop where
  write : SelectWrite k k'
  current : k'.current = some next
  procs : ∀ p, Resched (k.procs p) (k'.procs p)
  kframe : ∀ p, (k'.procs p).kframe = (k.procs p).kframe
  state : ∀ p, (k'.procs p).state = if p = next then .running else (k.procs p).state
  chosen : k.idleProc = some next ∨ ((k.procs next).used ∧ (k.procs next).state = .ready)
  frame : f = (k.procs next).kframe
  frame_ne : f ≠ none
  consistent : Consistent k'

/-- Nothing can start: no process is `READY` and there is no idle process with a frame. -/
structure Stuck (k k' : Kernel) (f : Option Frame) (prev : Slot) : Prop where
  write : SelectWrite k k'
  current : k'.current = some prev
  halted : f = none
  idle : ∀ i, k.idleProc = some i → (k.procs i).kframe = none
  procs : ∀ p, Resched (k.procs p) (k'.procs p)
  kframe : ∀ p, (k'.procs p).kframe = (k.procs p).kframe
  state : ∀ p, (k'.procs p).state = (k.procs p).state
  consistent : Consistent k'

/-- The PCB of a process that is dispatched. -/
def started (idle : Bool) (c : Pcb) : Pcb :=
  { c with
    state := .running, ticksLeft := timeSliceTicks
    priority := if idle then c.priority else c.basePriority
    agingTicks := if idle then c.agingTicks else 0 }

lemma dispatch_eq (k : Kernel) (next : Slot) :
    dispatch k next = ({ k.modify next (started (decide (k.idleProc = some next))) with
      current := some next }, (k.procs next).kframe) := by
  unfold dispatch
  by_cases hi : k.idleProc = some next
  · simp [Kernel.modify, started, hi]
  · simp [Kernel.modify, started, hi]

lemma queuedOff_dispatch {k : Kernel} {q : Fin maxPrios → List Slot} {next : Slot}
    (h : QueuedOff (· = next) k q) : Consistent (dispatch k next).1 := by
  rw [dispatch_eq]
  have hoff : ∀ x, x ≠ next →
      (k.modify next (started (decide (k.idleProc = some next)))).procs x = k.procs x :=
    fun x hx => k.modify_procs_of_ne _ hx
  have hself := k.modify_procs_self next (started (decide (k.idleProc = some next)))
  refine ⟨q, h.queues.of_eq rfl rfl rfl, fun x => ?_, fun l x hx => ?_, h.notIdle, fun x hx => ?_,
    fun l x hx => ?_⟩
  · rw [h.ready x]
    by_cases hx : x = next
    · subst hx
      simp [started]
    · simp [hoff x hx, hx]
  · have hne : x ≠ next := fun he => h.notMem l (he ▸ hx)
    simp only [hoff x hne]
    exact h.place l x hx
  · by_cases hne : x = next
    · subst hne
      simp only [hself] at hx ⊢
      have hr := h.range x hx
      refine ⟨?_, hr.2⟩
      simp only [started]
      split
      · exact hr.1
      · exact hr.2
    · simp only [hoff x hne] at hx ⊢
      exact h.range x hx
  · have hne : x ≠ next := fun he => h.notMem l (he ▸ hx)
    simp only [hoff x hne]
    exact h.frame l x hx

/-- Starting a process that is in no ready queue any more. -/
lemma dispatched {k k0 : Kernel} {q : Fin maxPrios → List Slot} {next : Slot}
    (hw : SchedWrite k k0) (hp : ∀ p, Resched (k.procs p) (k0.procs p) ∧
      (k0.procs p).state = (k.procs p).state ∧ (k0.procs p).kframe = (k.procs p).kframe)
    (hq : QueuedOff (· = next) k0 q) (hf : (k.procs next).kframe ≠ none)
    (hc : k.idleProc = some next ∨ ((k.procs next).used ∧ (k.procs next).state = .ready)) :
    Dispatched k (dispatch k0 next).1 (dispatch k0 next).2 next := by
  have hcons := queuedOff_dispatch hq
  rw [dispatch_eq] at hcons ⊢
  have hoff : ∀ x, x ≠ next →
      (k0.modify next (started (decide (k0.idleProc = some next)))).procs x = k0.procs x :=
    fun x hx => k0.modify_procs_of_ne _ hx
  have hself := k0.modify_procs_self next (started (decide (k0.idleProc = some next)))
  refine ⟨hw.select.trans rfl, rfl, fun p => ?_, fun p => ?_, fun p => ?_, hc, (hp next).2.2,
    (hp next).2.2 ▸ hf, hcons⟩
  · refine (hp p).1.trans ?_
    by_cases hpn : p = next
    · subst hpn
      simp only [hself]
      rfl
    · simp only [hoff p hpn]
      exact .refl _
  · rw [← (hp p).2.2]
    by_cases hpn : p = next
    · subst hpn
      simp only [hself]
      rfl
    · simp only [hoff p hpn]
  · rw [← (hp p).2.1]
    by_cases hpn : p = next
    · subst hpn
      simp only [hself, if_true]
      rfl
    · simp only [hoff p hpn, hpn, if_false]

/-- `schedule` behind the treatment of the previous process. -/
theorem selectNext_cases {k : Kernel} {q : Fin maxPrios → List Slot}
    (h : QueuedOff (fun _ => False) k q) (prev : Slot) :
    (∃ next, Dispatched k (selectNext k prev).1 (selectNext k prev).2 next) ∨
      Stuck k (selectNext k prev).1 (selectNext k prev).2 prev := by
  obtain ⟨-, h2, h3⟩ := applyAging_queues h.queues
  have ha := queuedOff_applyAging h
  have hsame : ∀ p, Resched (k.procs p) ((applyAging k).procs p) ∧
      ((applyAging k).procs p).state = (k.procs p).state ∧
      ((applyAging k).procs p).kframe = (k.procs p).kframe := fun p => by
    rw [h2]
    exact agedProcs_same k.procs q p
  have hidle : (applyAging k).idleProc = k.idleProc := (congrArg Kernel.idleProc h3 :)
  unfold selectNext
  generalize applyAging k = ka at h2 h3 ha hsame hidle
  rcases pickNext_queues ha.queues with ⟨hp, hk, hempty⟩ | ⟨lv, p, rest, hp, hq, -, hpop⟩
  · have hstuck : (∀ i, k.idleProc = some i → (k.procs i).kframe = none) →
        Stuck k { ka with current := some prev } none prev := fun hi =>
      ⟨h3.select.trans rfl, rfl, rfl, hi, fun p => (hsame p).1, fun p => (hsame p).2.2,
        fun p => (hsame p).2.1, _, ha.of_eq rfl rfl rfl rfl rfl⟩
    simp only [hp, hk, Option.none_or]
    obtain hi | ⟨idle, hi⟩ := Option.eq_none_or_eq_some ka.idleProc
    · rw [← hidle] at hstuck
      simp only [hi, reduceCtorEq, false_implies, implies_true] at hstuck ⊢
      exact .inr (hstuck trivial)
    · by_cases hf : (ka.procs idle).kframe = none
      · rw [← hidle] at hstuck
        simp only [hi, hf, Option.some.injEq, ne_eq, not_true_eq_false, if_false, and_false]
          at hstuck ⊢
        refine .inr (hstuck fun i hi' => ?_)
        rw [← hi', ← (hsame idle).2.2]
        exact hf
      · have hnr : ¬((ka.procs idle).used ∧ (ka.procs idle).state = .ready) := fun hr => by
          obtain ⟨l, hl⟩ := (ha.ready idle).mpr ⟨id, hr⟩
          exact ha.notIdle idle hi l hl
        have hd := dispatched h3 hsame (ha.except hnr) ((hsame idle).2.2 ▸ hf) (.inl (hidle ▸ hi))
        simp only [hi, ne_eq, hf, not_false_eq_true, if_true]
        exact .inl ⟨idle, hd⟩
  · have hm : p ∈ agedQueues k.procs q lv := by simp [hq]
    have hpw := pickNext_write ka
    have hf : (ka.procs p).kframe ≠ none := ha.frame lv p hm
    have hrw : RemoveWrite ka (pickNext ka).1 := by
      rw [hpw]
      rfl
    have hoff := queuedOff_shrink (p := p) ha hrw hpop fun l x => by
        have := mem_erase_queue (ha.queues.queue lv).nodup ha.queues.disjoint hm l x
        rwa [hq, List.erase_cons_head] at this
    have hr := ((ha.ready p).mp ⟨lv, hm⟩).2
    have hu : (k.procs p).used = (ka.procs p).used := by rw [(hsame p).1]
    have hprocs : (pickNext ka).1.procs = ka.procs := hpw.procs_eq
    simp only [hp, Option.some_or, hprocs, ne_eq, hf, not_false_eq_true, if_true]
    refine .inl ⟨p, dispatched (h3.trans hpw.schedWrite) (fun x => ?_) hoff ((hsame p).2.2 ▸ hf)
      (.inr ⟨hu.trans hr.1, (hsame p).2.1 ▸ hr.2⟩)⟩
    rw [hprocs]
    exact hsame x

/-- The PCB of a running process that is put back on the ready queues. -/
def preempted (c : Pcb) : Pcb :=
  { c with state := .ready, ticksLeft := timeSliceTicks, priority := c.basePriority, agingTicks := 0 }

lemma queuedOff_preempt {k : Kernel} {q : Fin maxPrios → List Slot} {p : Slot}
    (h : QueuedOff (fun _ => False) k q) (hr : (k.procs p).state = .running)
    (hu : (k.procs p).used) (hf : (k.procs p).kframe ≠ none) (hi : k.idleProc ≠ some p) :
    ∃ q', QueuedOff (fun _ => False) (qPush (k.modify p preempted) p) q' := by
  have hx := h.except (p := p) (by simp [hr])
  have h1 : QueuedOff (· = p) (k.modify p preempted) q := by
    refine hx.off (off_modify k p preempted (.inl rfl)) fun x he hux => ?_
    subst he
    simp only [Kernel.modify_procs_self] at hux ⊢
    exact ⟨(h.range x hux).2, (h.range x hux).2⟩
  exact queuedOff_push h1 (by simpa [preempted] using hu) (by simp [preempted])
    (by simpa [preempted] using hf) hi

/-- The previous process goes back to the ready queues if it is running and not idle. -/
def requeued (k : Kernel) (cur p : Slot) : Prop :=
  p = cur ∧ (k.procs cur).state = .running ∧ k.idleProc ≠ some cur

instance (k : Kernel) (cur p : Slot) : Decidable (requeued k cur p) :=
  inferInstanceAs (Decidable (_ ∧ _ ∧ _))

/-- The first half of `schedulePrev`. -/
def putBack (k : Kernel) (prev : Slot) : Kernel :=
  if (k.procs prev).state = .running ∧ k.idleProc ≠ some prev then
    qPush (k.modify prev preempted) prev else k

lemma schedulePrev_eq (k : Kernel) (prev : Slot) :
    schedulePrev k prev =
      if ((putBack k prev).procs prev).state = .blocked ∨
          ((putBack k prev).procs prev).state = .exited then
        (putBack k prev).modify prev fun c => { c with ticksLeft := 0 }
      else putBack k prev := rfl

lemma putBack_write (k : Kernel) (prev : Slot) : SchedWrite k (putBack k prev) := by
  unfold putBack
  split
  · have h0 : SchedWrite k (k.modify prev preempted) := rfl
    exact h0.trans (qPush_write (k.modify prev preempted) prev).schedWrite
  · exact .refl k

lemma putBack_procs (k : Kernel) (prev p : Slot) : (putBack k prev).procs p =
    if requeued k prev p then preempted (k.procs p) else k.procs p := by
  unfold putBack requeued
  split
  · rename_i h
    rw [(qPush_write _ _).procs_eq, Kernel.modify_procs]
    by_cases hp : p = prev
    · subst hp
      simp [h]
    · simp [hp]
  · rename_i h
    simp [h]

lemma queuedOff_modify_ticks {X : Slot → Prop} {k : Kernel} {q : Fin maxPrios → List Slot}
    (h : QueuedOff X k q) (p : Slot) (n : Int) :
    QueuedOff X (k.modify p fun c => { c with ticksLeft := n }) q := by
  have hs : ∀ x, SameSched (k.procs x) ((k.modify p fun c => { c with ticksLeft := n }).procs x) := by
    intro x
    rw [Kernel.modify_procs]
    split
    · rename_i hx
      rw [hx]
      rfl
    · exact .refl _
  refine ⟨h.queues.of_eq rfl rfl rfl, fun x => ?_, fun l x hx => ?_, h.notIdle, fun x hx => ?_,
    fun l x hx => ?_⟩
  · rw [(hs x).used, (hs x).state]
    exact h.ready x
  · rw [(hs x).priority]
    exact h.place l x hx
  · rw [(hs x).priority, (hs x).basePriority]
    exact h.range x ((hs x).used ▸ hx)
  · rw [(hs x).kframe]
    exact h.frame l x hx

lemma schedulePrev_spec {k : Kernel} {q : Fin maxPrios → List Slot} {prev : Slot}
    (h : QueuedOff (fun _ => False) k q)
    (hu : (k.procs prev).state = .running → (k.procs prev).used)
    (hf : (k.procs prev).kframe ≠ none) :
    (∃ q', QueuedOff (fun _ => False) (schedulePrev k prev) q') ∧
      SchedWrite k (schedulePrev k prev) ∧
      ∀ p, Resched (k.procs p) ((schedulePrev k prev).procs p) ∧
        ((schedulePrev k prev).procs p).kframe = (k.procs p).kframe ∧
        ((schedulePrev k prev).procs p).state =
          if requeued k prev p then .ready else (k.procs p).state := by
  have hq : ∃ q', QueuedOff (fun _ => False) (putBack k prev) q' := by
    unfold putBack
    split
    · rename_i hr
      exact queuedOff_preempt h hr.1 (hu hr.1) hf hr.2
    · exact ⟨q, h⟩
  have hprocs : ∀ p, Resched (k.procs p) ((putBack k prev).procs p) ∧
      ((putBack k prev).procs p).kframe = (k.procs p).kframe ∧
      ((putBack k prev).procs p).state =
        if requeued k prev p then .ready else (k.procs p).state := by
    intro p
    rw [putBack_procs]
    split
    · exact ⟨rfl, rfl, rfl⟩
    · exact ⟨.refl _, rfl, rfl⟩
  rw [schedulePrev_eq]
  split
  · refine ⟨hq.imp fun q' hq' => queuedOff_modify_ticks hq' prev 0,
      (putBack_write k prev).trans rfl, fun p => ?_⟩
    obtain ⟨h1, h2, h3⟩ := hprocs p
    rw [Kernel.modify_procs]
    split
    · rename_i hp
      subst hp
      exact ⟨h1.trans rfl, h2, h3⟩
    · exact ⟨h1, h2, h3⟩
  · exact ⟨hq, putBack_write k prev, hprocs⟩

/-- `schedule` went from `cur` to `next`: `rsp` is saved for `cur`, and `f` is loaded. -/
structure Switched (k k' : Kernel) (rsp : Frame) (f : Option Frame) (cur next : Slot) : Prop where
  write : SelectWrite k k'
  current : k'.current = some next
  procs : ∀ p, Resched (k.procs p) (k'.procs p)
  kframe : ∀ p, (k'.procs p).kframe = if p = cur then some rsp else (k.procs p).kframe
  state : ∀ p, (k'.procs p).state =
    if p = next then .running else if requeued k cur p then .ready else (k.procs p).state
  chosen : k.idleProc = some next ∨ ((k.procs next).used ∧
    ((k.procs next).state = .ready ∨ (next = cur ∧ (k.procs cur).state = .running)))
  frame : f = (k'.procs next).kframe
  frame_ne : f ≠ none
  consistent : Consistent k'

/-- What a call of `schedule` can do. -/
inductive Scheduled (k : Kernel) (rsp : Frame) : Kernel × Option Frame → Prop
  /-- The return at the first test. -/
  | bail (h : k.schedulerEnabled = false ∨ k.current = none) :
      Scheduled k rsp ({ k with bailouts := k.bailouts + 1 }, none)
  /-- The current process has quantum left. -/
  | stay {cur : Slot} (hc : k.current = some cur) (hr : (k.procs cur).state = .running)
      (ht : 1 < (k.procs cur).ticksLeft) :
      Scheduled k rsp (k.modify cur fun c =>
        { c with kframe := some rsp, ticksLeft := c.ticksLeft - 1 }, none)
  /-- Another process, or the same one again, is selected. -/
  | switch {cur next : Slot} {r : Kernel × Option Frame} (hc : k.current = some cur)
      (h : Switched k r.1 rsp r.2 cur next) : Scheduled k rsp r
  /-- There is nothing to select. -/
  | stuck {cur : Slot} {r : Kernel × Option Frame} (hc : k.current = some cur)
      (hw : SelectWrite k r.1) (hk : r.1.current = some cur) (hf : r.2 = none)
      (hidle : ∀ i, k.idleProc = some i → i ≠ cur ∧ (k.procs i).kframe = none)
      (h : Consistent r.1) : Scheduled k rsp r

lemma queuedOff_modify_frame {k : Kernel} {q : Fin maxPrios → List Slot}
    (h : QueuedOff (fun _ => False) k q) (p : Slot) (f : Pcb → Pcb) (rsp : Frame)
    (hf : ∀ c, ∃ n, f c = { c with kframe := some rsp, ticksLeft := n }) :
    QueuedOff (fun _ => False) (k.modify p f) q := by
  have hs : ∀ x, ((k.modify p f).procs x).used = (k.procs x).used ∧
      ((k.modify p f).procs x).state = (k.procs x).state ∧
      ((k.modify p f).procs x).priority = (k.procs x).priority ∧
      ((k.modify p f).procs x).basePriority = (k.procs x).basePriority ∧
      ((k.procs x).kframe ≠ none → ((k.modify p f).procs x).kframe ≠ none) := by
    intro x
    rw [Kernel.modify_procs]
    split
    · rename_i hx
      obtain ⟨n, e⟩ := hf (k.procs p)
      rw [e, hx]
      exact ⟨rfl, rfl, rfl, rfl, fun _ => by simp⟩
    · exact ⟨rfl, rfl, rfl, rfl, id⟩
  refine ⟨h.queues.of_eq rfl rfl rfl, fun x => ?_, fun l x hx => ?_, h.notIdle, fun x hx => ?_,
    fun l x hx => (hs x).2.2.2.2 (h.frame l x hx)⟩
  · rw [(hs x).1, (hs x).2.1]
    exact h.ready x
  · rw [(hs x).2.2.1]
    exact h.place l x hx
  · rw [(hs x).2.2.1, (hs x).2.2.2.1]
    exact h.range x ((hs x).1 ▸ hx)

/-- The frame and the quantum that `schedule` writes before it decides. -/
def saved (rsp : Frame) (c : Pcb) : Pcb :=
  { c with kframe := some rsp
           ticksLeft := if 0 < c.ticksLeft then c.ticksLeft - 1 else c.ticksLeft }

lemma schedule_some {k : Kernel} {cur : Slot} (he : k.schedulerEnabled = true)
    (hc : k.current = some cur) (rsp : Frame) : schedule k rsp =
      if 0 < (saved rsp (k.procs cur)).ticksLeft ∧ (k.procs cur).state = .running then
        (k.modify cur (saved rsp), none)
      else selectNext (schedulePrev (k.modify cur (saved rsp)) cur) cur := by
  unfold schedule
  simp only [he, hc]
  by_cases ht : 0 < (k.procs cur).ticksLeft
  · simp [Kernel.modify, saved, ht]
  · simp [Kernel.modify, saved, ht]

/-- `schedule` over consistent ready queues. -/
theorem schedule_cases {k : Kernel} {q : Fin maxPrios → List Slot} {rsp : Frame}
    (h : QueuedOff (fun _ => False) k q)
    (hu : ∀ c, k.current = some c → (k.procs c).state = .running → (k.procs c).used) :
    Scheduled k rsp (schedule k rsp) := by
  by_cases he : k.schedulerEnabled = true
  swap
  · have : schedule k rsp = ({ k with bailouts := k.bailouts + 1 }, none) := by
      unfold schedule
      simp [he]
    rw [this]
    exact .bail (.inl (by simpa using he))
  obtain hc | ⟨cur, hc⟩ := Option.eq_none_or_eq_some k.current
  · have : schedule k rsp = ({ k with bailouts := k.bailouts + 1 }, none) := by
      unfold schedule
      simp [hc]
    rw [this]
    exact .bail (.inr hc)
  rw [schedule_some he hc]
  split
  · rename_i ht
    have hlt : 1 < (k.procs cur).ticksLeft := by
      have := ht.1
      simp only [saved] at this
      split at this <;> omega
    have : k.modify cur (saved rsp) = k.modify cur fun c =>
        { c with kframe := some rsp, ticksLeft := c.ticksLeft - 1 } := by
      have h0 : 0 < (k.procs cur).ticksLeft := by omega
      simp [Kernel.modify, saved, h0]
    rw [this]
    exact .stay hc ht.2 hlt
  · have h1 := queuedOff_modify_frame h cur (saved rsp) rsp fun c => ⟨_, rfl⟩
    obtain ⟨k1, hk1⟩ : ∃ k1, k1 = k.modify cur (saved rsp) := ⟨_, rfl⟩
    rw [← hk1] at h1 ⊢
    have hw1 : SchedWrite k k1 := hk1 ▸ rfl
    have hp1 : ∀ p, Resched (k.procs p) (k1.procs p) ∧
        (k1.procs p).kframe = (if p = cur then some rsp else (k.procs p).kframe) ∧
        (k1.procs p).state = (k.procs p).state := fun p => by
      rw [hk1, Kernel.modify_procs]
      split
      · rename_i hp
        subst hp
        exact ⟨rfl, rfl, rfl⟩
      · exact ⟨.refl _, rfl, rfl⟩
    have hused : ∀ p, (k1.procs p).used = (k.procs p).used := fun p => by rw [(hp1 p).1]
    obtain ⟨⟨q2, h2⟩, hw2, hp2⟩ := @schedulePrev_spec k1 q cur h1
      (fun hr => by rw [hused]; exact hu cur hc ((hp1 cur).2.2 ▸ hr)) (by rw [(hp1 cur).2.1]; simp)
    have hre : ∀ p, requeued k1 cur p ↔ requeued k cur p := fun p => by
      have hi : k1.idleProc = k.idleProc := (congrArg Kernel.idleProc hw1 :)
      unfold requeued
      rw [(hp1 cur).2.2, hi]
    have hi2 : (schedulePrev k1 cur).idleProc = k.idleProc :=
      (congrArg Kernel.idleProc (hw1.trans hw2) :)
    have hk2 : ∀ p, ((schedulePrev k1 cur).procs p).kframe =
        if p = cur then some rsp else (k.procs p).kframe := fun p => by
      rw [(hp2 p).2.1, (hp1 p).2.1]
    have hs2 : ∀ p, ((schedulePrev k1 cur).procs p).state =
        if requeued k cur p then .ready else (k.procs p).state := fun p => by
      rw [(hp2 p).2.2, (hp1 p).2.2]
      simp only [hre]
    rcases selectNext_cases h2 cur with ⟨next, hd⟩ | hstuck
    · suffices hsw : Switched k (selectNext (schedulePrev k1 cur) cur).1 rsp
          (selectNext (schedulePrev k1 cur) cur).2 cur next from .switch hc hsw
      refine ⟨(hw1.trans hw2).select.trans hd.write, hd.current,
        fun p => ((hp1 p).1.trans (hp2 p).1).trans (hd.procs p), fun p => ?_, fun p => ?_, ?_,
        ?_, hd.frame_ne, hd.consistent⟩
      · rw [hd.kframe, hk2]
      · rw [hd.state, hs2]
      · rcases hd.chosen with hi | ⟨hun, hst⟩
        · exact .inl (hi2 ▸ hi)
        · rw [hs2] at hst
          have hux : (k.procs next).used := by
            rw [((hp1 next).1.trans (hp2 next).1)] at hun
            exact hun
          right
          refine ⟨hux, ?_⟩
          split at hst
          · rename_i hr
            exact .inr ⟨hr.1, hr.2.1⟩
          · exact .inl hst
      · rw [hd.frame, hd.kframe]
    · refine .stuck hc ((hw1.trans hw2).select.trans hstuck.write) hstuck.current hstuck.halted
        (fun i hi => ?_) hstuck.consistent
      have hn := hstuck.idle i (hi2 ▸ hi)
      rw [hk2] at hn
      split at hn
      · cases hn
      · exact ⟨‹_›, hn⟩

/-- Every outcome of `schedule` leaves consistent ready queues. -/
theorem schedule_consistent {k : Kernel} (rsp : Frame) (h : Consistent k)
    (hu : ∀ c, k.current = some c → (k.procs c).state = .running → (k.procs c).used) :
    Consistent (schedule k rsp).1 := by
  obtain ⟨q, hq⟩ := h
  have hs : Scheduled k rsp (schedule k rsp) := schedule_cases hq hu
  generalize schedule k rsp = r at hs ⊢
  cases hs with
  | bail _ => exact ⟨q, hq.of_eq rfl rfl rfl rfl rfl⟩
  | stay _ _ _ => exact ⟨q, queuedOff_modify_frame hq _ _ rsp fun c => ⟨_, rfl⟩⟩
  | switch _ h => exact h.consistent
  | stuck _ _ _ _ _ h => exact h

/-- The quantum that `sched_force_yield` takes away. -/
def drained (k : Kernel) : Kernel :=
  match k.current with
  | some c => k.modify c fun c => { c with ticksLeft := 0 }
  | none => k

lemma schedForceYield_eq (k : Kernel) (rsp : Frame) :
    schedForceYield k rsp = schedule (drained k) rsp := rfl

lemma drained_spec (k : Kernel) : SchedWrite k (drained k) ∧
    ∀ p, ∃ n, (drained k).procs p = { k.procs p with ticksLeft := n } := by
  unfold drained
  split
  · refine ⟨rfl, fun p => ?_⟩
    rw [Kernel.modify_procs]
    split
    · rename_i c _ hp
      exact ⟨0, by rw [hp]⟩
    · exact ⟨(k.procs p).ticksLeft, rfl⟩
  · exact ⟨.refl k, fun p => ⟨(k.procs p).ticksLeft, rfl⟩⟩

lemma queuedOff_drained {X : Slot → Prop} {k : Kernel} {q : Fin maxPrios → List Slot}
    (h : QueuedOff X k q) : QueuedOff X (drained k) q := by
  unfold drained
  split
  · exact queuedOff_modify_ticks h _ 0
  · exact h

lemma drained_switched {k k' : Kernel} {rsp : Frame} {f : Option Frame} {cur next : Slot}
    (h : Switched (drained k) k' rsp f cur next) : Switched k k' rsp f cur next := by
  obtain ⟨hw, hp⟩ := drained_spec k
  have hsame : ∀ p, Resched (k.procs p) ((drained k).procs p) ∧
      ((drained k).procs p).kframe = (k.procs p).kframe ∧
      ((drained k).procs p).state = (k.procs p).state ∧
      ((drained k).procs p).used = (k.procs p).used := fun p => by
    obtain ⟨n, e⟩ := hp p
    rw [e]
    exact ⟨rfl, rfl, rfl, rfl⟩
  have hi : (drained k).idleProc = k.idleProc := (congrArg Kernel.idleProc hw :)
  have hre : ∀ p, requeued (drained k) cur p ↔ requeued k cur p := fun p => by
    unfold requeued
    rw [(hsame cur).2.2.1, hi]
  refine ⟨hw.select.trans h.write, h.current, fun p => (hsame p).1.trans (h.procs p), fun p => ?_,
    fun p => ?_, ?_, h.frame, h.frame_ne, h.consistent⟩
  · rw [h.kframe p, (hsame p).2.1]
  · rw [h.state p, (hsame p).2.2.1]
    simp only [hre]
  · have := h.chosen
    rwa [hi, (hsame next).2.2.1, (hsame next).2.2.2, (hsame cur).2.2.1] at this

/-- What a call of `sched_force_yield` can do. -/
inductive Yielded (k : Kernel) (rsp : Frame) : Kernel × Option Frame → Prop
  /-- The return at the first test of `schedule`. -/
  | bail (h : k.schedulerEnabled = false ∨ k.current = none) :
      Yielded k rsp ({ drained k with bailouts := k.bailouts + 1 }, none)
  /-- Another process, or the same one again, is selected. -/
  | switch {cur next : Slot} {r : Kernel × Option Frame} (hc : k.current = some cur)
      (h : Switched k r.1 rsp r.2 cur next) : Yielded k rsp r
  /-- There is nothing to select. -/
  | stuck {cur : Slot} {r : Kernel × Option Frame} (hc : k.current = some cur)
      (hw : SelectWrite k r.1) (hk : r.1.current = some cur) (hf : r.2 = none)
      (hidle : ∀ i, k.idleProc = some i → i ≠ cur ∧ (k.procs i).kframe = none)
      (h : Consistent r.1) : Yielded k rsp r

/-- `sched_force_yield` over consistent ready queues never lets the current process stay. -/
theorem schedForceYield_cases {k : Kernel} {q : Fin maxPrios → List Slot} {rsp : Frame}
    (h : QueuedOff (fun _ => False) k q)
    (hu : ∀ c, k.current = some c → (k.procs c).state = .running → (k.procs c).used) :
    Yielded k rsp (schedForceYield k rsp) := by
  obtain ⟨hw, hp⟩ := drained_spec k
  have hcur : (drained k).current = k.current := (congrArg Kernel.current hw :)
  have hs : Scheduled (drained k) rsp (schedule (drained k) rsp) := by
    refine schedule_cases (queuedOff_drained h) fun c hc hr => ?_
    obtain ⟨n, e⟩ := hp c
    rw [e] at hr ⊢
    exact hu c (hcur ▸ hc) hr
  rw [schedForceYield_eq]
  generalize schedule (drained k) rsp = r at hs ⊢
  cases hs with
  | bail hb =>
    have hen : (drained k).schedulerEnabled = k.schedulerEnabled :=
      (congrArg Kernel.schedulerEnabled hw :)
    have hbo : (drained k).bailouts = k.bailouts := (congrArg Kernel.bailouts hw :)
    rw [hbo]
    exact .bail (hen ▸ hcur ▸ hb)
  | stay hc _ ht =>
    rename_i c
    rw [drained, hcur.symm.trans hc] at ht
    simp at ht
  | switch hc h => exact .switch (hcur ▸ hc) (drained_switched h)
  | stuck hc hw' hk hf hi h =>
    have hid : (drained k).idleProc = k.idleProc := (congrArg Kernel.idleProc hw :)
    refine .stuck (hcur ▸ hc) (hw.select.trans hw') hk hf (fun i hi' => ?_) h
    obtain ⟨h1, h2⟩ := hi i (hid ▸ hi')
    obtain ⟨n, e⟩ := hp i
    rw [e] at h2
    exact ⟨h1, h2⟩

/-- Every outcome of `sched_force_yield` leaves consistent ready queues. -/
theorem schedForceYield_consistent {k : Kernel} (rsp : Frame) (h : Consistent k)
    (hu : ∀ c, k.current = some c → (k.procs c).state = .running → (k.procs c).used) :
    Consistent (schedForceYield k rsp).1 := by
  obtain ⟨q, hq⟩ := h
  have hs : Yielded k rsp (schedForceYield k rsp) := schedForceYield_cases hq hu
  generalize schedForceYield k rsp = r at hs ⊢
  cases hs with
  | bail _ => exact ⟨q, (queuedOff_drained hq).of_eq rfl rfl rfl rfl rfl⟩
  | switch _ h => exact h.consistent
  | stuck _ _ _ _ _ h => exact h

end TP2Kernel.Proofs
