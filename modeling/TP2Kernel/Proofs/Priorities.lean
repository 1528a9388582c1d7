import TP2Kernel.Proofs.FailedCreation
import TP2Kernel.Proofs.Scheduling

/-!
# Priorities

Aging raises the priority of a queued process, and a dispatch sets it back to the base priority,
which only `proc_nice` writes. A running process that is not idle has the base priority that the
last `proc_nice` left.
-/

namespace TP2Kernel.Proofs
open Function LinkedList FeedbackQueue

variable {s : Scope} {k k' : Kernel} {x idle : Slot} {σ σ' : System} {e : Event}

/-- The base priority stays, and who is running was running with the same priority or has its base
priority. -/
structure KeepsRank (a a' : Pcb) : Prop where
  base : a'.basePriority = a.basePriority
  running : a'.state = .running → a'.priority = a'.basePriority ∨
    (a.state = .running ∧ a'.priority = a.priority)

lemma KeepsRank.refl (a : Pcb) : KeepsRank a a := ⟨rfl, fun h => .inr ⟨h, rfl⟩⟩

lemma KeepsRank.trans {a a' a'' : Pcb} (h : KeepsRank a a') (h' : KeepsRank a' a'') :
    KeepsRank a a'' := by
  refine ⟨h'.base.trans h.base, fun hr => ?_⟩
  obtain hb | ⟨hr', hp⟩ := h'.running hr
  · exact .inl hb
  · obtain hb | ⟨hr'', hp'⟩ := h.running hr'
    · exact .inl (by rw [hp, hb, h'.base])
    · exact .inr ⟨hr'', hp.trans hp'⟩

/-- No action but the creation of another process in its slot changes the priorities of a process
that is not moved. -/
lemma act_rank (h : Sound k) (ha : Act s k k') (hm : ¬s.moved x) (hf : s.fresh → (k.procs x).used) :
    (k'.procs x).priority = (k.procs x).priority ∧
      (k'.procs x).basePriority = (k.procs x).basePriority := by
  have hon := not_off h.on
  obtain ⟨q, hq⟩ := h.consistent
  have hclamp : (k.procs x).used → clampPrio (k.procs x).priority = (k.procs x).priority :=
    fun hu => clampPrio_of_inRange (hq.range x hu).1
  cases ha with
  | still h => exact ⟨(h.procs x id).priority, (h.procs x id).basePriority⟩
  | note p _ h hp =>
    by_cases hx : x = p
    · subst hx
      exact ⟨hp.priority, hp.basePriority⟩
    · exact ⟨(h.procs x hx).priority, (h.procs x hx).basePriority⟩
  | kin _ _ _ hp =>
    obtain ⟨parent, e⟩ := hp x
    rw [e]
    exact ⟨rfl, rfl⟩
  | sems _ h =>
    rw [show k'.procs = k.procs from (congrArg Kernel.procs h :)]
    exact ⟨rfl, rfl⟩
  | reap p _ h hp =>
    by_cases hx : x = p
    · subst hx
      exact ⟨hp.priority, hp.basePriority⟩
    · exact ⟨(h.procs x hx).priority, (h.procs x hx).basePriority⟩
  | wake p _ hu =>
    have hw := schedEnqueue_procs (k := k.modify p readied) p hon
    change ((schedEnqueue (k.modify p readied) p).procs x).priority = _ ∧
      ((schedEnqueue (k.modify p readied) p).procs x).basePriority = _
    rw [hw]
    by_cases hx : x = p
    · subst hx
      rw [update_self, Kernel.modify_procs_self]
      exact ⟨hclamp hu, rfl⟩
    · simp [Kernel.modify, hx]
  | retire p _ _ h hp =>
    by_cases hx : x = p
    · subst hx
      exact ⟨hp.priority, hp.basePriority⟩
    · have hs := h.procs x hx
      rw [unready_procs] at hs
      exact ⟨hs.priority, hs.basePriority⟩
  | draft p hfresh hu _ _ h =>
    have hx : x ≠ p := by
      rintro rfl
      exact Bool.false_ne_true (hu.symm.trans (hf hfresh))
    exact ⟨(h.procs x hx).priority, (h.procs x hx).basePriority⟩
  | enter p hu =>
    rw [schedEnqueue_procs p hon]
    by_cases hx : x = p
    · subst hx
      rw [update_self]
      exact ⟨hclamp hu, rfl⟩
    · simp [hx]
  | suspend p =>
    rw [Kernel.modify_procs, unready_procs]
    split
    · rename_i hx
      rw [hx]
      exact ⟨rfl, rfl⟩
    · exact ⟨rfl, rfl⟩
  | rebase p _ hp =>
    have hx : x ≠ p := fun hx => hm (hx ▸ hp)
    rw [Kernel.modify_procs_of_ne _ _ hx]
    exact ⟨rfl, rfl⟩
  | reprio p _ hp =>
    have hx : x ≠ p := fun hx => hm (hx ▸ hp)
    rw [Kernel.modify_procs_of_ne _ _ hx]
    exact ⟨rfl, rfl⟩
  | requeue p prio hp _ _ _ hr =>
    have hx : x ≠ p := fun hx => hm (hx ▸ hp)
    have hself := @schedEnqueue_self ((schedRemove k p).modify p fun c =>
      { c with priority := prio }) p (not_off_schedRemove h.on hr)
    rw [hself.2.2 x hx, Kernel.modify_procs_of_ne _ _ hx, schedRemove_procs]
    exact ⟨rfl, rfl⟩

/-- The priorities stay, and who is running was running. -/
structure SamePriority (a a' : Pcb) : Prop where
  priority : a'.priority = a.priority
  base : a'.basePriority = a.basePriority
  running : a'.state = .running → a.state = .running

lemma SamePriority.keepsRank {a a' : Pcb} (h : SamePriority a a') : KeepsRank a a' :=
  ⟨h.base, fun hr => .inr ⟨h.running hr, h.priority⟩⟩

lemma act_samePriority (h : Sound k) (ha : Act s k k') (hm : ¬s.moved x)
    (hf : s.fresh → (k.procs x).used) : SamePriority (k.procs x) (k'.procs x) := by
  obtain ⟨hp, hb⟩ := act_rank h ha hm hf
  refine ⟨hp, hb, fun hr => ?_⟩
  cases act_fate h ha x with
  | same _ hs => exact hs.symm.trans hr
  | woken _ _ _ _ hs => simp [hs] at hr
  | retired _ _ _ hs => simp [hs] at hr
  | reaped _ hs => simp [hs] at hr
  | drafted _ _ _ _ hs => simp [hs] at hr
  | entered _ _ _ hs => simp [hs] at hr
  | suspended _ _ _ _ hs => simp [hs] at hr

/-- Where processes are created, the process lives and is not terminated. -/
theorem steps_samePriority (h : Sound k) (hs : Steps s k k') (hm : ¬s.moved x)
    (hf : s.fresh → Live k x ∧ ¬s.terminated x) : SamePriority (k.procs x) (k'.procs x) := by
  induction hs with
  | refl => exact ⟨rfl, rfl, id⟩
  | tail hs ha ih =>
    have hu := fun hfr => (steps_live h hs (hf hfr).2 (hf hfr).1).1
    have h1 := act_samePriority (steps_sound h hs) ha hm hu
    exact ⟨h1.priority.trans ih.priority, h1.base.trans ih.base, fun hr => ih.running (h1.running hr)⟩

lemma collect_samePriority (h : Sound k) (hz : Reapables k) (x : Slot) :
    SamePriority (k.procs x) ((collectZombies k).procs x) := by
  obtain ⟨h1, -⟩ := (listed_rule { anything with moved := fun _ => False, fresh := False }).collects
    .idle k (hz.listed fun _ => trivial)
  exact steps_samePriority h h1 id False.elim

/-- What `schedule` may do to a process that is not idle. -/
structure Rescheduled (a a' : Pcb) : Prop extends KeepsRank a a' where
  exited : a.state = .exited → a'.state = .exited

lemma Rescheduled.of_same {a a' : Pcb} (hp : a'.priority = a.priority)
    (hb : a'.basePriority = a.basePriority) (hs : a'.state = a.state) : Rescheduled a a' :=
  ⟨⟨hb, fun hr => .inr ⟨hs.symm.trans hr, hp⟩⟩, fun he => hs.trans he⟩

/-- Putting the previous process back. -/
lemma returnedProcs_rescheduled (k : Kernel) (cur x : Slot) (rsp : Frame) :
    Rescheduled (k.procs x) (returnedProcs k cur rsp x) := by
  by_cases hx : x = cur
  · subst hx
    unfold returnedProcs
    dsimp only
    rw [if_pos rfl]
    split
    · rename_i hr
      refine ⟨⟨rfl, fun hr => ?_⟩, fun he => ?_⟩
      · simp [preempted] at hr
      · simp [hr.2.1] at he
    · split
      · exact .of_same rfl rfl rfl
      · exact .of_same rfl rfl rfl
  · rw [returnedProcs_of_ne rsp hx]
    exact .of_same rfl rfl rfl

/-- A selection sets the priority of the process that it dispatches to the base priority. -/
lemma Selection.rescheduled {cur : Slot} {c : Slot → Pcb} {q : Levels maxPrios Slot}
    {r : Kernel × Option Frame} (h : Selection k cur c q r) (hi : k.idleProc ≠ some x)
    (hr : ∀ l, ∀ p ∈ q l, (c p).state = .ready) : Rescheduled (c x) (r.1.procs x) := by
  cases h with
  | @process l next tail _ top queues left passed rest ready notIdle current pcb =>
    by_cases hx : x = next
    · subst hx
      rw [pcb]
      exact ⟨⟨rfl, fun _ => .inl rfl⟩, fun he => by simp [ready] at he⟩
    · by_cases hq : ∃ l', x ∈ q l'
      · obtain ⟨l', hq⟩ := hq
        have hready := hr l' x hq
        rw [passed l' x hq hx]
        refine ⟨⟨rfl, fun hrun => ?_⟩, fun he => ?_⟩
        · simp [TP2Kernel.Proofs.passed, hready] at hrun
        · simp [hready] at he
      · rw [rest x (fun l' hl => hq ⟨l', hl⟩) hx]
        exact .of_same rfl rfl rfl
  | @idle i _ _ hidle _ _ _ rest =>
    have hx : x ≠ i := fun hx => hi (hx ▸ hidle)
    rw [rest x hx]
    exact .of_same rfl rfl rfl
  | stuck _ _ _ _ rest =>
    rw [rest]
    exact .of_same rfl rfl rfl

lemma schedule_off {rsp : Frame} (h : ¬(k.schedulerEnabled = true ∧ k.current ≠ none)) :
    (schedule k rsp).1 = { k with bailouts := k.bailouts + 1 } := by
  unfold schedule
  split
  · rename_i he hc
    exact absurd ⟨he, by simp [hc]⟩ h
  · rfl

theorem schedule_rescheduled {q : Levels maxPrios Slot} (h : QueuedOff (fun _ => False) k q)
    (hi : k.idleProc ≠ some x) (rsp : Frame) :
    Rescheduled (k.procs x) ((schedule k rsp).1.procs x) := by
  by_cases hon : k.schedulerEnabled = true ∧ k.current ≠ none
  · obtain ⟨he, hcur⟩ := hon
    obtain ⟨cur, hc⟩ := Option.ne_none_iff_exists'.mp hcur
    by_cases hsel : (k.procs cur).state = .running ∧ 1 < (k.procs cur).ticksLeft
    · have hgo : 0 < (saved rsp (k.procs cur)).ticksLeft ∧ (k.procs cur).state = .running := by
        refine ⟨?_, hsel.1⟩
        simp only [saved]
        split
        · omega
        · omega
      rw [schedule_some he hc, if_pos hgo, Kernel.modify_procs]
      split
      · rename_i hx
        rw [hx]
        exact .of_same rfl rfl rfl
      · exact .of_same rfl rfl rfl
    · have h1 := returnedProcs_rescheduled k cur x rsp
      have h2 := (schedule_selection h ⟨he, hc, hsel⟩ rsp).rescheduled hi fun l p hp =>
        (returned_ready h rsp hp).1
      exact ⟨h1.toKeepsRank.trans h2.toKeepsRank, fun hx => h2.exited (h1.exited hx)⟩
  · rw [schedule_off hon]
    exact .of_same rfl rfl rfl

lemma yield_rescheduled (h : Consistent k) (hi : k.idleProc ≠ some x) (rsp : Frame) :
    Rescheduled (k.procs x) ((k.yield rsp).1.procs x) := by
  obtain ⟨q, hq⟩ := h
  obtain ⟨hw, hp⟩ := drained_spec k
  obtain ⟨n, hx⟩ := hp x
  have hid : (drained k).idleProc = k.idleProc := (congrArg Kernel.idleProc hw :)
  have h1 := schedule_rescheduled (queuedOff_drained hq) (x := x) (hid ▸ hi) rsp
  rw [hx] at h1
  exact ⟨⟨h1.base, h1.running⟩, h1.exited⟩

/-- A call that neither moves the process nor takes the processor from it by `proc_nice`. -/
lemma ends_keepsRank {Q : Kernel → Prop} {r : Kernel × Outcome} (h : Kept σ idle) (hx : x ≠ idle)
    (hm : ¬s.moved x) (hf : s.fresh → Live σ.k x ∧ ¬s.terminated x)
    (hd : s.demotes → σ.k.current ≠ some x) (he : Ends Q s σ.k σ.exec r) :
    KeepsRank (σ.k.procs x) (r.1.procs x) := by
  have hsound := h.sane.sound
  have hoff : CurrentOff σ.k := fun c hc =>
    .inl ⟨(h.current c hc).2.used, (h.current c hc).2.running⟩
  have hi : ∀ k1, Steps s σ.k k1 → k1.idleProc ≠ some x := fun k1 h1 he => by
    rw [(steps_static hsound h1).1, h.sane.idleProc, Option.some.injEq] at he
    exact hx he.symm
  cases he with
  | back h1 => exact (steps_samePriority hsound h1 hm hf).keepsRank
  | @leave k1 k2 pc h1 hQ hl =>
    have hc1 := steps_currentOff hsound h1 hoff
    have hc2 := (leaves_consistent (steps_sound hsound h1).consistent hc1 hl).1
    have hk1 := (steps_samePriority hsound h1 hm hf).keepsRank
    have hk2 : KeepsRank (k1.procs x) (k2.procs x) ∧ k2.idleProc ≠ some x := by
      cases hl with
      | yields => exact ⟨.refl _, hi k1 h1⟩
      | blocks w hc =>
        refine ⟨?_, hi k1 h1⟩
        rw [Kernel.modify_procs]
        split
        · rename_i hxc
          rw [hxc]
          exact ⟨rfl, nofun⟩
        · exact .refl _
    exact (hk1.trans hk2.1).trans (yield_rescheduled hc2 hk2.2 _).toKeepsRank
  | @demote k1 p prio hdem h1 hQ hp hc hr hip =>
    have hxp : x ≠ p := fun hxp => hd hdem (hxp ▸ steps_current hsound h1 hc)
    have hu := (steps_currentOff hsound h1 hoff).used p hc hr
    have hc2 := (demoted_consistent (steps_sound hsound h1) hp hc hu hr hip).1
    obtain ⟨hw, -, hpd⟩ := demoted_write (p := p) ((steps_static hsound h1).2.1.trans h.enabled) prio
    have hid : (demoted k1 p prio).idleProc ≠ some x := fun he =>
      hi k1 h1 ((congrArg Kernel.idleProc hw :).symm.trans he)
    have hk2 := (yield_rescheduled hc2 hid ⟨σ.exec, .user⟩).toKeepsRank
    rw [hpd x, if_neg hxp] at hk2
    exact (steps_samePriority hsound h1 hm hf).keepsRank.trans hk2

lemma event_keepsRank (h : Kept σ idle) (hx : x ≠ idle) (ho : Open s) (hd : EventOk s σ e)
    (hm : ¬s.moved x) (hf : s.fresh → Live σ.k x ∧ ¬s.terminated x)
    (hc : s.demotes → σ.k.current ≠ some x) (hs : System.step σ e = some σ') :
    KeepsRank (σ.k.procs x) (σ'.k.procs x) := by
  obtain ⟨-, e1⟩ | ⟨r, he, e1⟩ := step_ends h ho hd hs
  · obtain ⟨q, hq⟩ := h.sane.sound.consistent
    have hi : σ.k.idleProc ≠ some x := fun hi => by
      rw [h.sane.idleProc, Option.some.injEq] at hi
      exact hx hi.symm
    rw [e1]
    exact (schedule_rescheduled hq hi σ.cpu).toKeepsRank
  · rw [e1]
    exact ends_keepsRank h hx hm hf hc he

/-- Blocking a process leaves its priorities as they are. -/
lemma procBlock_keepsRank (h : Kept σ idle) (hx : x ≠ idle) (pid : Int) :
    KeepsRank (σ.k.procs x) ((procBlock σ.k σ.exec pid).1.procs x) := by
  have hsound := h.sane.sound
  obtain ⟨h1, -⟩ := (listed_rule anything).collects .idle σ.k (h.zombies.listed fun _ => trivial)
  have hoff := steps_currentOff hsound h1 fun c hc =>
    .inl ⟨(h.current c hc).2.used, (h.current c hc).2.running⟩
  have hcons := (steps_sound hsound h1).consistent
  have hi : (collectZombies σ.k).idleProc ≠ some x := fun hi => by
    rw [(steps_static hsound h1).1, h.sane.idleProc, Option.some.injEq] at hi
    exact hx hi.symm
  apply (collect_samePriority hsound h.zombies x).keepsRank.trans
  unfold procBlock
  generalize collectZombies σ.k = k0 at hoff hcons hi
  dsimp only
  split
  · exact .refl _
  · rename_i target _
    split
    · exact .refl _
    · split
      · exact .refl _
      · split
        · have hu := unready_procs k0 target
          unfold unready at hu
          dsimp only
          rw [Kernel.modify_procs, hu]
          split
          · rename_i hxt
            rw [hxt]
            exact ⟨rfl, nofun⟩
          · exact .refl _
        · rename_i hc
          have hl : Leaves k0 (k0.modify target fun c =>
              { c with waitingFor := c.waitingFor, state := .blocked, ticksLeft := 0 }) :=
            .blocks (fun c => c.waitingFor) (not_not.mp hc)
          have hy := yield_rescheduled (leaves_consistent hcons hoff hl).1 (x := x) hi
            ⟨σ.exec, .user⟩
          refine .trans ?_ hy.toKeepsRank
          rw [Kernel.modify_procs]
          split
          · rename_i hxt
            rw [hxt]
            exact ⟨rfl, nofun⟩
          · exact .refl _

/-- The event is not a `proc_nice` with the pid of `x`. -/
def LeavesRank (x : Slot) (σ : System) (e : Event) : Prop :=
  ∀ newPrio, e ≠ .syscall (.nice (σ.k.procs x).pid newPrio)

/-- The scope of the events that leave the priorities of `x` alone; those that create a process
terminate none. -/
def ranking (x : Slot) (k : Kernel) (creates : Prop) : Scope :=
  { anything with
    moved := fun p => p ≠ x
    terminated := fun _ => ¬creates
    fresh := creates
    demotes := k.current ≠ some x }

lemma ranking_open (x : Slot) (k : Kernel) (creates : Prop) : Open (ranking x k creates) :=
  ⟨fun _ => trivial, fun _ => trivial, trivial⟩

theorem step_keepsRank (h : Kept σ idle) (hx : x ≠ idle) (hl : Live σ.k x)
    (he : LeavesRank x σ e) (hs : System.step σ e = some σ') :
    KeepsRank (σ.k.procs x) (σ'.k.procs x) := by
  have hgo : ∀ creates, EventOk (ranking x σ.k creates) σ e →
      KeepsRank (σ.k.procs x) (σ'.k.procs x) := fun creates hd =>
    event_keepsRank h hx (ranking_open x σ.k creates) hd (fun hm => hm rfl)
      (fun hf => ⟨hl, fun ht => ht hf⟩) id hs
  cases e with
  | syscall c =>
    cases c with
    | createProcess entry name prio fg => exact hgo True ⟨trivial, fun _ => trivial⟩
    | block pid =>
      simp only [System.step] at hs
      split at hs
      · cases hs
        exact procBlock_keepsRank h hx pid
      · cases hs
    | nice pid newPrio =>
      apply hgo False
      refine ⟨fun p hp => ?_, fun _ => trivial⟩
      have hpx : p ≠ x := by
        rintro rfl
        have hpid := ((Steady.closed none).collectZombies σ.k).names p
        apply he newPrio
        rw [← hpid.1, (procByPid_some hp).2.2]
      refine ⟨hpx, fun hc _ hx => hpx ?_⟩
      rw [collect_current h, hx, Option.some.injEq] at hc
      exact hc.symm
    | kill pid => exact hgo False ⟨fun p _ _ => ⟨id, fun _ _ => id⟩, fun _ => trivial⟩
    | exit code => exact hgo False ⟨fun p _ => ⟨id, fun _ _ => id⟩, fun _ => trivial⟩
    | _ => exact hgo False ⟨trivial, fun _ => trivial⟩
  | key c => exact hgo False fun _ => ⟨fun p _ _ => ⟨id, fun _ _ => id⟩, trivial⟩
  | _ => exact hgo False trivial

/-- A `proc_nice` with the pid of `x`, a live process that is neither idle nor the caller and has
its pid alone. -/
structure Renices (σ : System) (x : Slot) (newPrio : Int) (σ' : System) : Prop where
  live : Live σ.k x
  notIdle : σ.k.idleProc ≠ some x
  other : x ≠ σ.exec
  alone : ∀ y, (σ.k.procs y).used → (σ.k.procs y).pid = (σ.k.procs x).pid → y = x
  step : System.step σ (.syscall (.nice (σ.k.procs x).pid newPrio)) = some σ'

lemma requeue_priority (x : Slot) (he : k.schedulerEnabled = true) {prio : Int}
    (hp : PrioInRange prio) :
    ((schedEnqueue ((schedRemove k x).modify x fun c => { c with priority := prio }) x).procs
        x).priority = prio ∧
      ((schedEnqueue ((schedRemove k x).modify x fun c => { c with priority := prio }) x).procs
        x).basePriority = (k.procs x).basePriority := by
  have he1 : (schedRemove k x).schedulerEnabled = true :=
    (congrArg Kernel.schedulerEnabled (schedRemove_write k x) :).trans he
  have hprocs := schedEnqueue_procs (k := (schedRemove k x).modify x fun c =>
    { c with priority := prio }) x fun hoff => by simp [Kernel.modify, he1] at hoff
  rw [hprocs, update_self, Kernel.modify_procs_self, schedRemove_procs]
  exact ⟨clampPrio_of_inRange hp, rfl⟩

/-- `proc_nice` compares the priority that aging left, and writes both priorities or none. -/
lemma nice_result {n : Int} (h : Kept σ idle) (hp : Positive σ.k) (hr : Renices σ x n σ') :
    ((σ.k.procs x).priority = clampPrio n → (σ'.k.procs x).priority = (σ.k.procs x).priority ∧
      (σ'.k.procs x).basePriority = (σ.k.procs x).basePriority) ∧
    ((σ.k.procs x).priority ≠ clampPrio n →
      (σ'.k.procs x).priority = clampPrio n ∧ (σ'.k.procs x).basePriority = clampPrio n) := by
  have hsound := h.sane.sound
  have hsame := collect_samePriority hsound h.zombies x
  have hs0 := (Steady.closed none).collectZombies σ.k
  have hlive := (collect_live hsound h.zombies x).mpr hr.live
  have hfind : procByPid (collectZombies σ.k) (σ.k.procs x).pid = some x := by
    rw [← (hs0.names x).1]
    apply procByPid_eq hlive.1
    · rw [(hs0.names x).1]
      exact hp.1 x hr.live.1
    · intro y hy he
      rw [(hs0.names x).1, (hs0.names y).1] at he
      exact hr.alone y (hs0.used y hy) he
  have hcur : (collectZombies σ.k).current ≠ some x := by
    rw [collect_current h]
    exact fun hc => hr.other (h.current x hc).1
  have hen : (collectZombies σ.k).schedulerEnabled = true :=
    (closed_current_enabled.collectZombies σ.k h.enabled).1
  have hs := hr.step
  simp only [System.step] at hs
  split at hs
  · cases hs
    change ((σ.k.procs x).priority = clampPrio n →
        ((procNice σ.k σ.exec (σ.k.procs x).pid n).1.procs x).priority = _ ∧
        ((procNice σ.k σ.exec (σ.k.procs x).pid n).1.procs x).basePriority = _) ∧
      ((σ.k.procs x).priority ≠ clampPrio n →
        ((procNice σ.k σ.exec (σ.k.procs x).pid n).1.procs x).priority = _ ∧
        ((procNice σ.k σ.exec (σ.k.procs x).pid n).1.procs x).basePriority = _)
    rw [← hsame.priority, ← hsame.base]
    unfold procNice
    generalize collectZombies σ.k = k0 at hfind hcur hen
    dsimp only
    rw [hfind]
    dsimp only
    constructor
    · intro he
      rw [if_pos he]
      exact ⟨rfl, rfl⟩
    · intro hne
      rw [if_neg hne]
      obtain ⟨k1, hk1⟩ : ∃ k1, k1 = k0.modify x fun c =>
        { c with basePriority := clampPrio n, agingTicks := 0 } := ⟨_, rfl⟩
      have hb : (k1.procs x).basePriority = clampPrio n := by rw [hk1, Kernel.modify_procs_self]
      have hen1 : k1.schedulerEnabled = true := hk1 ▸ hen
      have hcur1 : ¬((k1.procs x).state = .running ∧ k1.current = some x) := by
        rintro ⟨-, hc⟩
        rw [hk1] at hc
        exact hcur hc
      rw [← hk1]
      split
      · obtain ⟨h1, h2⟩ := requeue_priority x hen1 (clampPrio_inRange n)
        exact ⟨h1, h2.trans hb⟩
      · rw [Kernel.modify_procs_self]
        exact ⟨rfl, hb⟩
  · cases hs

/-- The base priority of `x` is `p`, and `x` runs with priority `p` as long as it lives and no
`proc_nice` has its pid. -/
def HasRank (x : Slot) (p : Int) (σ1 : System) : Prop :=
  (σ1.k.procs x).basePriority = p ∧
    ∀ σ, Transition.Reach (· = σ1) System.step
      (fun σ e => SparesCaller σ e ∧ LeavesRank x σ e ∧ Live σ.k x) σ →
      (σ.k.procs x).state = .running → (σ.k.procs x).priority = p

/-- What a process keeps, it keeps in a whole run. -/
lemma hasRank_of_start {p : Int} {σ1 : System} (h : Kept σ1 idle) (hx : x ≠ idle)
    (hb : (σ1.k.procs x).basePriority = p) (hp : (σ1.k.procs x).priority = p) :
    HasRank x p σ1 := by
  refine ⟨hb, fun σ hr => ?_⟩
  have hinv : Kept σ idle ∧ (σ.k.procs x).basePriority = p ∧
      ((σ.k.procs x).state = .running → (σ.k.procs x).priority = p) := by
    apply hr.invariant (I := fun σ => Kept σ idle ∧ (σ.k.procs x).basePriority = p ∧
      ((σ.k.procs x).state = .running → (σ.k.procs x).priority = p))
    · rintro σ rfl
      exact ⟨h, hb, fun _ => hp⟩
    · rintro σ e σ' ⟨hk, hb, hp⟩ ⟨hsp, he, hl⟩ hs
      have hkeep := step_keepsRank hk hx hl he hs
      refine ⟨(step_kept hk hsp hs).1, hkeep.base.trans hb, fun hrun => ?_⟩
      obtain hbase | ⟨hrun', hprio⟩ := hkeep.running hrun
      · rw [hbase, hkeep.base, hb]
      · exact hprio.trans (hp hrun')
  exact hinv.2.2

/-- The shell creates a process of the lowest priority and yields ten times, until aging has
raised the priority of that process to 1. -/
def agedRun (yields : Nat) : List Event :=
  List.replicate 5 .tick ++ .syscall (.createProcess (some 0) (some [97]) 0 false) ::
    List.replicate yields (.syscall .yield)

lemma agedRun_spares (yields : Nat) : ∀ e ∈ agedRun yields, ∀ σ, SparesCaller σ e := by
  intro e he σ q hq
  simp only [agedRun, List.mem_append, List.mem_replicate, List.mem_cons] at he
  obtain ⟨-, rfl⟩ | rfl | ⟨-, rfl⟩ := he
  all_goals exact nomatch hq.2.1

/-- The pid of the process in slot 2 is 3, and no other process has it. -/
def ThirdAlone (σ : System) : Prop :=
  Live σ.k 2 ∧ σ.k.idleProc ≠ some 2 ∧ (2 : Slot) ≠ σ.exec ∧
    (∀ y, (σ.k.procs y).used → (σ.k.procs y).pid = 3 → y = 2) ∧ (σ.k.procs 2).pid = 3

instance (σ : System) : Decidable (ThirdAlone σ) :=
  inferInstanceAs (Decidable (_ ∧ _ ∧ _ ∧ _ ∧ _))

lemma ThirdAlone.renices {n : Int} (h : ThirdAlone σ)
    (hs : System.step σ (.syscall (.nice 3 n)) = some σ') : Renices σ 2 n σ' := by
  obtain ⟨hl, hi, hx, ha, hp⟩ := h
  exact ⟨hl, hi, hx, by rwa [hp], by rwa [hp]⟩

end TP2Kernel.Proofs
