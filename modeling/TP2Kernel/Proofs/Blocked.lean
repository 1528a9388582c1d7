import TP2Kernel.Proofs.Asleep
import TP2Kernel.Proofs.Terminal

/-!
# Blocked processes

A process that `proc_block` blocks sleeps until `sys_unblock` is called for it, unless it was
already waiting for something when it was blocked: then the end of that wait makes it ready.
-/

namespace TP2Kernel.Proofs
open Function LinkedList

variable {c : Option Slot} {k k' : Kernel} {n : Int} {p idle : Slot} {σ σ' : System} {e : Event}

/-- Slots in use have positive pids. -/
def Positive (k : Kernel) : Prop := (∀ p, (k.procs p).used → 0 < (k.procs p).pid) ∧ 0 < k.nextPid

lemma Positive.steady (h : Positive k) (hs : Steady k k') : Positive k' := by
  refine ⟨fun p hp => ?_, ?_⟩
  · rw [(hs.names p).1]
    exact h.1 p (hs.used p hp)
  · rw [hs.nextPid]
    exact h.2

lemma positive_loose (c : Option Slot) : EventLoose c fun k k' => Positive k → Positive k' where
  toCallLoose := (Steady.loose c).stable fun hs hp => hp.steady hs
  front h hp := by
    refine ⟨fun x hx => ?_, h.next ▸ hp.2⟩
    rw [h.procs x] at hx ⊢
    exact hp.1 x hx
  claim k i prio fg name _ hp := by
    have hself : ((claimed k i prio fg name).procs i).pid = k.nextPid ∧
        (claimed k i prio fg name).nextPid = bumpPid k.nextPid := by
      unfold claimed
      rw [setParentPid_eq]
      simp [Kernel.modify, initPcb]
    refine ⟨fun x hx => ?_, hself.2 ▸ bumpPid_pos _⟩
    by_cases hxi : x = i
    · rw [hxi, hself.1]
      exact hp.2
    · rw [claimed_procs hxi] at hx ⊢
      exact hp.1 x hx

/-- A relation that holds of the writes of an event holds between the states around it. -/
lemma Kept.step_closed {I : Kernel → Prop} {W : Int → Prop} {N : Slot → Int → Prop}
    {R : Kernel → Kernel → Prop} (h : Kept σ idle) (hR : EventClosed σ.k.current I W N R)
    (hp : Positive σ.k) (hW : ∀ pid, e = .syscall (.unblock pid) → W pid)
    (hN : ∀ entry name prio fg, e = .syscall (.createProcess (some entry) (some name) prio fg) →
      ∀ i, ((collectZombies σ.k).procs i).used = false → N i σ.k.nextPid)
    (hs : System.step σ e = some σ') : R σ.k σ'.k :=
  hR.step rfl (collect_current h)
    (.inr ⟨fun q hq => (hp.1 q hq).ne', fun q hq => (h.current q hq).2.used⟩) hW hN hs

lemma step_positive (h : Kept σ idle) (hp : Positive σ.k) (hs : System.step σ e = some σ') :
    Positive σ'.k :=
  h.step_closed (positive_loose σ.k.current).closed hp (fun _ _ => trivial)
    (fun _ _ _ _ _ _ _ => trivial) hs hp

theorem reach_positive (h : Transition.Reach Boot System.step SparesCaller σ) : Positive σ.k := by
  have hinv : (∃ idle, Kept σ idle) ∧ Positive σ.k := by
    apply h.invariant (I := fun σ => (∃ idle, Kept σ idle) ∧ Positive σ.k)
    · intro σ hb
      obtain ⟨idle, hk, -⟩ := boot_kept hb
      obtain ⟨-, -, -, hn⟩ := boot_change hb
      exact ⟨⟨idle, hk⟩, hn.pos, hn.next⟩
    · rintro σ e σ' ⟨⟨idle, hk⟩, hp⟩ hsp hs
      exact ⟨⟨idle, (step_kept hk hsp hs).1⟩, step_positive hk hp hs⟩
  exact hinv.2

/-- A process that is in no ready queue is found by no scheduling. -/
lemma offstage_of_queues {q : Fin maxPrios → List Slot} (h : ReadyQueues k q) (hp : ∀ l, p ∉ q l)
    (ha : ¬Awake (k.procs p)) (hc : k.current ≠ some p) (hi : k.idleProc ≠ some p) :
    Offstage p k := by
  refine ⟨fun x => ∃ l, x ∈ q l, ha, hc, hi, ⟨fun l x hx => ?_, fun a b ha hn => ?_⟩, ?_⟩
  · have hq := (h.queue l).chain
    rw [hx] at hq
    obtain ⟨l', e, -⟩ := isChain_head_some hq
    exact ⟨l, by simp [e]⟩
  · obtain ⟨l, ha⟩ := ha
    exact ⟨l, isChain_next_mem (h.queue l).chain ha hn⟩
  · rintro ⟨l, hl⟩
    exact hp l hl

/-- A `proc_block` that returns 0 for another process puts it to sleep. -/
lemma procBlock_offstage {exec : Slot} (hq : Consistent (collectZombies k)) (hn : 0 < n)
    (hp : procByPid (collectZombies k) n = some p)
    (he : ((collectZombies k).procs p).state ≠ .exited) (hc : (collectZombies k).current ≠ some p)
    (hr : (procBlock k exec n).2 = .ret 0) : Offstage p (procBlock k exec n).1 := by
  unfold procBlock at hr ⊢
  generalize collectZombies k = k0 at hq hp he hc hr ⊢
  obtain ⟨q, hq⟩ := hq
  dsimp only at hr ⊢
  rw [if_pos hn, hp] at hr ⊢
  dsimp only at hr ⊢
  by_cases hi : k0.idleProc = some p
  · rw [if_pos (.inl hi)] at hr
    cases hr
  · rw [if_neg (not_or.mpr ⟨hi, he⟩)]
    by_cases hb : (k0.procs p).state = .blocked
    · rw [if_pos hb]
      have hq' := hq.except (p := p) fun hu => by simp [hb] at hu
      exact offstage_of_queues hq'.queues hq'.notMem (by simp [Awake, hb]) hc hi
    · rw [if_neg hb, if_pos hc]
      obtain ⟨q', hq'⟩ := queuedOff_unready hq p
      have hw := unready_write k0 p
      have hcur : (unready k0 p).current ≠ some p := by
        unfold unready
        split
        · rw [schedRemove_current]
          split
          · intro h
            cases h
          · exact hc
        · exact hc
      have hidle : (unready k0 p).idleProc = k0.idleProc := (congrArg Kernel.idleProc hw :)
      refine offstage_of_queues (hq'.queues.of_eq rfl rfl rfl) hq'.notMem ?_ hcur ?_
      · simp [Awake]
      · exact fun e => hi (hidle.symm.trans e)

lemma block_asleep (h : Kept σ idle) (hp : Positive σ.k) (hb : BlocksOther σ n p σ')
    (ho : OnlyBlocked σ.k n p) : Asleep σ.k.current n p σ'.k := by
  have hsound := h.sane.sound
  obtain ⟨h1, -⟩ := (listed_rule anything).collects .idle σ.k (h.zombies.listed fun _ => trivial)
  have hcur := collect_current h
  have hlive := (collect_live hsound h.zombies p).mpr hb.live
  have hs0 := (Steady.closed none).collectZombies σ.k
  have hpid : ((collectZombies σ.k).procs p).pid = n := (hs0.names p).1.trans hb.named
  have hn : 0 < n := hb.named ▸ hp.1 p hb.live.1
  have hfind : procByPid (collectZombies σ.k) n = some p := by
    rw [← hpid]
    apply procByPid_eq hlive.1 (by rwa [hpid])
    intro q hq he
    rw [hpid, (hs0.names q).1] at he
    exact ho.1 q (hs0.used q hq) he
  have hne : ∀ q, σ.k.current = some q → q ≠ p := by
    rintro q hq rfl
    exact hb.other (h.current q hq).1
  have hundis : Undisturbed σ.k.current n p σ.k := by
    refine ⟨hb.named, ho.1, ho.2, fun q hq he => ?_⟩
    exact hne q hq (ho.1 q (h.current q hq).2.used he)
  have hs := hb.step
  simp only [System.step] at hs
  split at hs
  · cases hs
    have hd := (Disturbs.closed σ.k.current).procBlock hcur σ.exec n
    refine ⟨hd.undisturbed hundis, ?_⟩
    apply procBlock_offstage (steps_sound hsound h1).consistent hn hfind hlive.2 _ hb.ret
    rw [hcur]
    exact fun hc => hne p hc rfl
  · cases hs

lemma asleep_step (h : Kept σ idle) (hp : Positive σ.k) (hl : Live σ.k p) (ha : Asleep none n p σ.k)
    (he : LeavesBlocked n σ e) (hs : System.step σ e = some σ') : Asleep none n p σ'.k := by
  have ha' : Asleep σ.k.current n p σ.k := by
    refine ⟨⟨ha.undisturbed.pid, ha.undisturbed.alone, ha.undisturbed.unawaited, fun q hq he => ?_⟩,
      ha.offstage⟩
    exact ha.offstage.current_ne hq (ha.undisturbed.alone q (h.current q hq).2.used he)
  have h1 := h.step_closed (asleep_closed σ.k.current n p) hp (fun pid e hpid => ?_) ?_ hs ha'
  · have hu := h1.undisturbed
    exact ⟨⟨hu.pid, hu.alone, hu.unawaited, nofun⟩, h1.offstage⟩
  · exact he.1 (by rw [e, hpid])
  · intro entry name prio fg e i hi
    refine ⟨?_, he.2 _ _ _ _ e⟩
    rintro rfl
    have hlive := (collect_live h.sane.sound h.zombies i).mpr hl
    rw [hlive.1] at hi
    cases hi

/-- A process that was not waiting when it was blocked stays blocked while it lives, in every run
without a `sys_unblock` for it. -/
theorem blocked_stays (h : Transition.Reach
    (fun σ1 => ∃ σ0, Transition.Reach Boot System.step SparesCaller σ0 ∧ BlocksOther σ0 n p σ1 ∧
      OnlyBlocked σ0.k n p) System.step
    (fun σ e => SparesCaller σ e ∧ LeavesBlocked n σ e ∧ Live σ.k p) σ) (hl : Live σ.k p) :
    (σ.k.procs p).state = .blocked := by
  have hinv : (∃ idle, Kept σ idle) ∧ Positive σ.k ∧ Asleep none n p σ.k := by
    apply h.invariant (I := fun σ => (∃ idle, Kept σ idle) ∧ Positive σ.k ∧ Asleep none n p σ.k)
    · rintro σ1 ⟨σ0, hr, hb, ho⟩
      obtain ⟨idle, hk⟩ := reach_kept hr
      have hp := reach_positive hr
      have hsp : SparesCaller σ0 (.syscall (.block n)) := fun q hq => nomatch hq.2.1
      have ha := block_asleep hk hp hb ho
      have hu := ha.undisturbed
      exact ⟨⟨idle, (step_kept hk hsp hb.step).1⟩, step_positive hk hp hb.step,
        ⟨hu.pid, hu.alone, hu.unawaited, nofun⟩, ha.offstage⟩
    · rintro σ e σ' ⟨⟨idle, hk⟩, hp, ha⟩ ⟨hsp, he, hl⟩ hs
      exact ⟨⟨idle, (step_kept hk hsp hs).1⟩, step_positive hk hp hs, asleep_step hk hp hl ha he hs⟩
  have ha := hinv.2.2.offstage.asleep
  simp only [Awake, not_and_or, not_not] at ha
  exact ha.resolve_right hl.2

/-- Nobody is queued. -/
structure EmptyQueues (k : Kernel) : Prop where
  sems : ∀ s, (k.sems s).waiters = []
  pipes : ∀ p, (k.pipes p).rWaiters = [] ∧ (k.pipes p).wWaiters = []
  tty : k.tty.waiters = []

lemma EmptyQueues.disturbs (h : EmptyQueues k) (hd : Disturbs none k k') : EmptyQueues k' := by
  refine ⟨fun s => ?_, fun i => ⟨?_, ?_⟩, ?_⟩
  all_goals rw [List.eq_nil_iff_forall_not_mem]; intro w hw
  · simpa [h.sems s] using hd.sems s w hw
  · simpa [(h.pipes i).1] using hd.readers i w hw
  · simpa [(h.pipes i).2] using hd.writers i w hw
  · simpa [h.tty] using hd.tty w hw

lemma emptyQueues_loose : EventLoose none fun k k' => EmptyQueues k → EmptyQueues k' where
  toCallLoose := (Disturbs.loose none).stable fun hd hq => hq.disturbs hd
  front h hq := hq.disturbs (.front none h)
  claim k i prio fg name _ hq := by
    have e : (claimed k i prio fg name).sems = k.sems ∧ (claimed k i prio fg name).pipes = k.pipes ∧
        (claimed k i prio fg name).tty = k.tty := by
      unfold claimed
      rw [setParentPid_eq]
      exact ⟨rfl, rfl, rfl⟩
    exact ⟨e.1 ▸ hq.sems, e.2.1 ▸ hq.pipes, e.2.2 ▸ hq.tty⟩

lemma boot_emptyQueues (h : Boot σ) : EmptyQueues σ.k := by
  obtain ⟨fails, idle, hk, hi, -⟩ := h
  rw [hk] at hi
  obtain ⟨k0, ha, e⟩ := bootKernel_cases hi
  have hq : EmptyQueues k0 := by
    refine ⟨fun s => ?_, fun p => ?_, ?_⟩
    · rw [show k0.sems = (kernelZero fails).sems from (congrArg Kernel.sems ha.same :)]
      rfl
    · rw [show k0.pipes = (kernelZero fails).pipes from (congrArg Kernel.pipes ha.same :)]
      exact ⟨rfl, rfl⟩
    · rw [show k0.tty = (kernelZero fails).tty from (congrArg Kernel.tty ha.same :)]
      rfl
  have h1 := emptyQueues_loose.closed.procCreate k0 (some 0) defaultPrio true (some shellName)
    (fun _ _ _ _ _ _ => trivial) hq
  rw [procCreate_some, collectZombies_none ha.zombieHead] at h1
  rw [hk, e]
  exact ⟨h1.sems, h1.pipes, h1.tty⟩

/-- The events in which nobody queues. -/
def Event.queuesNobody : Event → Bool
  | .tick | .syscall .yield | .syscall (.createProcess ..) => true
  | _ => false

lemma step_emptyQueues (hq : EmptyQueues σ.k) (he : Event.queuesNobody e = true)
    (hs : System.step σ e = some σ') : EmptyQueues σ'.k := by
  have hR := emptyQueues_loose.closed
  cases e with
  | tick =>
    simp only [System.step] at hs
    split at hs
    · cases hs
      exact hR.tick σ.k σ.cpu hq
    · cases hs
  | syscall c =>
    simp only [System.step] at hs
    split at hs
    · cases hs
      cases c with
      | yield => exact hR.yield σ.k _ hq
      | createProcess entry name prio fg =>
        exact hR.procCreate σ.k entry prio fg name (fun _ _ _ _ _ _ => trivial) hq
      | _ => cases he
    · cases hs
  | _ => cases he

lemma EmptyQueues.unawaited (h : EmptyQueues k)
    (hc : ∀ p, (k.procs p).used → (k.procs p).pid = n → (k.procs p).waitingFor = 0) :
    Unawaited k n := by
  refine ⟨fun s w hw => ?_, fun p w hw => ?_, fun p w hw => ?_, fun w hw => ?_, hc⟩
  · rw [h.sems s] at hw
    cases hw
  · rw [(h.pipes p).1] at hw
    cases hw
  · rw [(h.pipes p).2] at hw
    cases hw
  · rw [h.tty] at hw
    cases hw

/-- The shell and its child have run. -/
def turnsRun : List Event := childRun ++ [.syscall .yield]

lemma turnsRun_ok : ∀ e ∈ turnsRun, ∀ σ, SparesCaller σ e ∧ Event.queuesNobody e = true := by
  intro e he σ
  simp only [turnsRun, childRun, List.mem_append, List.mem_replicate, List.mem_cons,
    List.not_mem_nil, or_false] at he
  rcases he with (⟨-, rfl⟩ | rfl | rfl) | rfl
  all_goals exact ⟨fun _ h => (by cases h.2.1), rfl⟩

/-- The shell blocks its child and goes on. -/
theorem blocked_stays_sample : ∃ σ0 σ1 σ2 : System,
    Transition.run System.step booted turnsRun = some σ0 ∧ BlocksOther σ0 3 2 σ1 ∧
      System.step σ1 .tick = some σ2 ∧ (σ2.k.procs 2).state = .blocked := by
  have hrun : (Transition.run System.step booted turnsRun).any (fun σ0 =>
      decide (Live σ0.k 2 ∧ (σ0.k.procs 2).pid = 3 ∧
        2 ≠ σ0.exec ∧ (syscall σ0.k σ0.exec (.block 3)).2 = .ret 0 ∧
        ∀ q, (σ0.k.procs q).used → (σ0.k.procs q).pid = 3 → q = 2 ∧
          (σ0.k.procs q).waitingFor = 0) &&
      (System.step σ0 (.syscall (.block 3))).any fun σ1 =>
        decide (Live σ1.k 2) &&
        (System.step σ1 .tick).any fun σ2 =>
          decide (Live σ2.k 2)) = true := by
    decide +kernel
  obtain ⟨σ0, h0, hrun⟩ := (Option.any_eq_true _ _).mp hrun
  rw [Bool.and_eq_true] at hrun
  obtain ⟨σ1, h1, hrun'⟩ := (Option.any_eq_true _ _).mp hrun.2
  rw [Bool.and_eq_true] at hrun'
  obtain ⟨σ2, h2, hl2⟩ := (Option.any_eq_true _ _).mp hrun'.2
  obtain ⟨hl0, hp, hx, hr, hu⟩ := of_decide_eq_true hrun.1
  have hreach := (Transition.Reach.start booted_boot).of_run_ok turnsRun_ok h0
  have hq : EmptyQueues σ0.k := hreach.invariant (fun _ => boot_emptyQueues)
    fun _ _ _ hq ho hs => step_emptyQueues hq ho.2 hs
  have hb : BlocksOther σ0 3 2 σ1 := ⟨hl0, hp, hx, hr, h1⟩
  have ho : OnlyBlocked σ0.k 3 2 :=
    ⟨fun q hq he => (hu q hq he).1, hq.unawaited fun q hq he => (hu q hq he).2⟩
  refine ⟨σ0, σ1, σ2, h0, hb, h2, blocked_stays (n := 3) ?_ (of_decide_eq_true hl2)⟩
  have hstart := hreach.mono fun _ _ h => h.1
  refine .next (.start ⟨σ0, hstart, hb, ho⟩) (e := .tick) ⟨?_, ⟨nofun, nofun⟩, ?_⟩ h2
  · exact fun _ h => nomatch h.2.1
  · exact of_decide_eq_true hrun'.1

/-- The child waits for a semaphore, which is posted while the child is blocked. -/
def postedRun : List Event :=
  childRun ++ [.syscall (.semOpen [97] 0), .syscall (.semWait 1)]

lemma postedRun_spares : ∀ e ∈ postedRun, ∀ σ, SparesCaller σ e := by
  intro e he σ
  simp only [postedRun, childRun, List.mem_append, List.mem_replicate, List.mem_cons,
    List.not_mem_nil, or_false] at he
  rcases he with (⟨-, rfl⟩ | rfl | rfl) | rfl | rfl
  all_goals exact fun _ h => by cases h.2.1

/-- The post makes it ready. -/
theorem blocked_posted : ∃ σ0 σ1 σ2 σ3 : System,
    Transition.Reach Boot System.step SparesCaller σ0 ∧ BlocksOther σ0 3 2 σ1 ∧
      System.step σ1 (.syscall (.semOpen [97] 0)) = some σ2 ∧
      System.step σ2 (.syscall (.semPost 2)) = some σ3 ∧ Live σ3.k 2 ∧
      (σ3.k.procs 2).pid = 3 ∧ (σ3.k.procs 2).state = .ready := by
  have hrun : (Transition.run System.step booted postedRun).any (fun σ0 =>
      decide (Live σ0.k 2 ∧ (σ0.k.procs 2).pid = 3 ∧
        2 ≠ σ0.exec ∧ (syscall σ0.k σ0.exec (.block 3)).2 = .ret 0) &&
      (System.step σ0 (.syscall (.block 3))).any fun σ1 =>
        (System.step σ1 (.syscall (.semOpen [97] 0))).any fun σ2 =>
          (System.step σ2 (.syscall (.semPost 2))).any fun σ3 =>
            decide (Live σ3.k 2 ∧ (σ3.k.procs 2).pid = 3 ∧ (σ3.k.procs 2).state = .ready)) = true := by
    decide +kernel
  obtain ⟨σ0, h0, hrun⟩ := (Option.any_eq_true _ _).mp hrun
  rw [Bool.and_eq_true] at hrun
  obtain ⟨σ1, h1, hrun'⟩ := (Option.any_eq_true _ _).mp hrun.2
  obtain ⟨σ2, h2, hrun'⟩ := (Option.any_eq_true _ _).mp hrun'
  obtain ⟨σ3, h3, hend⟩ := (Option.any_eq_true _ _).mp hrun'
  obtain ⟨hl0, hp, hx, hr⟩ := of_decide_eq_true hrun.1
  have hreach := (Transition.Reach.start booted_boot).of_run_ok postedRun_spares h0
  exact ⟨σ0, σ1, σ2, σ3, hreach, ⟨hl0, hp, hx, hr, h1⟩, h2, h3, of_decide_eq_true hend⟩

end TP2Kernel.Proofs
