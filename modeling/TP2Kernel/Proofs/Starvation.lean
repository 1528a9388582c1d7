import TP2Kernel.Proofs.Ranks

/-!
# Waiting for the processor

No event of another process raises the rank of a queued process, so that it is dispatched after a
bounded number of selections.
-/

namespace TP2Kernel.Proofs
open Function LinkedList FeedbackQueue

variable {k : Kernel} {p x idle : Slot} {s : Scope} {σ σ' : System} {e : Event} {c : Prop}

/-- Writes to another process, which does not wait behind them. -/
lemma modify_waits {f : Pcb → Pcb} (hpx : Waiting k p → p ≠ x) (hf : (f (k.procs x)).state ≠ .ready)
    (ha : AgesBelow k) : Waits c p 0 k (k.modify x f) := by
  refine ⟨fun y hu hr hl => ?_, fun _ hp => ?_⟩
  · rw [Kernel.modify_procs] at hu hr hl ⊢
    split at hr
    · exact absurd hr hf
    · rename_i hyx
      rw [if_neg hyx] at hu hl ⊢
      exact ha y hu hr hl
  · have hpp := k.modify_procs_of_ne f (hpx hp)
    refine ⟨by rwa [Waiting, hpp], ?_⟩
    rw [rank, rank, hpp]
    simp [Kernel.modify]

lemma sameWaits_drained (k : Kernel) : SameWaits k (drained k) := by
  unfold drained
  split
  · exact sameWaits_modify k _ ⟨rfl, rfl, rfl, rfl⟩
  · exact ⟨fun _ => ⟨rfl, rfl, rfl, rfl⟩, rfl, rfl⟩

/-- How many selections a call of `sched_force_yield` makes: it counts the calls of `schedule`
that return at the first test. -/
def selections (k k' : Kernel) : Nat := if decide (k'.bailouts = k.bailouts) then 1 else 0

lemma yield_waits (h : Consistent k) (hen : k.schedulerEnabled = true) (ha : AgesBelow k)
    (rsp : Frame) (hne : c → (k.yield rsp).1.current ≠ some p) :
    Waits c p (selections k (k.yield rsp).1) k (k.yield rsp).1 := by
  obtain ⟨q, hq⟩ := h
  obtain ⟨hw, -⟩ := drained_spec k
  have h0 : Waits c p 0 k (drained k) := (sameWaits_drained k).waits ha
  change c → (schedule (drained k) rsp).1.current ≠ some p at hne
  change Waits c p (selections k (schedule (drained k) rsp).1) k (schedule (drained k) rsp).1
  cases hc : k.current with
  | some cur =>
    have hsel : AtSelection (drained k) cur := by
      refine ⟨(congrArg Kernel.schedulerEnabled hw :).trans hen,
        (congrArg Kernel.current hw :).trans hc, ?_⟩
      simp [drained, hc]
    have h1 := schedule_waits ⟨q, queuedOff_drained hq⟩ h0.ages hsel rsp hne
    refine (h0.trans h1).mono ?_
    rw [selections]
    split
    · exact le_rfl
    · exact Nat.zero_le _
  | none =>
    have hoff : ¬((drained k).schedulerEnabled = true ∧ (drained k).current ≠ none) := by
      simp [drained, hc]
    have hn : selections k (schedule (drained k) rsp).1 = 0 := by
      rw [selections, schedule_off hoff]
      simp [drained, hc]
    have hno : ¬∃ cur, AtSelection (drained k) cur := by
      rintro ⟨cur, hsel⟩
      exact hoff ⟨hsel.enabled, by simp [hsel.current]⟩
    have hsame := @schedule_stays (drained k) hno rsp
    rw [hn]
    exact h0.trans (hsame.waits h0.ages)

lemma demoted_waits (h : Sound k) (hen : k.schedulerEnabled = true) {prio : Int}
    (hr : (k.procs x).state = .running) (ha : AgesBelow k) :
    Waits c p 0 k (demoted k x prio) := by
  obtain ⟨q, hq⟩ := h.consistent
  obtain ⟨-, -, hprocs⟩ := demoted_write (p := x) hen prio
  refine ⟨fun y hu hy hl => ?_, fun _ hp => ?_⟩
  · rw [hprocs] at hu hy hl ⊢
    split
    · exact zero_below
    · rename_i hyx
      rw [if_neg hyx] at hu hy hl
      exact ha y hu hy hl
  · have hpx : p ≠ x := by
      rintro rfl
      simp [hp.2] at hr
    have hturn : SameTurn (k.procs p) ((demoted k x prio).procs p) := by
      rw [hprocs, if_neg hpx]
      exact ⟨rfl, rfl, rfl, rfl⟩
    obtain ⟨q', hq', hf⟩ := @demoted_forward k q x hq hen prio hr
    obtain ⟨l, hl⟩ := (hq.ready p).mpr ⟨id, hp⟩
    refine ⟨⟨hturn.1.trans hp.1, hturn.2.1.trans hp.2⟩, ?_⟩
    rw [Nat.cast_zero, add_zero]
    exact rank_le_of_forward hq.queues hq' ⟨l, hl, hq.place l p hl⟩ hturn (hf p)

/-- The scope of the events that leave `p` alone. -/
def passing (p : Slot) : Scope := { anything with moved := (· ≠ p), terminated := (· ≠ p) }

lemma passing_open (p : Slot) : Open (passing p) := ⟨fun _ => trivial, fun _ => trivial, trivial⟩

lemma leavesAlone_dies {pid : Int} (he : LeavesAlone p σ e) (hv : e.victim σ.k = some pid)
    (hx : procByPid (collectZombies σ.k) pid = some x) (hi : σ.k.idleProc ≠ some x) :
    Dies (passing p) σ.k x := by
  have hst := (Steady.closed none).collectZombies σ.k
  obtain ⟨-, hu, hpid⟩ := procByPid_some hx
  have hterm : e.Terminates σ x := by
    refine .inr ⟨hst.used x hu, ?_, hi⟩
    rw [hv, ← (hst.names x).1, hpid]
  obtain ⟨hpx, hch⟩ := he.terminate x hterm
  refine ⟨Ne.symm hpx, fun c hc => ?_⟩
  rintro rfl
  exact hch hc

lemma leavesAlone_eventOk (he : LeavesAlone p σ e) : EventOk (passing p) σ e := by
  have hother : ∀ {pid : Int} {x : Slot}, procByPid (collectZombies σ.k) pid = some x →
      pid ≠ (σ.k.procs p).pid → x ≠ p := by
    rintro pid x hx hne rfl
    have hpid := (((Steady.closed none).collectZombies σ.k).names x).1
    exact hne ((procByPid_some hx).2.2.symm.trans hpid)
  cases e with
  | syscall c =>
    refine ⟨?_, fun _ => trivial⟩
    cases c with
    | kill pid => exact fun x hx hi => leavesAlone_dies he rfl hx hi
    | exit code =>
      intro c hc
      obtain ⟨hpc, hch⟩ := he.terminate c (.inl ⟨⟨code, rfl⟩, hc⟩)
      refine ⟨Ne.symm hpc, fun d hd => ?_⟩
      rintro rfl
      exact hch hd
    | block pid => exact fun x hx => hother hx fun hpid => he.block (hpid ▸ rfl)
    | nice pid newPrio =>
      exact fun x hx => ⟨hother hx fun hpid => he.nice newPrio (hpid ▸ rfl), fun _ _ => trivial⟩
    | _ => exact trivial
  | key c =>
    intro h3
    exact ⟨fun x hx hi => leavesAlone_dies he (by simp [Event.victim, h3]) hx hi, trivial⟩
  | _ => exact trivial

/-- The kernel code of an event that, where `c` holds, neither moves nor terminates nor dispatches
the process. -/
lemma ends_waits {Q : Kernel → Prop} {r : Kernel × Outcome} (h : Kept σ idle)
    (hm : c → ¬s.moved p) (ht : c → ¬s.terminated p) (ha : AgesBelow σ.k)
    (he : Ends Q s σ.k σ.exec r) (hne : c → r.1.current ≠ some p) :
    Waits c p (if r.2.yields && decide (r.1.bailouts = σ.k.bailouts) then 1 else 0) σ.k r.1 := by
  have hsound := h.sane.sound
  have hoff : CurrentOff σ.k := fun c hc =>
    .inl ⟨(h.current c hc).2.used, (h.current c hc).2.running⟩
  have hyield : ∀ {k1 k2 : Kernel}, Waits c p 0 σ.k k1 → Waits c p 0 k1 k2 → Consistent k2 →
      k2.schedulerEnabled = true → k2.bailouts = σ.k.bailouts → ∀ rsp : Frame,
      (c → (k2.yield rsp).1.current ≠ some p) →
      Waits c p (if (k2.yield rsp).2.yields && decide ((k2.yield rsp).1.bailouts = σ.k.bailouts)
        then 1 else 0) σ.k (k2.yield rsp).1 := by
    intro k1 k2 h1 h2 hc hen hb rsp hne
    have hy := yield_waits hc hen h2.ages rsp hne
    rw [selections, hb] at hy
    have hsum := (h1.trans h2).trans hy
    rw [zero_add, zero_add] at hsum
    exact hsum
  cases he with
  | @back _ o h1 _ ho =>
    have hno : o.yields = false := by
      unfold Outcome.yields
      split
      · rename_i f
        exact absurd rfl (ho f)
      · rfl
    simpa [hno] using steps_waits hsound h1 hm ht ha
  | @leave k1 k2 pc h1 _ hl =>
    have hw := steps_waits hsound h1 hm ht ha
    obtain ⟨-, hen, hb⟩ := steps_static hsound h1
    have hc1 := steps_currentOff hsound h1 hoff
    have hc2 := (leaves_consistent (steps_sound hsound h1).consistent hc1 hl).1
    cases hl with
    | yields => exact hyield hw (.refl hw.ages) hc2 (hen.trans h.enabled) hb _ hne
    | @blocks cur w hc =>
      have hpc : Waiting k1 p → p ≠ cur := by
        rintro hp rfl
        have := hc1 p hc
        simp [hp.2] at this
      exact hyield hw (modify_waits hpc (by simp) hw.ages) hc2 (hen.trans h.enabled) hb _ hne
  | @demote k1 x prio _ h1 _ hprio hc hr hi =>
    have hw := steps_waits hsound h1 hm ht ha
    obtain ⟨-, hen, hb⟩ := steps_static hsound h1
    have hs1 := steps_sound hsound h1
    have hu := (steps_currentOff hsound h1 hoff).used x hc hr
    obtain ⟨hsw, -, -⟩ := demoted_write (p := x) (hen.trans h.enabled) prio
    exact hyield hw (demoted_waits hs1 (hen.trans h.enabled) hr hw.ages)
      (demoted_consistent hs1 hprio hc hu hr hi).1
      ((congrArg Kernel.schedulerEnabled hsw :).trans (hen.trans h.enabled))
      ((congrArg Kernel.bailouts hsw :).trans hb) _ hne

lemma tick_waits (h : Kept σ idle) (ha : AgesBelow σ.k)
    (hne : c → (schedule σ.k σ.cpu).1.current ≠ some p) :
    Waits c p (if σ.reselects .tick then 1 else 0) σ.k (schedule σ.k σ.cpu).1 := by
  by_cases hsel : ∃ cur, AtSelection σ.k cur
  · obtain ⟨cur, hsel⟩ := hsel
    apply (schedule_waits h.sane.sound.consistent ha hsel _ hne).mono
    split
    · exact le_rfl
    · exact Nat.zero_le _
  · have hno : σ.reselects .tick = false := by
      rw [Bool.eq_false_iff]
      intro hr
      obtain ⟨he, hr⟩ := Bool.and_eq_true_iff.mp hr
      obtain ⟨cur, hc, hd⟩ := (Option.any_eq_true _ _).mp hr
      rw [Bool.not_eq_true', decide_eq_false_iff_not] at hd
      exact hsel ⟨cur, he, hc, hd⟩
    rw [hno]
    exact (schedule_stays hsel _).waits ha

/-- An event of a process in scope. -/
lemma event_waits (h : Kept σ idle) (ho : Open s) (hd : EventOk s σ e) (hm : c → ¬s.moved p)
    (ht : c → ¬s.terminated p) (ha : AgesBelow σ.k) (hs : System.step σ e = some σ')
    (hne : c → σ'.k.current ≠ some p) :
    Waits c p (if σ.reselects e then 1 else 0) σ.k σ'.k := by
  obtain ⟨rfl, e1⟩ | ⟨r, hr, e1⟩ := step_outcome hs
  · rw [e1] at hne ⊢
    exact tick_waits h ha hne
  · have hre : σ.reselects e = (r.2.yields && decide (r.1.bailouts = σ.k.bailouts)) := by
      cases e with
      | tick => cases hr
      | _ => simp only [System.reselects, hr, Option.any_some]
    rw [e1] at hne ⊢
    rw [hre]
    exact ends_waits h hm ht ha (outcome_ends h ho hd hr) hne

/-- No event raises the rank of a process that it passes by, and a selection lowers it. -/
theorem step_waits (h : Kept σ idle) (he : PassesBy p σ e) (ha : AgesBelow σ.k)
    (hp : Waiting σ.k p) (hs : System.step σ e = some σ') :
    Waiting σ'.k p ∧ rank σ'.k p + (if σ.reselects e then 1 else 0) ≤ rank σ.k p := by
  have hw : Waits True p _ σ.k σ'.k := event_waits h (passing_open p) (leavesAlone_eventOk he.1)
    (fun _ hm => hm rfl) (fun _ ht => ht rfl) ha hs fun _ => he.2 σ' hs
  obtain ⟨h1, h2⟩ := hw.waiting trivial hp
  refine ⟨h1, ?_⟩
  split at h2
  · rename_i hr
    rw [if_pos hr]
    exact h2
  · rename_i hr
    rw [if_neg hr]
    exact h2

lemma eventOk_anything (σ : System) (e : Event) : EventOk anything σ e := by
  have hd : ∀ p, Dies anything σ.k p := fun _ => ⟨trivial, fun _ _ => trivial⟩
  cases e with
  | syscall c =>
    refine ⟨?_, fun _ => trivial⟩
    cases c with
    | kill pid => exact fun p _ _ => hd p
    | exit code => exact fun p _ => hd p
    | block pid => exact fun _ _ => trivial
    | nice pid newPrio => exact fun _ _ => ⟨trivial, fun _ _ => trivial⟩
    | _ => exact trivial
  | key c => exact fun _ => ⟨fun p _ _ => hd p, trivial⟩
  | _ => exact trivial

lemma step_ages (h : Kept σ idle) (ha : AgesBelow σ.k) (hs : System.step σ e = some σ') :
    AgesBelow σ'.k := by
  have hw : Waits False idle _ σ.k σ'.k := event_waits h
    ⟨fun _ => trivial, fun _ => trivial, trivial⟩ (eventOk_anything σ e) False.elim False.elim ha hs
    False.elim
  exact hw.ages

lemma boot_ages (h : Boot σ) : AgesBelow σ.k := by
  obtain ⟨fails, idle, hk, hi, -⟩ := h
  rw [hk] at hi ⊢
  obtain ⟨k0, h0, e⟩ := bootKernel_cases hi
  have ha : AgesBelow k0 := by
    intro x hu hr
    have hx : x = idle := by
      by_contra hx
      rw [h0.others x hx] at hu
      cases hu
    rw [hx, h0.sane.2.running] at hr
    cases hr
  obtain ⟨h1, -⟩ := h0.create (clampPrio_inRange defaultPrio) true shellName
  have hw : Waits False idle 0 k0 _ := steps_waits h0.sane.1.sound h1 False.elim False.elim ha
  rw [e]
  exact hw.ages

/-- In a run in which nobody kills the parent of the executing process, aging stays below the
threshold. -/
theorem reach_ages (h : Transition.Reach Boot System.step SparesCaller σ) : AgesBelow σ.k := by
  have hinv : (∃ idle, Kept σ idle) ∧ AgesBelow σ.k := by
    apply h.invariant (I := fun σ => (∃ idle, Kept σ idle) ∧ AgesBelow σ.k)
    · intro σ hb
      obtain ⟨idle, hk, -⟩ := boot_kept hb
      exact ⟨⟨idle, hk⟩, boot_ages hb⟩
    · rintro σ e σ' ⟨⟨idle, hk⟩, ha⟩ hsp hs
      exact ⟨⟨idle, (step_kept hk hsp hs).1⟩, step_ages hk ha hs⟩
  exact hinv.2

/-- The states of runs that pass a waiting process by. -/
structure Lasting (idle p : Slot) (σ : System) : Prop where
  kept : Kept σ idle
  ages : AgesBelow σ.k
  waiting : Waiting σ.k p

lemma Lasting.step (h : Lasting idle p σ) (hsp : SparesCaller σ e) (he : PassesBy p σ e)
    (hs : System.step σ e = some σ') : Lasting idle p σ' ∧
      rank σ'.k p + (if σ.reselects e then 1 else 0) ≤ rank σ.k p := by
  obtain ⟨hw, hr⟩ := step_waits h.kept he h.ages h.waiting hs
  exact ⟨⟨(step_kept h.kept hsp hs).1, step_ages h.kept h.ages hs, hw⟩, hr⟩

/-- A selection lowers the rank of every waiting process that it does not dispatch. No other event
raises it where the current process is the executing one, running and off the queues, as in every
run in which nobody kills the parent of the executing process. In such a run a waiting process is
passed by at most 30 + `MAX_PROCS` selections. -/
theorem no_starvation (p : Slot) :
    (∀ k cur rsp, Consistent k → AgesBelow k → AtSelection k cur → Waiting k p →
      (schedule k rsp).1.current ≠ some p → rank (schedule k rsp).1 p < rank k p) ∧
    (∀ σ, Transition.Reach Boot System.step SparesCaller σ →
      (∃ idle, Kept σ idle) ∧ AgesBelow σ.k) ∧
    ∀ σ0 idle, Kept σ0 idle → AgesBelow σ0.k → Waiting σ0.k p →
      (∀ e σ', PassesBy p σ0 e → System.step σ0 e = some σ' → rank σ'.k p ≤ rank σ0.k p) ∧
      ∀ τ, Transition.Reach (· = (σ0, 0)) (Transition.counted System.step System.reselects)
        (fun τ e => SparesCaller τ.1 e ∧ PassesBy p τ.1 e) τ → τ.2 ≤ 30 + maxProcs := by
  refine ⟨fun k cur rsp ⟨q, hq⟩ ha hsel hp hne => (schedule_rank hq ha hsel hp rsp hne).2,
    fun σ h => ⟨reach_kept h, reach_ages h⟩, fun σ0 idle hk ha hp => ⟨fun e σ' he hs => ?_,
    fun τ hτ => ?_⟩⟩
  · have hr := (step_waits hk he ha hp hs).2
    split at hr
    · omega
    · omega
  · have hstep : ∀ (σ : System) (e : Event) (σ' : System), Lasting idle p σ →
        SparesCaller σ e ∧ PassesBy p σ e → System.step σ e = some σ' → Lasting idle p σ' ∧
          rank σ'.k p + (if σ.reselects e then 1 else 0) ≤ rank σ.k p :=
      fun σ e σ' h hok hs => h.step hok.1 hok.2 hs
    obtain ⟨hl, hle⟩ := Transition.Reach.count_add_rank_le ⟨hk, ha, hp⟩ hstep hτ
    have h0 := (rank_bounds hl.kept.sane.sound.consistent hl.ages hl.waiting).1
    have h1 := (rank_bounds hk.sane.sound.consistent ha hp).2
    simp only [maxProcs] at h1 ⊢
    omega

/-- Calls that neither block nor renice nor terminate a process with a pid. -/
def Harmless : Event → Bool
  | .syscall .yield | .syscall (.block 0) | .syscall (.unblock _) => true
  | _ => false

lemma harmless_cases (h : Harmless e) : e = .syscall .yield ∨ e = .syscall (.block 0) ∨
    ∃ pid, e = .syscall (.unblock pid) := by
  unfold Harmless at h
  split at h
  · exact .inl rfl
  · exact .inr (.inl rfl)
  · exact .inr (.inr ⟨_, rfl⟩)
  · cases h

lemma harmless_terminates (h : Harmless e) (q : Slot) : ¬e.Terminates σ q := by
  rintro (⟨⟨code, rfl⟩, -⟩ | ⟨-, hv, -⟩)
  · cases h
  · obtain rfl | rfl | ⟨pid, rfl⟩ := harmless_cases h
    all_goals cases hv

lemma harmless_leavesAlone (h : Harmless e) (hp : (σ.k.procs p).pid ≠ 0) : LeavesAlone p σ e := by
  refine ⟨?_, ?_, fun q hq => absurd hq (harmless_terminates h q)⟩
  · obtain rfl | rfl | ⟨pid, rfl⟩ := harmless_cases h
    · exact nofun
    · intro he
      simp only [Event.syscall.injEq, Syscall.block.injEq] at he
      exact hp he.symm
    · exact nofun
  · rintro newPrio rfl
    cases h

/-- The shell creates two processes. -/
def passedRun : List Event :=
  List.replicate 5 .tick ++ [.syscall (.createProcess (some 0) (some [97]) 2 false),
    .syscall (.createProcess (some 0) (some [98]) 2 false)]

lemma passedRun_spares : ∀ e ∈ passedRun, ∀ σ, SparesCaller σ e := by
  intro e he σ q hq
  simp only [passedRun, List.mem_append, List.mem_replicate, List.mem_cons, List.not_mem_nil,
    or_false] at he
  obtain ⟨-, rfl⟩ | rfl | rfl := he
  all_goals exact nomatch hq.2.1

lemma sampleAged_ages : AgesBelow sampleAged := by
  unfold AgesBelow
  decide +kernel

/-- The second process is passed by when the shell yields to the first, and in a selection of the
highest level. -/
theorem no_starvation_sample :
    rank (schedule sampleAged ⟨1, .user⟩).1 3 < rank sampleAged 3 ∧
    ∃ σ0 σ1, Waiting σ0.k 3 ∧ σ0.reselects (.syscall .yield) ∧
      System.step σ0 (.syscall .yield) = some σ1 ∧ rank σ1.k 3 ≤ rank σ0.k 3 ∧
      ∀ τ : System × Nat, τ = (σ1, 1) → τ.2 ≤ 30 + maxProcs := by
  obtain ⟨hsched, hreach, hruns⟩ := no_starvation 3
  refine ⟨hsched sampleAged 1 _ ⟨_, sampleAged_queuedOff⟩ sampleAged_ages
    ⟨rfl, rfl, by decide +kernel⟩ ⟨by decide +kernel, by decide +kernel⟩ (by decide +kernel), ?_⟩
  have hrun : (Transition.run System.step booted passedRun).any (fun σ0 =>
      decide ((σ0.k.procs 3).used ∧ (σ0.k.procs 3).state = .ready ∧ (σ0.k.procs 3).pid ≠ 0 ∧
        σ0.reselects (.syscall .yield)) && (System.step σ0 (.syscall .yield)).any fun σ1 =>
          decide (σ1.k.current ≠ some 3)) = true := by
    decide +kernel
  obtain ⟨σ0, h0, h⟩ := (Option.any_eq_true _ _).mp hrun
  rw [Bool.and_eq_true] at h
  obtain ⟨hu, hr, hpid, hre⟩ := of_decide_eq_true h.1
  obtain ⟨σ1, hs, h1⟩ := (Option.any_eq_true _ _).mp h.2
  have hpass : PassesBy 3 σ0 (.syscall .yield) := by
    refine ⟨harmless_leavesAlone rfl hpid, fun σ' hs' => ?_⟩
    rw [hs, Option.some.injEq] at hs'
    exact hs' ▸ of_decide_eq_true h1
  obtain ⟨⟨idle, hk⟩, ha⟩ := hreach σ0
    ((Transition.Reach.start booted_boot).of_run_ok passedRun_spares h0)
  obtain ⟨hstep, hcount⟩ := hruns σ0 idle hk ha ⟨hu, hr⟩
  refine ⟨σ0, σ1, ⟨hu, hr⟩, hre, hs, hstep _ _ hpass hs, ?_⟩
  rintro τ rfl
  have hsp : SparesCaller σ0 (.syscall .yield) := fun q hq => nomatch hq.2.1
  refine hcount _ (.next (.start rfl) ⟨hsp, hpass⟩ ?_)
  rw [Transition.counted, hs]
  simp [hre]

/-- The shell creates two processes and blocks itself, and the first one yields to the second. -/
def handoverRun : List Event :=
  passedRun ++ [.syscall (.block 0), .syscall .yield]

/-- Behind it the second one is queued although it is current and executing, and it creates a
third one. -/
def queuedCurrent : Option System :=
  (Transition.run System.step booted handoverRun).bind fun σ =>
    System.step ⟨schedEnqueue σ.k 3, σ.cpu⟩ (.syscall (.createProcess (some 0) (some [99]) 2 false))

/-- The current process blocks itself and stays queued, the first one wakes it, and the two
yield. -/
def cutRun : List Event :=
  [.syscall (.block 0), .syscall (.unblock 4)] ++ List.replicate 159 (.syscall .yield)

/-- The processes 2, 3 and 4 are queued in this order. -/
def currentQueues (l : Fin maxPrios) : List Slot := if l = 2 then [2, 3, 4] else []

/-- The third of them waits in consistent queues. -/
def CurrentQueued (k : Kernel) : Prop :=
  ((∀ l, k.readyHead l = if l = 2 then some 2 else none) ∧
    (∀ l, k.readyTail l = if l = 2 then some 4 else none) ∧ k.queueNext 2 = some 3 ∧
    k.queueNext 3 = some 4 ∧ k.queueNext 4 = none) ∧
  (∀ p, (∃ l, p ∈ currentQueues l) ↔ (k.procs p).used ∧ (k.procs p).state = .ready) ∧
  (∀ l, ∀ p ∈ currentQueues l, (k.procs p).priority = ((l : Nat) : Int) ∧
    k.idleProc ≠ some p ∧ (k.procs p).kframe ≠ none) ∧
  ∀ p, (k.procs p).used → (0 ≤ (k.procs p).priority ∧ (k.procs p).priority ≤ 3) ∧
    (0 ≤ (k.procs p).basePriority ∧ (k.procs p).basePriority ≤ 3) ∧
    0 ≤ (k.procs p).agingTicks ∧ (k.procs p).agingTicks < 10

instance (k : Kernel) : Decidable (CurrentQueued k) :=
  inferInstanceAs (Decidable (_ ∧ _ ∧ _ ∧ _))

lemma CurrentQueued.consistent (h : CurrentQueued k) :
    Consistent k ∧ AgesBelow k ∧ Waiting k 4 := by
  obtain ⟨⟨hh, ht, h1, h2, h3⟩, hready, hplace, hrange⟩ := h
  refine ⟨⟨currentQueues, ⟨fun l => ?_, by decide⟩, fun p => ?_, fun l p hp => (hplace l p hp).1,
    fun i hi l hl => (hplace l i hl).2.1 hi, fun p hu => ⟨(hrange p hu).1, (hrange p hu).2.1⟩,
    fun l p hp => (hplace l p hp).2.2⟩, fun p hu _ _ => (hrange p hu).2.2,
    (hready 4).mp ⟨2, by decide⟩⟩
  · rw [hh, ht, currentQueues]
    split
    · exact ⟨⟨rfl, h1, h2, h3⟩, rfl⟩
    · exact ⟨rfl, rfl⟩
  · rw [hready]
    simp

/-- The event is harmless and does not dispatch process 4, which has a pid. -/
def passesThird (τ : System × Nat) (e : Event) : Bool :=
  Harmless e && decide ((τ.1.k.procs 4).pid ≠ 0) &&
    (System.step τ.1 e).all fun σ => decide (σ.k.current ≠ some 4)

lemma passesThird_passesBy {τ : System × Nat} (h : passesThird τ e) : PassesBy 4 τ.1 e := by
  simp only [passesThird, Bool.and_eq_true, decide_eq_true_eq] at h
  refine ⟨harmless_leavesAlone h.1.1 h.1.2, fun σ' hs => ?_⟩
  simpa [hs] using h.2

/-- In a consistent state whose current process is queued, the wake-up of that process cuts off the
one behind it. -/
theorem cut_off : ∃ σ0 τ, queuedCurrent = some σ0 ∧ Consistent σ0.k ∧ AgesBelow σ0.k ∧
    σ0.k.current = some 3 ∧ σ0.exec = 3 ∧ Waiting σ0.k 4 ∧
    Transition.Reach (· = (σ0, 0)) (Transition.counted System.step System.reselects)
      (fun τ e => PassesBy 4 τ.1 e) τ ∧ 31 + maxProcs < τ.2 := by
  have hrun : queuedCurrent.any (fun σ0 =>
      decide (CurrentQueued σ0.k ∧ σ0.k.current = some 3 ∧ σ0.exec = 3) &&
        (Transition.runIf (Transition.counted System.step System.reselects) passesThird (σ0, 0)
          cutRun).any fun τ => decide (31 + maxProcs < τ.2)) = true := by
    decide +kernel
  obtain ⟨σ0, h0, h⟩ := (Option.any_eq_true _ _).mp hrun
  rw [Bool.and_eq_true] at h
  obtain ⟨hq, hcur, hexec⟩ := of_decide_eq_true h.1
  obtain ⟨hc, ha, hw⟩ := hq.consistent
  obtain ⟨τ, hτ, h1⟩ := (Option.any_eq_true _ _).mp h.2
  refine ⟨σ0, τ, h0, hc, ha, hcur, hexec, hw, ?_, of_decide_eq_true h1⟩
  have hreach : Transition.Reach (· = (σ0, 0)) _ _ τ := .of_runIf (.start rfl) hτ
  exact hreach.mono fun τ e => passesThird_passesBy

end TP2Kernel.Proofs
