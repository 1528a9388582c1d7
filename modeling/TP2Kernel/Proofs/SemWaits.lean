import TP2Kernel.SemWaits
import TP2Kernel.Lib.TokenQueue
import TP2Kernel.Proofs.Blocked

/-!
# Tokens are neither lost nor invented

While nothing but waits and posts is done to a semaphore and to those who are blocked on it, it
acts as a counter with a line of processes. The post that wakes the first of them goes through
`proc_unblock`, which reaps zombies first; what that wakes are processes queued on pipes.
-/

namespace TP2Kernel.Proofs
open Function LinkedList

variable {s v : Nat} {k k0 k' : Kernel} {p idle : Slot} {σ σ' : System} {r r' : SemRun} {e : Event}

/-- Nobody falls asleep, and those who sleep and are not queued on a pipe of `k0` sleep on. -/
structure Undisturbing (k0 k k' : Kernel) : Prop where
  disturbs : Disturbs none k0 k'
  kframe : ∀ p, (k'.procs p).kframe = (k.procs p).kframe
  blocked : ∀ p, (k'.procs p).state = .blocked → (k.procs p).state = .blocked
  asleep : ∀ p, (k.procs p).state = .blocked → ¬Piped k0 (k0.procs p).pid →
    (k'.procs p).state = .blocked

lemma Undisturbing.trans {k1 k2 : Kernel} (h : Undisturbing k0 k k1) (h' : Undisturbing k0 k1 k2) :
    Undisturbing k0 k k2 :=
  ⟨h'.disturbs, fun p => (h'.kframe p).trans (h.kframe p),
    fun p hp => h.blocked p (h'.blocked p hp), fun p hp hn => h'.asleep p (h.asleep p hp hn) hn⟩

lemma Undisturbing.of_state (hd : Disturbs none k0 k')
    (h : ∀ p, (k'.procs p).kframe = (k.procs p).kframe ∧
      (k'.procs p).state = (k.procs p).state) : Undisturbing k0 k k' :=
  ⟨hd, fun p => (h p).1, fun p hp => (h p).2 ▸ hp, fun p hp _ => (h p).2.trans hp⟩

/-- A process that is put on the ready queues is not blocked. -/
lemma schedEnqueue_roused (k : Kernel) (p : Slot) : ∃ c, (schedEnqueue k p).procs =
    update k.procs p c ∧ c.kframe = (k.procs p).kframe ∧ c.state ≠ .blocked := by
  by_cases hon : k.schedulerEnabled = false ∧ k.current = none
  · refine ⟨{ k.procs p with state := .running, ticksLeft := timeSliceTicks }, ?_, rfl, by simp⟩
    rw [schedEnqueue, if_pos hon]
    rfl
  · exact ⟨_, schedEnqueue_procs p hon, rfl, by simp⟩

lemma undisturbing_closed (k0 : Kernel) : ReapClosed (Disturbs none k0) (Piped k0)
    fun k k' => Disturbs none k0 k → Undisturbing k0 k k' where
  refl _ hd := .of_state hd fun _ => ⟨rfl, rfl⟩
  trans h h' hd := (h hd).trans (h' (h hd).disturbs)
  given h hd := h hd hd
  link h hd := by
    refine .of_state (hd.trans ((Disturbs.closed none).link h)) fun p => ?_
    rw [LinkWrite] at h
    rw [h]
    exact ⟨rfl, rfl⟩
  modify k x f h hd := by
    refine .of_state (hd.trans ((Disturbs.closed none).modify k x f h)) fun p => ?_
    rw [Kernel.modify_procs]
    split
    · rename_i hp
      rw [h.1, hp]
      exact ⟨rfl, rfl⟩
    · exact ⟨rfl, rfl⟩
  ready k x hW hd := by
    refine ⟨hd.trans ((Disturbs.closed none).ready k x trivial), fun p => ?_, fun p hp => ?_,
      fun p hp hn => ?_⟩
    · rw [Kernel.modify_procs]
      split
      · rename_i h
        rw [h]
        rfl
      · rfl
    · rw [Kernel.modify_procs] at hp
      split at hp
      · cases hp
      · exact hp
    · rw [k.modify_procs_of_ne]
      · exact hp
      · rintro rfl
        rw [hd.pid] at hW
        exact hn hW
  enqueue k x ha hd := by
    obtain ⟨c, hc, hf, hs⟩ := schedEnqueue_roused k x
    refine ⟨hd.trans ((Disturbs.closed none).enqueue k x ha), fun p => ?_, fun p hp => ?_,
      fun p hp _ => ?_⟩
    · rw [hc, update_apply]
      split
      · rename_i h
        rw [h]
        exact hf
      · rfl
    · rw [hc, update_apply] at hp
      split at hp
      · exact absurd hp hs
      · exact hp
    · rw [hc, update_of_ne]
      · exact hp
      · rintro rfl
        exact ha.1 hp
  pipe k x f h hd :=
    .of_state (hd.trans ((Disturbs.closed none).pipe k x f h)) fun _ => ⟨rfl, rfl⟩
  free k b h hd := .of_state (hd.trans ((Disturbs.closed none).free k h)) fun _ => ⟨rfl, rfl⟩
  queued {k} hd i w hw := by
    refine ⟨i, w, ?_, (hd.pid w.proc).symm⟩
    refine hw.imp (fun h => ?_) fun h => ?_
    · exact (hd.readers i w h).resolve_right (by simp)
    · exact (hd.writers i w h).resolve_right (by simp)

theorem collectZombies_undisturbing (k : Kernel) : Undisturbing k k (collectZombies k) :=
  (undisturbing_closed k).collectZombies k (.refl none k)

lemma Disturbs.unshared (h : Disturbs none k k') (hp : Unshared k p) : Unshared k' p := by
  refine ⟨fun q hq he => ?_, ?_⟩
  · rw [h.pid, h.pid] at he
    exact hp.alone q (h.used q hq) he
  · rintro ⟨i, w, hw, he⟩
    rw [h.pid, h.pid] at he
    refine hp.unpiped ⟨i, w, hw.imp (fun h' => ?_) fun h' => ?_, he⟩
    · exact (h.readers i w h').resolve_right (by simp)
    · exact (h.writers i w h').resolve_right (by simp)

lemma asleepOn_of_eq (hu : (k'.procs p).used = (k.procs p).used)
    (hs : (k'.procs p).state = (k.procs p).state)
    (hf : (k'.procs p).kframe = (k.procs p).kframe) : AsleepOn k' s p ↔ AsleepOn k s p := by
  rw [AsleepOn, AsleepOn, hu, hs, hf]

lemma not_asleepOn (h : (k.procs p).state ≠ .blocked) : ¬AsleepOn k s p := fun hp => h hp.2.1

/-- A new frame says nothing of a process that is not blocked. -/
lemma asleepOn_frame {cur : Slot} (h : (k.procs cur).state ≠ .blocked) (f : Pcb → Pcb)
    (hf : ∀ c, (f c).state = c.state) : AsleepOn (k.modify cur f) s p ↔ AsleepOn k s p := by
  by_cases hp : p = cur
  · rw [hp]
    refine iff_of_false (not_asleepOn ?_) (not_asleepOn h)
    rwa [Kernel.modify_procs_self, hf]
  · rw [AsleepOn, AsleepOn, k.modify_procs_of_ne f hp]

lemma Switched.asleepOn {rsp : Frame} {f : Option Frame} {cur next : Slot}
    (hs : Switched k k' rsp f cur next) (hi : ∀ i, k.idleProc = some i →
      (k.procs i).state ≠ .blocked) (p : Slot) :
    AsleepOn k' s p ↔ AsleepOn (k.modify cur fun c => { c with kframe := some rsp }) s p := by
  have hnext : (k.procs next).state ≠ .blocked := by
    rcases hs.chosen with h | ⟨-, h | ⟨e, h⟩⟩
    · exact hi next h
    · simp [h]
    · simp [e, h]
  have hstate : ((k.modify cur fun c => { c with kframe := some rsp }).procs p).state =
      (k.procs p).state := by
    rw [Kernel.modify_procs]
    split
    · rename_i h
      rw [h]
    · rfl
  by_cases hpn : p = next
  · refine iff_of_false (not_asleepOn ?_) (not_asleepOn ?_)
    · simp [hs.state, hpn]
    · rwa [hstate, hpn]
  · by_cases hr : requeued k cur p
    · refine iff_of_false (not_asleepOn ?_) (not_asleepOn ?_)
      · simp [hs.state, hpn, hr]
      · rw [hstate, hr.1, hr.2.1]
        simp
    · have hst := hs.state p
      rw [if_neg hpn, if_neg hr] at hst
      refine asleepOn_of_eq ?_ (hst.trans hstate.symm) ?_
      · rw [hs.procs p, Kernel.modify_procs]
        split
        · rename_i h
          rw [h]
        · rfl
      · rw [hs.kframe p, Kernel.modify_procs]
        split <;> rfl

lemma yield_asleepOn {rsp : Frame} {cur : Slot} (hc : Consistent k)
    (hen : k.schedulerEnabled = true) (hcur : k.current = some cur)
    (hi : k.idleProc = some idle) (hf : (k.procs idle).kframe ≠ none)
    (hb : (k.procs idle).state ≠ .blocked)
    (hu : (k.procs cur).state = .running → (k.procs cur).used) (p : Slot) :
    AsleepOn (k.yield rsp).1 s p ↔
      AsleepOn (k.modify cur fun c => { c with kframe := some rsp }) s p := by
  obtain ⟨q, hq⟩ := hc
  have hy : Yielded k rsp (schedForceYield k rsp) := by
    refine schedForceYield_cases hq fun c hc' => ?_
    rw [hcur, Option.some.injEq] at hc'
    exact hc' ▸ hu
  rw [show (k.yield rsp).1 = (schedForceYield k rsp).1 from rfl]
  generalize schedForceYield k rsp = r at hy
  cases hy with
  | bail h0 => simp [hen, hcur] at h0
  | switch hc' hs =>
    rw [hcur, Option.some.injEq] at hc'
    subst hc'
    refine hs.asleepOn (fun i hi' => ?_) p
    rw [hi, Option.some.injEq] at hi'
    rwa [← hi']
  | stuck _ _ _ _ hidle _ => exact absurd (hidle idle hi).2 hf

/-- A yield of the process that is executing. -/
lemma yield_leaves (h : Kept σ idle) (rsp : Frame) (p : Slot) :
    AsleepOn (σ.k.yield rsp).1 s p ↔ AsleepOn σ.k s p := by
  cases hc : σ.k.current with
  | none =>
    obtain ⟨q, hq⟩ := h.sane.sound.consistent
    have hy : Yielded σ.k rsp (schedForceYield σ.k rsp) :=
      schedForceYield_cases hq fun c hc' => by simp [hc] at hc'
    rw [show (σ.k.yield rsp).1 = (schedForceYield σ.k rsp).1 from rfl]
    generalize schedForceYield σ.k rsp = r at hy
    cases hy with
    | bail _ =>
      have hd : drained σ.k = σ.k := by
        unfold drained
        rw [hc]
      rw [hd]
      exact .rfl
    | switch hc' _ => simp [hc] at hc'
    | stuck hc' _ _ _ _ _ => simp [hc] at hc'
  | some cur =>
    obtain ⟨-, hx⟩ := h.current cur hc
    have hs := h.sane
    rw [yield_asleepOn hs.sound.consistent h.enabled hc hs.idleProc
      (hs.sound.frame idle hs.idleLive) (by simp [hs.idleRunning]) fun _ => hx.used]
    exact asleepOn_frame (by simp [hx.running]) _ fun _ => rfl

lemma schedule_asleepOn (h : Kept σ idle) (p : Slot) :
    AsleepOn (schedule σ.k σ.cpu).1 s p ↔ AsleepOn σ.k s p := by
  have hs := h.sane
  obtain ⟨q, hq⟩ := hs.sound.consistent
  have hy : Scheduled σ.k σ.cpu (schedule σ.k σ.cpu) :=
    schedule_cases hq fun c hc _ => (h.current c hc).2.used
  generalize schedule σ.k σ.cpu = r at hy
  cases hy with
  | bail _ => exact .rfl
  | stay _ hr _ =>
    dsimp only
    apply asleepOn_frame
    · rw [hr]
      simp
    · exact fun _ => rfl
  | switch hc hsw =>
    obtain ⟨-, hx⟩ := h.current _ hc
    rw [hsw.asleepOn (fun i hi => ?_) p]
    · exact asleepOn_frame (by simp [hx.running]) _ fun _ => rfl
    · rw [hs.idleProc, Option.some.injEq] at hi
      simp [← hi, hs.idleRunning]
  | stuck _ _ _ _ hidle _ =>
    exact absurd (hidle idle hs.idleProc).2 (hs.sound.frame idle hs.idleLive)

lemma Redispatch.leavesSem {cpu : Frame} (h : Redispatch σ.k k')
    (ha : ∀ p, AsleepOn k' s p ↔ AsleepOn σ.k s p) : LeavesSem s σ ⟨k', cpu⟩ where
  count := by rw [h.write.sems]
  waiters := by rw [h.write.sems]
  asleep := ha
  unshared _ _ hp := (Disturbs.redispatch none h).unshared hp

/-- Whatever the scheduler does leaves the semaphores alone. -/
theorem reschedules_leavesSem (h : Kept σ idle) (he : e.reschedules σ)
    (hs : System.step σ e = some σ') : LeavesSem s σ σ' := by
  cases e with
  | tick =>
    simp only [System.step] at hs
    split at hs
    · cases hs
      exact (Redispatch.schedule σ.k σ.cpu).leavesSem (schedule_asleepOn h)
    · cases hs
  | resume =>
    obtain ⟨s0, hpc⟩ := he
    simp only [System.step, hpc, resume, Option.map_some, Option.some.injEq] at hs
    cases hs
    exact (Redispatch.refl σ.k).leavesSem fun _ => .rfl
  | syscall c =>
    cases c with
    | yield =>
      simp only [System.step] at hs
      split at hs
      · cases hs
        exact (Redispatch.yield σ.k _).leavesSem (yield_leaves h _)
      · cases hs
    | _ => cases he
  | key => cases he

lemma unshared_of_pipes (h : Unshared k p) (hp : ∀ x, (k'.procs x).pid = (k.procs x).pid ∧
    (k'.procs x).used = (k.procs x).used) (hi : k'.pipes = k.pipes) : Unshared k' p := by
  refine ⟨fun q hq he => ?_, ?_⟩
  · rw [(hp q).2] at hq
    rw [(hp q).1, (hp p).1] at he
    exact h.alone q hq he
  · rintro ⟨i, w, hw, he⟩
    rw [hi] at hw
    rw [(hp w.proc).1, (hp p).1] at he
    exact h.unpiped ⟨i, w, hw, he⟩

lemma semWrite_sane (h : Kept σ idle) (hw : SemWrite σ.k k') : Sane k' idle ∧ Reapables k' := by
  have hl : Listed (losing fun _ => False) .idle σ.k := h.zombies.listed fun _ => trivial
  obtain ⟨h1, hl1⟩ := hw.goes (s := losing fun _ => False) ((listed_rule _).ofZombies .idle)
    trivial hl
  exact ⟨steps_sane h.sane h1 id, hl1.reapables⟩

/-- The caller, who is executing, blocks with a frame in `ksem_wait`. -/
lemma block_asleepOn (h : Kept σ idle) (hni : σ.k.idleProc ≠ some σ.exec)
    (hw : SemWrite σ.k k) (hc : σ.k.current = some σ.exec) (p : Slot) :
    AsleepOn (k.blockAndYield σ.exec ⟨σ.exec, .semWait s⟩).1 s p ↔
      p = σ.exec ∨ AsleepOn σ.k s p := by
  obtain ⟨hs, -⟩ := semWrite_sane h hw
  obtain ⟨-, hx⟩ := h.current _ hc
  have hcur : k.current = some σ.exec := (congrArg Kernel.current hw.same :).trans hc
  have hen : k.schedulerEnabled = true :=
    (congrArg Kernel.schedulerEnabled hw.same :).trans h.enabled
  have hoff : CurrentOff k := by
    intro c hc'
    rw [hcur, Option.some.injEq] at hc'
    rw [← hc', hw.procs]
    exact .inl ⟨hx.used, hx.running⟩
  obtain ⟨hcons, -⟩ := leaves_consistent hs.sound.consistent hoff
    (.blocks (fun c => c.waitingFor) hcur)
  have hie : idle ≠ σ.exec := by
    rintro rfl
    exact hni h.sane.idleProc
  have hidle := k.modify_procs_of_ne (fun c => { c with state := .blocked, ticksLeft := 0 }) hie
  rw [Kernel.blockAndYield, yield_asleepOn hcons hen hcur hs.idleProc
    (by rw [hidle]; exact hs.sound.frame idle hs.idleLive) (by simp [hidle, hs.idleRunning])
    (by simp)]
  by_cases hp : p = σ.exec
  · refine iff_of_true ?_ (.inl hp)
    rw [hp, AsleepOn, Kernel.modify_procs_self, Kernel.modify_procs_self, hw.procs]
    exact ⟨hx.used, rfl, rfl⟩
  · rw [AsleepOn, Kernel.modify_procs_of_ne _ _ hp, Kernel.modify_procs_of_ne _ _ hp, hw.procs]
    simp [hp, AsleepOn]

/-- What `ksem_wait` does where there is memory for a node. -/
inductive Waited (k : Kernel) (s : Nat) (exec : Slot) : Kernel × Outcome → Prop
  | nobody (hc : k.current = none) : Waited k s exec (k, .ret (-1))
  | granted {k' : Kernel} (hf : 0 < (k.sems s).count)
      (count : (k'.sems s).count = (k.sems s).count - 1)
      (waiters : (k'.sems s).waiters = (k.sems s).waiters)
      (asleep : ∀ p, AsleepOn k' s p ↔ AsleepOn k s p)
      (unshared : ∀ p, Unshared k p → Unshared k' p) : Waited k s exec (k', .ret 0)
  | queued {k' : Kernel} {node : Nat} {f : Frame} (hf : (k.sems s).count = 0)
      (count : (k'.sems s).count = 0)
      (waiters : (k'.sems s).waiters = (k.sems s).waiters ++ [⟨node, exec⟩])
      (caller : ¬AsleepOn k s exec)
      (asleep : ∀ p, AsleepOn k' s p ↔ p = exec ∨ AsleepOn k s p)
      (unshared : ∀ p, Unshared k p → Unshared k' p) : Waited k s exec (k', .load f)

theorem ksemWait_waited (h : Kept σ idle) (hni : σ.k.idleProc ≠ some σ.exec)
    (hm : σ.k.heap.fails σ.k.heap.next = false) : Waited σ.k s σ.exec (ksemWait σ.k σ.exec s) := by
  unfold ksemWait
  cases hc : σ.k.current with
  | none => exact .nobody hc
  | some cur =>
    obtain ⟨rfl, hx⟩ := h.current cur hc
    have hmalloc : σ.k.mmMalloc = (σ.k.mmMalloc.1, some σ.k.heap.next) := by
      simp [Kernel.mmMalloc, hm]
    rw [hmalloc]
    dsimp only
    have hsems : σ.k.mmMalloc.1.sems = σ.k.sems := rfl
    rw [hsems]
    split
    · rename_i hf
      refine .granted hf ?_ ?_ (fun _ => .rfl) fun p hp =>
        unshared_of_pipes hp (fun _ => ⟨rfl, rfl⟩) rfl
      · simp [Kernel.mmFree, Kernel.modifySem, hsems]
      · simp [Kernel.mmFree, Kernel.modifySem, hsems]
    · rename_i hf
      have hf0 : (σ.k.sems s).count = 0 := Nat.eq_zero_of_not_pos hf
      have hw := (semWrite_mmMalloc σ.k).trans (semWrite_modifySem σ.k.mmMalloc.1 s fun c =>
        { c with waiters := c.waiters ++ [⟨σ.k.heap.next, σ.exec⟩] })
      have hd := Redispatch.blockAndYield (σ.k.mmMalloc.1.modifySem s fun c =>
        { c with waiters := c.waiters ++ [⟨σ.k.heap.next, σ.exec⟩] }) σ.exec ⟨σ.exec, .semWait s⟩
      have ha := fun p => block_asleepOn (s := s) h hni hw hc p
      obtain ⟨f, hload⟩ : ∃ f, ((σ.k.mmMalloc.1.modifySem s fun c =>
          { c with waiters := c.waiters ++ [⟨σ.k.heap.next, σ.exec⟩] }).blockAndYield σ.exec
          ⟨σ.exec, .semWait s⟩).2 = .load f := ⟨_, rfl⟩
      generalize (σ.k.mmMalloc.1.modifySem s fun c =>
        { c with waiters := c.waiters ++ [⟨σ.k.heap.next, σ.exec⟩] }).blockAndYield σ.exec
        ⟨σ.exec, .semWait s⟩ = r at hd ha hload ⊢
      obtain ⟨k', o⟩ := r
      rw [show o = .load f from hload]
      have hws : (k'.sems s).waiters = (σ.k.sems s).waiters ++ [⟨σ.k.heap.next, σ.exec⟩] := by
        rw [hd.write.sems]
        simp [Kernel.modifySem, hsems]
      refine .queued hf0 ?_ hws ?_ ha fun p hp =>
        unshared_of_pipes hp (fun x => ?_) (congrArg Kernel.pipes hd.write :)
      · rw [hd.write.sems]
        simpa [Kernel.modifySem, hsems] using hf0
      · apply not_asleepOn
        simp [hx.running]
      · rw [hd.procs x]
        exact ⟨rfl, rfl⟩

lemma asleepOn_of_collect (hp : AsleepOn (collectZombies k) s p) : AsleepOn k s p := by
  have hu := collectZombies_undisturbing k
  obtain ⟨hused, hb, hf⟩ := hp
  exact ⟨hu.disturbs.used p hused, hu.blocked p hb, hu.kframe p ▸ hf⟩

lemma collect_asleepOn (h : Sane k idle) (hz : Reapables k) (hp : Unshared k p)
    (ha : AsleepOn k s p) : AsleepOn (collectZombies k) s p := by
  have hu := collectZombies_undisturbing k
  obtain ⟨hused, hb, hf⟩ := ha
  have hl := (collect_live h.sound hz p).mpr ⟨hused, by simp [hb]⟩
  exact ⟨hl.1, hu.asleep p hb hp.unpiped, (hu.kframe p).symm ▸ hf⟩

/-- What `proc_unblock` does to a blocked process that no pipe wakes. -/
lemma procUnblock_asleep (h : Sane k idle) (hz : Reapables k) (hen : k.schedulerEnabled = true)
    (hp : (k.procs p).used ∧ (k.procs p).state = .blocked) (hpos : 0 < (k.procs p).pid)
    (hsh : Unshared k p) : (procUnblock k (k.procs p).pid).2 = 0 ∧
      ((procUnblock k (k.procs p).pid).1.procs p).state = .ready ∧
      ∀ x, x ≠ p → (procUnblock k (k.procs p).pid).1.procs x = (collectZombies k).procs x := by
  have hu := collectZombies_undisturbing k
  have hpid := hu.disturbs.pid p
  have hlive := (collect_live h.sound hz p).mpr ⟨hp.1, by simp [hp.2]⟩
  have hblocked := hu.asleep p hp.2 hsh.unpiped
  obtain ⟨h1, -⟩ := (listed_rule anything).collects .idle k (hz.listed fun _ => trivial)
  have hon : ¬((collectZombies k).schedulerEnabled = false ∧ (collectZombies k).current = none) := by
    simp [(steps_static h.sound h1).2.1, hen]
  have hfind : procByPid (collectZombies k) (k.procs p).pid = some p := by
    rw [← hpid]
    refine procByPid_eq hlive.1 (by rwa [hpid]) fun q hq he => ?_
    exact (hu.disturbs.unshared hsh).alone q hq he
  unfold procUnblock unblockTarget
  generalize collectZombies k = k2 at *
  rw [hfind]
  dsimp only
  rw [if_neg hlive.2, if_pos hblocked]
  have hprocs := schedEnqueue_procs (k := k2.modify p readied) p hon
  refine ⟨rfl, ?_, fun x hx => ?_⟩
  · change ((schedEnqueue (k2.modify p readied) p).procs p).state = .ready
    rw [hprocs, update_self]
  · change (schedEnqueue (k2.modify p readied) p).procs x = k2.procs x
    rw [hprocs, update_of_ne hx, Kernel.modify_procs_of_ne _ _ hx]

/-- What `ksem_post` does. -/
inductive Posted (k : Kernel) (s : Nat) : Kernel × Int → Prop
  | counted {k' : Kernel} (hw : (k.sems s).waiters = [])
      (count : (k'.sems s).count = (k.sems s).count + 1) (waiters : (k'.sems s).waiters = [])
      (asleep : ∀ p, AsleepOn k' s p ↔ AsleepOn k s p)
      (unshared : ∀ p, Unshared k p → Unshared k' p) : Posted k s (k', 0)
  | woke {k' : Kernel} {w : Waiter} {ws : List Waiter} (hw : (k.sems s).waiters = w :: ws)
      (count : (k'.sems s).count = (k.sems s).count) (waiters : (k'.sems s).waiters = ws)
      (ready : (k'.procs w.proc).state = .ready)
      (asleep : ∀ p, AsleepOn k' s p → AsleepOn k s p ∧ p ≠ w.proc)
      (stays : ∀ p, p ≠ w.proc → Unshared k p → AsleepOn k s p → AsleepOn k' s p)
      (others : ∀ p, p ≠ w.proc → (k.procs p).state = .blocked → ¬Piped k (k.procs p).pid →
        (k'.procs p).state = .blocked)
      (unshared : ∀ p, Unshared k p → Unshared k' p) : Posted k s (k', 0)

theorem ksemPost_posted (h : Kept σ idle) (hpos : Positive σ.k)
    (ha : ∀ w ∈ (σ.k.sems s).waiters, AsleepOn σ.k s w.proc ∧ Unshared σ.k w.proc)
    (hsat : (σ.k.sems s).waiters = [] → (σ.k.sems s).count < uint32Max) :
    Posted σ.k s (ksemPost procUnblock σ.k s) := by
  unfold ksemPost
  split
  · rename_i hw
    have hinc : semIncrement σ.k s = σ.k.modifySem s fun c => { c with count := c.count + 1 } :=
      if_pos (hsat hw)
    rw [hinc]
    refine .counted hw ?_ ?_ (fun _ => .rfl) fun p hp =>
      unshared_of_pipes hp (fun _ => ⟨rfl, rfl⟩) rfl
    · simp [Kernel.modifySem]
    · simpa [Kernel.modifySem] using hw
  · rename_i w ws hw
    obtain ⟨hasleep, hsh⟩ := ha w (by simp [hw])
    have hsw := semWrite_modifySem σ.k s fun c => { c with waiters := ws }
    have hcount : ((σ.k.modifySem s fun c => { c with waiters := ws }).sems s).count =
      (σ.k.sems s).count := by simp [Kernel.modifySem]
    have hws : ((σ.k.modifySem s fun c => { c with waiters := ws }).sems s).waiters = ws := by
      simp [Kernel.modifySem]
    have hp1 := hsw.procs
    have hi1 : (σ.k.modifySem s fun c => { c with waiters := ws }).pipes = σ.k.pipes := rfl
    obtain ⟨hs1, hz1⟩ := semWrite_sane h hsw
    have hen1 : (σ.k.modifySem s fun c => { c with waiters := ws }).schedulerEnabled = true :=
      h.enabled
    dsimp only
    generalize (σ.k.modifySem s fun c => { c with waiters := ws }) = k1 at *
    have hpiped : ∀ pid, Piped k1 pid ↔ Piped σ.k pid := fun pid => by rw [Piped, Piped, hi1, hp1]
    have hunshared : ∀ p, Unshared σ.k p → Unshared k1 p := fun p hp =>
      unshared_of_pipes hp (fun x => by simp [hp1]) hi1
    obtain ⟨hret, hready, hother⟩ := procUnblock_asleep hs1 hz1 hen1
      (by rw [hp1]; exact ⟨hasleep.1, hasleep.2.1⟩) (by rw [hp1]; exact hpos.1 _ hasleep.1)
      (hunshared _ hsh)
    have hsems := (reapWrite_loose.closed.procUnblock k1 (k1.procs w.proc).pid trivial).sems
    have hd := (Disturbs.closed none).procUnblock k1 (k1.procs w.proc).pid trivial
    generalize procUnblock k1 (k1.procs w.proc).pid = r at *
    obtain ⟨k3, woken⟩ := r
    have hu := collectZombies_undisturbing k1
    dsimp only at hret hready hother hsems hd ⊢
    rw [if_pos hret]
    have hk3 : ∀ p, p ≠ w.proc → (AsleepOn (k3.mmFree ⟨.semWaiter, w.node⟩) s p ↔
        AsleepOn (collectZombies k1) s p) := by
      intro p hne
      rw [AsleepOn, show (k3.mmFree ⟨.semWaiter, w.node⟩).procs = k3.procs from rfl, hother p hne]
      rfl
    have hk1 : ∀ p, AsleepOn k1 s p ↔ AsleepOn σ.k s p := fun p => by rw [AsleepOn, AsleepOn, hp1]
    refine .woke hw ?_ ?_ hready (fun p hp => ?_) (fun p hne hp hb => ?_)
      (fun p hne hb hn => ?_) fun p hp => ?_
    · rw [show (k3.mmFree ⟨.semWaiter, w.node⟩).sems = k3.sems from rfl, hsems, hcount]
    · rw [show (k3.mmFree ⟨.semWaiter, w.node⟩).sems = k3.sems from rfl, hsems, hws]
    · have hne : p ≠ w.proc := by
        rintro rfl
        have := hp.2.1
        rw [show (k3.mmFree ⟨.semWaiter, w.node⟩).procs = k3.procs from rfl, hready] at this
        cases this
      exact ⟨(hk1 p).mp (asleepOn_of_collect ((hk3 p hne).mp hp)), hne⟩
    · exact (hk3 p hne).mpr (collect_asleepOn hs1 hz1 (hunshared p hp) ((hk1 p).mpr hb))
    · rw [show (k3.mmFree ⟨.semWaiter, w.node⟩).procs = k3.procs from rfl, hother p hne]
      apply hu.asleep p
      · rwa [hp1]
      · rwa [hpiped, hp1]
    · exact unshared_of_pipes (hd.unshared (hunshared p hp)) (fun _ => ⟨rfl, rfl⟩) rfl

/-- The tokens of a run. -/
def tokens (s : Nat) (r : SemRun) : TokenQueue Slot :=
  ⟨(r.σ.k.sems s).count, r.line, r.posts, r.granted⟩

/-- The queue of the semaphore is the line of those who are blocked on it. -/
structure Lined (s v : Nat) (idle : Slot) (r : SemRun) : Prop where
  kept : Kept r.σ idle
  positive : Positive r.σ.k
  balanced : (tokens s r).Balanced v
  queue : (r.σ.k.sems s).waiters.map Waiter.proc = r.line
  asleep : ∀ p, AsleepOn r.σ.k s p ↔ p ∈ r.line
  nodup : r.line.Nodup
  unshared : ∀ p ∈ r.line, Unshared r.σ.k p

lemma stay_eq {l : List Slot} (h : ∀ p ∈ l, AsleepOn k s p) :
    l.filter (fun p => decide (AsleepOn k s p)) = l :=
  List.filter_eq_self.mpr fun p hp => decide_eq_true (h p hp)

lemma lined_other (h : Lined s v idle r) (hw : e.waitsOn r.σ.k s = false)
    (hp : e.postsOn r.σ.k s = false) (hl : LeavesSem s r.σ σ') (hk : Kept σ' idle)
    (hpos : Positive σ'.k) (hs : r.σ.step e = some σ') (hr : r.step s e = some r') :
    Lined s v idle r' := by
  have hstay : r.line.filter (fun p => decide (AsleepOn σ'.k s p)) = r.line :=
    stay_eq fun p hp => (hl.asleep p).mpr ((h.asleep p).mpr hp)
  have hr' : r' = ⟨σ', r.posts, r.granted, r.line⟩ := by
    rw [SemRun.step, hs, Option.map_some, Option.some.injEq, hw, hp, hstay] at hr
    simpa using hr.symm
  rw [hr']
  refine ⟨hk, hpos, ?_, hl.waiters ▸ h.queue, fun p => (hl.asleep p).trans (h.asleep p), h.nodup,
    fun p hp => hl.unshared p ((h.asleep p).mpr hp) (h.unshared p hp)⟩
  have hb := h.balanced
  rw [tokens] at hb ⊢
  rwa [hl.count]

lemma lined_wait (h : Lined s v idle r) {handle : Int}
    (hs : r.σ.step (.syscall (.semWait handle)) = some σ')
    (hpeek : semHandlePeek r.σ.k handle = some s) (hm : r.σ.k.heap.fails r.σ.k.heap.next = false)
    (hun : Unshared r.σ.k r.σ.exec) (hk : Kept σ' idle) (hpos : Positive σ'.k)
    (hr : r.step s (.syscall (.semWait handle)) = some r') : Lined s v idle r' := by
  rw [SemRun.step, hs, Option.map_some, Option.some.injEq] at hr
  simp only [System.step] at hs
  split at hs
  · rename_i hguard
    have hsys : syscall r.σ.k r.σ.exec (.semWait handle) = ksemWait r.σ.k r.σ.exec s := by
      simp only [syscall, hpeek]
    have hout : r.σ.outcome (.syscall (.semWait handle)) =
        some (ksemWait r.σ.k r.σ.exec s) := by
      rw [System.outcome, if_pos hguard, hsys]
    rw [hsys] at hs
    have hwait := ksemWait_waited (s := s) h.kept hguard.2 hm
    rw [hout] at hr
    simp only [Event.waitsOn, Event.postsOn, hpeek, Option.any_some] at hr
    generalize ksemWait r.σ.k r.σ.exec s = x at hs hwait hr
    have hb := h.balanced
    cases hwait with
    | nobody hc =>
      cases hs
      rw [stay_eq fun p hp => (h.asleep p).mpr hp] at hr
      have hr' : r' = ⟨⟨r.σ.k, ⟨r.σ.exec, .user⟩⟩, r.posts, r.granted, r.line⟩ := by
        simpa [Outcome.yields, Outcome.frame] using hr.symm
      rw [hr']
      exact ⟨hk, hpos, hb, h.queue, h.asleep, h.nodup, h.unshared⟩
    | @granted k' hf hcount hws hasleep hsh =>
      cases hs
      rw [stay_eq fun p hp => (hasleep p).mpr ((h.asleep p).mpr hp)] at hr
      have hr' : r' = ⟨⟨k', ⟨r.σ.exec, .user⟩⟩, r.posts, r.granted + 1, r.line⟩ := by
        simpa [Outcome.yields, Outcome.frame] using hr.symm
      rw [hr']
      refine ⟨hk, hpos, ?_, hws ▸ h.queue, fun p => (hasleep p).trans (h.asleep p), h.nodup,
        fun p hp => hsh p (h.unshared p hp)⟩
      have htok : tokens s ⟨⟨k', ⟨r.σ.exec, .user⟩⟩, r.posts, r.granted + 1, r.line⟩ =
          (tokens s r).wait r.σ.exec := by
        have hfree : 0 < (tokens s r).free := hf
        rw [TokenQueue.wait, if_pos hfree]
        simp [tokens, hcount]
      rw [htok]
      exact hb.wait _
    | @queued k' node f hf hcount hws hcaller hasleep hsh =>
      cases hs
      rw [stay_eq fun p hp => (hasleep p).mpr (.inr ((h.asleep p).mpr hp))] at hr
      have hr' : r' = ⟨⟨k', f⟩, r.posts, r.granted, r.line ++ [r.σ.exec]⟩ := by
        simpa [Outcome.yields, Outcome.frame] using hr.symm
      rw [hr']
      have hnew : r.σ.exec ∉ r.line := fun hm' => hcaller ((h.asleep _).mpr hm')
      refine ⟨hk, hpos, ?_, ?_, fun p => ?_, ?_, fun p hp => ?_⟩
      · have htok : tokens s ⟨⟨k', f⟩, r.posts, r.granted, r.line ++ [r.σ.exec]⟩ =
            (tokens s r).wait r.σ.exec := by
          have hfree : ¬0 < (tokens s r).free := by simp [tokens, hf]
          rw [TokenQueue.wait, if_neg hfree]
          simp [tokens, hcount, hf]
        rw [htok]
        exact hb.wait _
      · rw [hws, List.map_append, h.queue]
        rfl
      · rw [hasleep p, h.asleep p, List.mem_append, List.mem_singleton, or_comm]
      · exact List.nodup_append_comm.mp (List.nodup_cons.mpr ⟨hnew, h.nodup⟩)
      · rcases List.mem_append.mp hp with hp | hp
        · exact hsh p (h.unshared p hp)
        · rw [List.mem_singleton.mp hp]
          exact hsh _ hun
  · cases hs

lemma lined_posted (h : Lined s v idle r)
    (hsat : (r.σ.k.sems s).waiters = [] → (r.σ.k.sems s).count < uint32Max) :
    Posted r.σ.k s (ksemPost procUnblock r.σ.k s) := by
  refine ksemPost_posted h.kept h.positive (fun w hw => ?_) hsat
  have hp : w.proc ∈ r.line := h.queue ▸ List.mem_map_of_mem hw
  exact ⟨(h.asleep _).mpr hp, h.unshared _ hp⟩

lemma lined_post (h : Lined s v idle r) {handle : Int}
    (hs : r.σ.step (.syscall (.semPost handle)) = some σ')
    (hpeek : semHandlePeek r.σ.k handle = some s)
    (hsat : (r.σ.k.sems s).waiters = [] → (r.σ.k.sems s).count < uint32Max)
    (hk : Kept σ' idle) (hpos : Positive σ'.k)
    (hr : r.step s (.syscall (.semPost handle)) = some r') : Lined s v idle r' := by
  rw [SemRun.step, hs, Option.map_some, Option.some.injEq] at hr
  simp only [System.step] at hs
  split at hs
  · have hsys : syscall r.σ.k r.σ.exec (.semPost handle) =
        returning (ksemPost procUnblock r.σ.k s) := by
      simp only [syscall, hpeek]
    rw [hsys, returning] at hs
    simp only [Event.waitsOn, Event.postsOn, hpeek, decide_true, Bool.false_and, if_true] at hr
    have hpost := lined_posted h hsat
    generalize ksemPost procUnblock r.σ.k s = x at hs hpost
    have hb := h.balanced
    have hq := h.queue
    cases hpost with
    | @counted k' hw hcount hws hasleep hsh =>
      cases hs
      rw [stay_eq fun p hp => (hasleep p).mpr ((h.asleep p).mpr hp)] at hr
      have hr' : r' = ⟨⟨k', ⟨r.σ.exec, .user⟩⟩, r.posts + 1, r.granted, r.line⟩ := by
        simpa [Outcome.frame] using hr.symm
      have hline : r.line = [] := by rw [← hq, hw]; rfl
      rw [hr']
      refine ⟨hk, hpos, ?_, ?_, fun p => (hasleep p).trans (h.asleep p), h.nodup,
        fun p hp => hsh p (h.unshared p hp)⟩
      · have htok : tokens s ⟨⟨k', ⟨r.σ.exec, .user⟩⟩, r.posts + 1, r.granted, r.line⟩ =
            (tokens s r).post := by
          simp [TokenQueue.post, tokens, hline, hcount]
        rw [htok]
        exact hb.post
      · rw [hws, hline]
        rfl
    | @woke k' w ws hw hcount hws hready hasleep hstays hothers hsh =>
      cases hs
      rw [hw, List.map_cons] at hq
      have hnd := h.nodup
      rw [← hq, List.nodup_cons] at hnd
      have hmem : ∀ p ∈ ws.map Waiter.proc, p ∈ r.line := fun p hp => by
        rw [← hq]
        exact List.mem_cons_of_mem _ hp
      have hstay : r.line.filter (fun p => decide (AsleepOn k' s p)) = ws.map Waiter.proc := by
        rw [← hq, List.filter_cons_of_neg]
        · refine stay_eq fun p hp => hstays p ?_ (h.unshared p (hmem p hp))
            ((h.asleep p).mpr (hmem p hp))
          rintro rfl
          exact hnd.1 hp
        · simpa using fun ha => (hasleep _ ha).2 rfl
      have hlen : r.line.length = (ws.map Waiter.proc).length + 1 := by rw [← hq]; rfl
      have hr' : r' = ⟨⟨k', ⟨r.σ.exec, .user⟩⟩, r.posts + 1, r.granted + 1, ws.map Waiter.proc⟩ := by
        rw [hstay, hlen] at hr
        simpa [Outcome.frame] using hr.symm
      rw [hr']
      refine ⟨hk, hpos, ?_, by rw [hws], fun p => ?_, hnd.2, fun p hp => hsh p (h.unshared p (hmem p hp))⟩
      · have htok : tokens s
            ⟨⟨k', ⟨r.σ.exec, .user⟩⟩, r.posts + 1, r.granted + 1, ws.map Waiter.proc⟩ =
            (tokens s r).post := by
          simp [TokenQueue.post, tokens, ← hq, hcount]
        rw [htok]
        exact hb.post
      · constructor
        · intro ha
          obtain ⟨ha', hne⟩ := hasleep p ha
          have hp := (h.asleep p).mp ha'
          rw [← hq] at hp
          exact (List.mem_cons.mp hp).resolve_left hne
        · intro hp
          refine hstays p ?_ (h.unshared p (hmem p hp)) ((h.asleep p).mpr (hmem p hp))
          rintro rfl
          exact hnd.1 hp
  · cases hs

theorem lined_step (h : Lined s v idle r) (hok : r.Ok s e) (hr : r.step s e = some r') :
    Lined s v idle r' := by
  obtain ⟨σ', hs, -⟩ := Option.map_eq_some_iff.mp hr
  have hk := (step_kept h.kept hok.spares hs).1
  have hpos := step_positive h.kept h.positive hs
  cases hw : e.waitsOn r.σ.k s with
  | true =>
    obtain ⟨hm, hun⟩ := hok.waits hw
    cases e with
    | syscall c =>
      cases c with
      | semWait handle => exact lined_wait h hs (of_decide_eq_true hw) hm hun hk hpos hr
      | _ => cases hw
    | _ => cases hw
  | false =>
    cases hp : e.postsOn r.σ.k s with
    | true =>
      cases e with
      | syscall c =>
        cases c with
        | semPost handle =>
          exact lined_post h hs (of_decide_eq_true hp) (hok.posts hp) hk hpos hr
        | _ => cases hp
      | _ => cases hp
    | false =>
      have hl : LeavesSem s r.σ σ' := by
        rcases hok.other hw hp with he | he
        · exact reschedules_leavesSem h.kept he hs
        · exact he σ' hs
      exact lined_other h hw hp hl hk hpos hs hr

lemma start_lined (h : r.Start s v) : ∃ idle, Lined s v idle r := by
  obtain ⟨idle, hk⟩ := reach_kept h.reach
  refine ⟨idle, hk, reach_positive h.reach, ?_, ?_, fun p => ?_, ?_, fun p hp => ?_⟩
  · rw [tokens, h.count, h.line, h.posts, h.granted]
    exact TokenQueue.balanced_start v
  · rw [h.waiters, h.line]
    rfl
  · simp [h.nobody p, h.line]
  · simp [h.line]
  · rw [h.line] at hp
    cases hp

/-- In every run of waits and posts, of the initial tokens and the posted ones every one is in the
count or granted; a semaphore with a positive count has no queue; its queue is the processes blocked
on it, in the order in which they blocked; and a post to a semaphore with a queue makes the first of them
ready, and no other one. -/
theorem tokens_conserved (h : Transition.Reach (SemRun.Start s v) (SemRun.step s) (SemRun.Ok s) r) :
    v + r.posts = (r.σ.k.sems s).count + r.granted ∧
      (0 < (r.σ.k.sems s).count → (r.σ.k.sems s).waiters = []) ∧
      (r.σ.k.sems s).waiters.map Waiter.proc = r.line ∧ (∀ p, AsleepOn r.σ.k s p ↔ p ∈ r.line) ∧
      ∀ handle σ' w ws, r.σ.step (.syscall (.semPost handle)) = some σ' →
        semHandlePeek r.σ.k handle = some s → (r.σ.k.sems s).waiters = w :: ws →
        (σ'.k.procs w.proc).state = .ready ∧ (σ'.k.sems s).waiters = ws ∧
          ∀ p, p ≠ w.proc → (r.σ.k.procs p).state = .blocked →
            AsleepOn r.σ.k s p ∨ ¬Piped r.σ.k (r.σ.k.procs p).pid →
            (σ'.k.procs p).state = .blocked := by
  obtain ⟨idle, hl⟩ : ∃ idle, Lined s v idle r := by
    refine h.invariant (fun _ h0 => start_lined h0) fun r0 e r1 hl hok hr => ?_
    obtain ⟨idle, hl⟩ := hl
    exact ⟨idle, lined_step hl hok hr⟩
  refine ⟨hl.balanced.total, fun hf => ?_, hl.queue, hl.asleep, ?_⟩
  · have hline := hl.balanced.served hf
    rw [← List.map_eq_nil_iff (f := Waiter.proc), hl.queue]
    exact hline
  · intro handle σ' w ws hs hpeek hw
    have hpost := lined_posted hl fun h0 => by simp [h0] at hw
    simp only [System.step] at hs
    split at hs
    · have hsys : syscall r.σ.k r.σ.exec (.semPost handle) =
          returning (ksemPost procUnblock r.σ.k s) := by
        simp only [syscall, hpeek]
      rw [hsys] at hs
      generalize ksemPost procUnblock r.σ.k s = x at hs hpost
      cases hpost with
      | counted h0 => simp [h0] at hw
      | woke hw' _ hws hready _ hstays hothers _ =>
        rw [hw', List.cons.injEq] at hw
        obtain ⟨rfl, rfl⟩ := hw
        cases hs
        refine ⟨hready, hws, fun p hne hb hp => ?_⟩
        rcases hp with ha | hn
        · exact (hstays p hne (hl.unshared p ((hl.asleep p).mp ha)) ha).2.1
        · exact hothers p hne hb hn
    · cases hs

lemma EmptyQueues.unpiped (h : EmptyQueues k) (hi : k'.pipes = k.pipes) (pid : Int) :
    ¬Piped k' pid := by
  rintro ⟨i, w, hw, -⟩
  rw [hi, (h.pipes i).1, (h.pipes i).2] at hw
  simp at hw

lemma semOpen_pipes {name : CStr} {init : Nat} (hs : System.step σ (.syscall (.semOpen name init)) =
    some σ') : σ'.k.pipes = σ.k.pipes := by
  simp only [System.step] at hs
  split at hs
  · cases hs
    exact (congrArg Kernel.pipes (semWrite_sysSemOpen σ.k name init).same :)
  · cases hs

/-- The child opens a semaphore without tokens and waits for it, and the shell posts. -/
theorem tokens_conserved_sample : ∃ r : SemRun, r.posts = 1 ∧ r.granted = 1 ∧
    0 + r.posts = (r.σ.k.sems 9).count + r.granted ∧
    (r.σ.k.sems 9).waiters.map Waiter.proc = r.line := by
  have hrun : (Transition.run System.step booted childRun).any (fun σa =>
      (System.step σa (.syscall (.semOpen [97] 0))).any fun σ =>
        decide ((σ.k.sems 9).count = 0 ∧ (σ.k.sems 9).waiters = [] ∧ (∀ p, ¬AsleepOn σ.k 9 p) ∧
          σ.k.heap.fails σ.k.heap.next = false ∧ semHandlePeek σ.k 1 = some 9 ∧
          ∀ q, (σ.k.procs q).used → (σ.k.procs q).pid = (σ.k.procs σ.exec).pid → q = σ.exec) &&
        (SemRun.step 9 ⟨σ, 0, 0, []⟩ (.syscall (.semWait 1))).any fun r1 =>
          decide (semHandlePeek r1.σ.k 1 = some 9 ∧ (r1.σ.k.sems 9).waiters ≠ []) &&
          (SemRun.step 9 r1 (.syscall (.semPost 1))).any fun r =>
            decide (r.posts = 1 ∧ r.granted = 1)) = true := by
    decide +kernel
  obtain ⟨σa, ha, hrun⟩ := (Option.any_eq_true _ _).mp hrun
  obtain ⟨σ, hσ, hrun⟩ := (Option.any_eq_true _ _).mp hrun
  rw [Bool.and_eq_true] at hrun
  obtain ⟨hcount, hwaiters, hnobody, hfails, hpeek, halone⟩ := of_decide_eq_true hrun.1
  obtain ⟨r1, h1, hrun⟩ := (Option.any_eq_true _ _).mp hrun.2
  rw [Bool.and_eq_true] at hrun
  obtain ⟨hpeek1, hwaiters1⟩ := of_decide_eq_true hrun.1
  obtain ⟨r, h2, hrun⟩ := (Option.any_eq_true _ _).mp hrun.2
  obtain ⟨hposts, hgranted⟩ := of_decide_eq_true hrun
  have hok : ∀ e ∈ childRun, ∀ σ, SparesCaller σ e ∧ Event.queuesNobody e = true := fun e he =>
    turnsRun_ok e (List.mem_append_left _ he)
  have hreach := (Transition.Reach.start booted_boot).of_run_ok hok ha
  have hq : EmptyQueues σa.k := hreach.invariant (fun _ => boot_emptyQueues)
    fun _ _ _ hq ho hs => step_emptyQueues hq ho.2 hs
  have hspares : ∀ σ c, (∀ pid, c ≠ .kill pid) → SparesCaller σ (.syscall c) := by
    intro σ c hc p hp
    cases c with
    | kill pid => exact absurd rfl (hc pid)
    | _ => cases hp.2.1
  have hstart : SemRun.Start 9 0 ⟨σ, 0, 0, []⟩ := by
    refine ⟨?_, hcount, hwaiters, hnobody, rfl, rfl, rfl⟩
    exact (hreach.mono fun _ _ h => h.1).next (hspares _ _ (by simp)) hσ
  have hr1 : Transition.Reach (SemRun.Start 9 0) (SemRun.step 9) (SemRun.Ok 9) r1 := by
    refine (Transition.Reach.start hstart).next ⟨hspares _ _ (by simp), fun _ => ?_, ?_, ?_⟩ h1
    · exact ⟨hfails, halone, hq.unpiped (semOpen_pipes hσ) _⟩
    · intro h
      cases h
    · intro h
      simp [Event.waitsOn, hpeek] at h
  have hr : Transition.Reach (SemRun.Start 9 0) (SemRun.step 9) (SemRun.Ok 9) r := by
    refine hr1.next ⟨hspares _ _ (by simp), ?_, fun _ h => absurd h hwaiters1, ?_⟩ h2
    · intro h
      cases h
    · intro _ h
      simp [Event.postsOn, hpeek1] at h
  obtain ⟨htotal, -, hline, -⟩ := tokens_conserved hr
  exact ⟨r, hposts, hgranted, htotal, hline⟩

end TP2Kernel.Proofs
