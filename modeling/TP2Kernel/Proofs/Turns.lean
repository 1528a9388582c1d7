import TP2Kernel.Proofs.CurrentProcess
import TP2Kernel.Proofs.Frames

/-!
# The end of an event

An event is a sequence of actions and then at most one run of the scheduler. The scheduler
neither terminates a process nor brings one back to life, and blocks and wakes at most the
current one.
-/

namespace TP2Kernel.Proofs
open Function

variable {s : Scope} {k k' k'' : Kernel} {idle : Slot}

/-- What happens where the current process gives the processor away. -/
structure Turn (k k' : Kernel) : Prop where
  write : DispatchWrite k k'
  procs : ∀ x, Resched { k.procs x with waitingFor := (k'.procs x).waitingFor } (k'.procs x)
  waiting : ∀ x, k.current ≠ some x → (k'.procs x).waitingFor = (k.procs x).waitingFor
  exited : ∀ x, (k'.procs x).state = .exited ↔ (k.procs x).state = .exited
  blocked : ∀ x, k.current ≠ some x →
    ((k'.procs x).state = .blocked ↔ (k.procs x).state = .blocked)

namespace Turn

lemma refl (k : Kernel) : Turn k k :=
  ⟨rfl, fun _ => rfl, fun _ _ => rfl, fun _ => .rfl, fun _ _ => .rfl⟩

lemma trans (h : Turn k k') (h' : Turn k' k'')
    (hc : ∀ x, k.current ≠ some x → k'.current ≠ some x) : Turn k k'' := by
  refine ⟨h.write.trans h'.write, fun x => ?_, fun x hx => ?_, fun x => ?_, fun x hx => ?_⟩
  · have h1 := h.procs x
    have h2 := h'.procs x
    rw [Resched] at h1 h2 ⊢
    rw [h2, h1]
  · exact (h'.waiting x (hc x hx)).trans (h.waiting x hx)
  · exact (h'.exited x).trans (h.exited x)
  · exact (h'.blocked x (hc x hx)).trans (h.blocked x hx)

lemma used (h : Turn k k') (x : Slot) : (k'.procs x).used = (k.procs x).used := by rw [h.procs x]

lemma live (h : Turn k k') (x : Slot) : Live k' x ↔ Live k x := by
  rw [Live, Live, h.used x, ne_eq, ne_eq, h.exited x]

/-- Writes to the current process that do not terminate it. -/
lemma modify {c : Slot} (hc : k.current = some c) (f : Pcb → Pcb)
    (hf : ∀ a, Resched { a with waitingFor := (f a).waitingFor } (f a))
    (he : (k.procs c).state ≠ .exited ∧ (f (k.procs c)).state ≠ .exited) :
    Turn k (k.modify c f) := by
  have hne : ∀ x, k.current ≠ some x → x ≠ c := by
    rintro x hx rfl
    exact hx hc
  refine ⟨rfl, fun x => ?_, fun x hx => ?_, fun x => ?_, fun x hx => ?_⟩
  · rw [Kernel.modify_procs]
    split
    · rename_i h
      rw [h]
      exact hf _
    · rfl
  · rw [k.modify_procs_of_ne f (hne x hx)]
  · rw [Kernel.modify_procs]
    split
    · rename_i h
      rw [h]
      exact iff_of_false he.2 he.1
    · exact .rfl
  · rw [k.modify_procs_of_ne f (hne x hx)]

end Turn

lemma Switched.turn {rsp : Frame} {f : Option Frame} {cur next : Slot} (hw : Redispatch k k')
    (hs : Switched k k' rsp f cur next) (hc : k.current = some cur)
    (hi : ∀ i, k.idleProc = some i →
      (k.procs i).state ≠ .exited ∧ ((k.procs i).state = .blocked → i = cur)) : Turn k k' := by
  have hnext : (k.procs next).state ≠ .exited ∧ ((k.procs next).state = .blocked → next = cur) := by
    rcases hs.chosen with h | ⟨-, h | ⟨e, h⟩⟩
    · exact hi next h
    · rw [h]
      simp
    · rw [e, h]
      simp
  have hwait : ∀ x, (k'.procs x).waitingFor = (k.procs x).waitingFor := fun x => by
    rw [hw.procs x]
  refine ⟨hw.write, fun x => ?_, fun x _ => hwait x, fun x => ?_, fun x hx => ?_⟩
  · rw [hwait x]
    exact hw.procs x
  · rw [hs.state x]
    split
    · rename_i h
      rw [h]
      exact iff_of_false (by simp) hnext.1
    · split
      · rename_i h
        rw [h.1, h.2.1]
        simp
      · exact .rfl
  · rw [hs.state x]
    split
    · rename_i h
      rw [h]
      refine iff_of_false (by simp) fun hb => hx ?_
      rw [hc, h, hnext.2 hb]
    · split
      · rename_i h
        rw [h.1, h.2.1]
        simp
      · exact .rfl

lemma Turn.drained (k : Kernel) (n : Nat) : Turn k { drained k with bailouts := n } := by
  obtain ⟨hw, hp⟩ := drained_spec k
  have hprocs : ∀ x, ∃ m, ({ TP2Kernel.Proofs.drained k with bailouts := n } : Kernel).procs x =
    { k.procs x with ticksLeft := m } := hp
  refine ⟨?_, fun x => ?_, fun x _ => ?_, fun x => ?_, fun x _ => ?_⟩
  · rw [SchedWrite] at hw
    rw [DispatchWrite, hw]
  all_goals
    obtain ⟨m, hm⟩ := hprocs x
    rw [hm]
  rfl

/-- A yield over consistent ready queues. -/
lemma yield_turn {rsp : Frame} (hc : Consistent k) (hi : k.idleProc = some idle)
    (hf : (k.procs idle).kframe ≠ none) (he : (k.procs idle).state ≠ .exited)
    (hb : (k.procs idle).state = .blocked → k.current = some idle)
    (hu : ∀ d, k.current = some d → (k.procs d).state = .running → (k.procs d).used) :
    Turn k (k.yield rsp).1 := by
  obtain ⟨q, hq⟩ := hc
  have hr := Redispatch.yield k rsp
  have hy : Yielded k rsp (schedForceYield k rsp) := schedForceYield_cases hq hu
  rw [show (k.yield rsp).1 = (schedForceYield k rsp).1 from rfl] at hr ⊢
  generalize schedForceYield k rsp = r at hy hr
  cases hy with
  | bail _ => exact Turn.drained k _
  | switch hcur hs =>
    apply hs.turn hr hcur
    intro i hi'
    rw [hi, Option.some.injEq] at hi'
    subst hi'
    refine ⟨he, fun hb' => ?_⟩
    have h := hb hb'
    rw [hcur, Option.some.injEq] at h
    exact h.symm
  | stuck _ _ _ _ hidle _ => exact absurd (hidle idle hi).2 hf

/-- A call that does not terminate the current process is a sequence of actions, and then at most
a turn. -/
theorem ends_turn {Q : Kernel → Prop} {exec : Slot} {r : Kernel × Outcome} (h : Sane k idle)
    (hen : k.schedulerEnabled = true) (hcur : ∀ c, k.current = some c → Executing k c)
    (hti : ¬s.terminated idle) (htx : ∀ c, k.current = some c → ¬s.terminated c)
    (he : Ends Q s k exec r) : ∃ k1, Steps s k k1 ∧ Q k1 ∧ Turn k1 r.1 := by
  have hoff : CurrentOff k := fun c hc => .inl ⟨(hcur c hc).used, (hcur c hc).running⟩
  cases he with
  | back h1 hQ => exact ⟨_, h1, hQ, .refl _⟩
  | leave pc h1 hQ hl =>
    rename_i k1 k2
    have hs1 := steps_sane h h1 hti
    have hc1 := steps_currentOff h.sound h1 hoff
    obtain ⟨hc2, hu2⟩ := leaves_consistent hs1.sound.consistent hc1 hl
    have hf1 := hs1.sound.frame idle hs1.idleLive
    refine ⟨k1, h1, hQ, ?_⟩
    cases hl with
    | yields =>
      exact yield_turn hc2 hs1.idleProc hf1 (by simp [hs1.idleRunning]) (by simp [hs1.idleRunning])
        hu2
    | blocks w hc =>
      rename_i cur
      have hck := steps_current h.sound h1 hc
      have hx := steps_executing h.sound h1 (htx cur hck) (hcur cur hck)
      have hm : Turn k1 (k1.modify cur fun c =>
          { c with waitingFor := w c, state := .blocked, ticksLeft := 0 }) :=
        .modify hc _ (fun _ => rfl) ⟨by simp [hx.running], by simp⟩
      refine hm.trans (yield_turn hc2 hs1.idleProc ?_ ?_ ?_ hu2) fun _ hx => hx
      · rw [Kernel.modify_procs]
        split
        · subst_vars
          exact hf1
        · exact hf1
      · rw [Kernel.modify_procs]
        split
        · simp
        · simp [hs1.idleRunning]
      · rw [Kernel.modify_procs]
        split
        · rename_i hic
          rw [hic]
          exact fun _ => hc
        · simp [hs1.idleRunning]
  | demote hd h1 hQ hp hc hr hi =>
    rename_i k1 p prio
    have hs1 := steps_sane h h1 hti
    have hc1 := steps_currentOff h.sound h1 hoff
    have hu := hc1.used p hc hr
    obtain ⟨hc2, hu2⟩ := demoted_consistent hs1.sound hp hc hu hr hi
    have hf1 := hs1.sound.frame idle hs1.idleLive
    obtain ⟨hw, hcd, hpd⟩ := demoted_write (p := p) ((steps_static h.sound h1).2.1.trans hen) prio
    refine ⟨k1, h1, hQ, ?_⟩
    have hip : idle ≠ p := fun e => hi (e ▸ hs1.idleProc)
    generalize demoted k1 p prio = k2 at *
    have hi2 : k2.idleProc = some idle := (congrArg Kernel.idleProc hw :).trans hs1.idleProc
    have hidle2 : k2.procs idle = k1.procs idle := (hpd idle).trans (if_neg hip)
    have hm : Turn k1 k2 := by
      have hne : ∀ x, k1.current ≠ some x → k2.procs x = k1.procs x := by
        intro x hx
        rw [hpd, if_neg]
        rintro rfl
        exact hx hc
      refine ⟨?_, fun x => ?_, fun x hx => by rw [hne x hx], fun x => ?_, fun x hx => by
        rw [hne x hx]⟩
      · rw [SelectWrite] at hw
        rw [DispatchWrite, hw]
      · rw [hpd]
        split
        · rename_i hx
          rw [hx]
          rfl
        · rfl
      · rw [hpd]
        split
        · rename_i hx
          rw [hx, hr]
          simp
        · exact .rfl
    refine hm.trans (yield_turn hc2 hi2 ?_ ?_ ?_ hu2) fun x hx => ?_
    · rw [hidle2]
      exact hf1
    · rw [hidle2, hs1.idleRunning]
      simp
    · rw [hidle2, hs1.idleRunning]
      simp
    · rw [hcd, hc, if_pos rfl]
      simp

lemma schedule_turn {σ : System} (h : Kept σ idle) : Turn σ.k (schedule σ.k σ.cpu).1 := by
  have hs := h.sane
  have hr := Redispatch.schedule σ.k σ.cpu
  obtain ⟨q, hq⟩ := hs.sound.consistent
  have hy : Scheduled σ.k σ.cpu (schedule σ.k σ.cpu) :=
    schedule_cases hq fun c hc _ => (h.current c hc).2.used
  generalize schedule σ.k σ.cpu = r at hy hr
  cases hy with
  | bail _ => exact ⟨rfl, fun _ => rfl, fun _ _ => rfl, fun _ => .rfl, fun _ _ => .rfl⟩
  | stay hc hrun _ =>
    dsimp only
    apply Turn.modify hc
    · exact fun _ => rfl
    · simp [hrun]
  | switch hc hsw =>
    apply hsw.turn hr hc
    intro i hi
    rw [hs.idleProc, Option.some.injEq] at hi
    rw [← hi, hs.idleRunning]
    simp
  | stuck _ _ _ _ hidle _ =>
    exact absurd (hidle idle hs.idleProc).2 (hs.sound.frame idle hs.idleLive)

end TP2Kernel.Proofs
