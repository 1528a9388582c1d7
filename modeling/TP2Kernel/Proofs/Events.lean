import TP2Kernel.Proofs.Foreground

/-!
# Relations kept by events

The terminations write the foreground beside what every call writes, `proc_create` claims a slot
first, and the timer interrupt runs the scheduler. A relation that holds of these writes too holds
between the kernels before and after every event of a run.
-/

namespace TP2Kernel.Proofs
open Function

/-- The relation holds of the writes that the events consist of while process `c` is current, if
only pids in `W` are woken and a new process gets a slot and a pid that `N` holds of. -/
structure EventClosed (c : Option Slot) (I : Kernel → Prop) (W : Int → Prop)
    (N : Slot → Int → Prop) (R : Kernel → Kernel → Prop) : Prop extends CallClosed c I W R where
  front : ∀ {k k'}, ForegroundWrite k k' → R k k'
  tick : ∀ k rsp, R k (schedule k rsp).1
  frame : ∀ k p f, R k (k.modify p fun a => { a with kframe := f })
  claim : ∀ k i prio fg name, (k.procs i).used = false → N i k.nextPid →
    R k (claimed k i prio fg name)

/-- A new process may get every slot and pid. -/
abbrev Anywhere (_ : Slot) (_ : Int) : Prop := True

/-- The relation holds of these writes whoever is woken, dispatched or created. -/
structure EventLoose (c : Option Slot) (R : Kernel → Kernel → Prop) : Prop
    extends CallLoose c R where
  front : ∀ {k k'}, ForegroundWrite k k' → R k k'
  claim : ∀ k i prio fg name, (k.procs i).used = false → R k (claimed k i prio fg name)

theorem EventLoose.closed {c : Option Slot} {R : Kernel → Kernel → Prop} (hR : EventLoose c R) :
    EventClosed c Anyhow Anyone Anywhere R where
  toCallClosed := hR.toCallLoose.closed
  front := hR.front
  tick k rsp := hR.dispatch (.schedule k rsp)
  frame k p _ := hR.dispatch (.modify k p fun _ => rfl)
  claim k i prio fg name hu _ := hR.claim k i prio fg name hu

/-- Reaping leaves a current process current. -/
lemma closed_current : ReapClosed Anyhow Anyone
    fun k k' => ∀ p, k.current = some p → k'.current = some p where
  refl _ _ h := h
  trans h h' p hp := h' p (h p hp)
  given h := h trivial
  link h p hp := by
    rw [LinkWrite] at h
    rw [h]
    exact hp
  modify _ _ _ _ _ h := h
  ready _ _ _ _ h := h
  enqueue k p _ q hq := by
    have h := schedEnqueue_write (k := k) p (by simp [hq])
    rw [SchedWrite] at h
    rw [h]
    exact hq
  pipe _ _ _ _ _ h := h
  free _ _ _ _ h := h
  queued _ _ _ _ := trivial

namespace EventClosed

variable {c : Option Slot} {I : Kernel → Prop} {W : Int → Prop} {N : Slot → Int → Prop}
  {R : Kernel → Kernel → Prop} (hR : EventClosed c I W N R)
include hR

lemma exitForeground (k : Kernel) (p : Slot) : R k (exitForeground k p) := hR.front (.exit k p)

lemma killForeground (k : Kernel) (p : Slot) : R k (killForeground k p) := hR.front (.kill k p)

lemma procExit (k : Kernel) (exec : Slot) (code : Int)
    (hp : (∀ pid, W pid) ∨ ∀ p, (collectZombies k).current = some p → (k.procs p).pid ≠ 0) :
    R k (procExit k exec code).1 := by
  have hs0 := (Steady.closed none).collectZombies k
  have h0 := hR.collectZombies k
  rw [procExit_eq]
  generalize TP2Kernel.collectZombies k = k0 at hs0 h0 hp ⊢
  split
  · exact h0
  · rename_i p hc
    split
    · exact h0
    · unfold exitTail exitRelease
      have h1 := hR.trans h0 (hR.ksemRemoveWaitersFor k0 p)
      have hs1 := hs0.trans ((Steady.closed none).ksemRemoveWaitersFor k0 p)
      generalize TP2Kernel.ksemRemoveWaitersFor k0 p = k1 at h1 hs1 ⊢
      have h2 := hR.trans h1 (hR.semCleanupProcessHandles k1 (k1.procs p).pid)
      have hs2 := hs1.trans ((Steady.closed none).semCleanupProcessHandles k1 (k1.procs p).pid)
      generalize TP2Kernel.semCleanupProcessHandles k1 (k1.procs p).pid = k2 at h2 hs2 ⊢
      have h3 := hR.trans h2 (hR.exitForeground k2 p)
      refine hR.trans (hR.trans h3 (hR.bury _ p code _ ?_)) (hR.yield _ _)
      apply hp.imp_right
      intro hp
      rw [(((Steady.closed none).detachChildren _ p).names p).1, Kernel.modify_procs_self]
      change ((TP2Kernel.exitForeground k2 p).procs p).pid ≠ 0
      rw [(ForegroundWrite.exit k2 p).procs p, (hs2.names p).1]
      exact hp p hc

lemma procKill (k : Kernel) (exec : Slot) (pid : Int)
    (hp : (∀ pid, W pid) ∨ ∀ p, (k.procs p).used → (k.procs p).pid ≠ 0) :
    R k (procKill k exec pid).1 := by
  have hs0 := (Steady.closed none).collectZombies k
  have h0 := hR.collectZombies k
  rw [procKill_eq]
  generalize TP2Kernel.collectZombies k = k0 at hs0 h0 ⊢
  split
  · exact h0
  · rename_i p hf
    obtain ⟨-, hu, -⟩ := procByPid_some hf
    split
    · exact h0
    · unfold killTail killRelease
      have h1 := hR.trans h0 (hR.ksemRemoveWaitersFor k0 p)
      have hs1 := hs0.trans ((Steady.closed none).ksemRemoveWaitersFor k0 p)
      generalize TP2Kernel.ksemRemoveWaitersFor k0 p = k1 at h1 hs1 ⊢
      have h2 := hR.trans h1 (hR.killForeground k1 p)
      have hp2 : (∀ pid, W pid) ∨ ((TP2Kernel.killForeground k1 p).procs p).pid ≠ 0 := by
        apply hp.imp_right
        intro hp
        rw [(ForegroundWrite.kill k1 p).procs p, (hs1.names p).1]
        exact hp p (hs0.used p hu)
      generalize TP2Kernel.killForeground k1 p = k2 at h2 hp2 ⊢
      split
      · rename_i hc
        apply hR.trans h2 (hR.procExit k2 exec 0 _)
        apply hp2.imp_right
        intro hp2 q hq
        rw [closed_current.collectZombies k2 p hc.2] at hq
        cases hq
        exact hp2
      · have h3 := hR.trans h2 (hR.unready k2 p)
        refine hR.trans (hR.trans h3 (hR.bury _ p 0 _ ?_)) (hR.collectZombies _)
        apply hp2.imp_right
        intro hp2
        rw [(((Steady.closed none).detachChildren _ p).names p).1, Kernel.modify_procs_self]
        change ((TP2Kernel.unready k2 p).procs p).pid ≠ 0
        rw [(((Steady.closed none).unready k2 p).names p).1]
        exact hp2

lemma fdTableClone (k : Kernel) (dst src : Nat) : R k (fdTableClone k dst src) := by
  have h0 : R k { k with tables := update k.tables dst fun _ => none } := hR.link rfl
  apply hR.trans h0
  apply hR.foldl
  intro k fd
  unfold fdTableCloneStep
  split
  · exact hR.refl k
  · exact hR.link rfl

lemma attachStd (k : Kernel) (t : Nat) (file : Option Nat) (fd : Fin fdMax) :
    R k (attachStd k t file fd) := by
  unfold TP2Kernel.attachStd
  split
  · exact hR.refl k
  · exact hR.link rfl

lemma fdTableAttachStd (k : Kernel) (t : Nat) : R k (fdTableAttachStd k t) :=
  hR.trans (hR.trans (hR.attachStd k t _ _) (hR.attachStd _ t _ _)) (hR.attachStd _ t _ _)

lemma furnish (k : Kernel) (p : Slot) (t : Nat) : R k (furnish k p t) := by
  unfold Proofs.furnish
  have h0 := hR.modify k p (fun c => { c with fdTable := some t }) ⟨rfl, id⟩
  dsimp only
  split
  · have hl : ∀ k parent, R k (linkChild k parent p) := fun _ _ => hR.link rfl
    split
    · exact hR.trans (hR.trans h0 (hR.fdTableClone _ t _)) (hl _ _)
    · exact hR.trans (hR.trans h0 (hR.fdTableAttachStd _ t)) (hl _ _)
  · exact hR.trans h0 (hR.fdTableAttachStd _ t)

lemma installProc (k : Kernel) (p : Slot) (t : Nat) (fg : Bool) (hp : (k.procs p).state = .new) :
    R k (installProc k p t fg).1 := by
  have h1 := hR.trans (hR.furnish k p t) (hR.enqueue _ p (by simp [Awake, furnish_procs, hp]))
  rw [installProc_eq]
  dsimp only
  split
  · exact hR.trans h1 (hR.front (.setTty _ _))
  · exact h1

lemma createTable (k : Kernel) (p : Slot) (fg : Bool) (hp : (k.procs p).state = .new) :
    R k (createTable k p fg).1 := by
  unfold Proofs.createTable fdTableCreate
  have h1 := hR.malloc k
  cases hm : k.mmMalloc with
  | mk k1 m =>
    rw [hm] at h1
    cases m with
    | none =>
      exact hR.trans h1 (hR.trans (hR.freeKstack k1 p) (hR.releaseSlot hR.wake _ p))
    | some t =>
      have h2 : R k1 { k1 with tables := update k1.tables t fun _ => none } := hR.link rfl
      apply hR.trans h1 (hR.trans h2 (hR.installProc _ p t fg _))
      rw [(mmMalloc_some hm).2]
      exact hp

lemma createStack (k : Kernel) (p : Slot) (fg : Bool) (hp : (k.procs p).state = .new) :
    R k (createStack k p fg).1 := by
  unfold Proofs.createStack
  have h1 := hR.malloc k
  cases hm : k.mmMalloc with
  | mk k1 m =>
    rw [hm] at h1
    cases m with
    | none => exact hR.trans h1 (hR.releaseSlot hR.wake k1 p)
    | some stack =>
      have h2 := hR.modify k1 p (fun c => { c with kstackBase := some stack }) ⟨rfl, id⟩
      have h3 := hR.trans h2 (hR.frame _ p (some ⟨p, .trampoline⟩))
      apply hR.trans h1 (hR.trans h3 (hR.createTable _ p fg _))
      simp [(mmMalloc_some hm).2, Kernel.modify, hp]

lemma procCreate (k : Kernel) (entry : Option Nat) (prio : Int) (fg : Bool) (name : Option CStr)
    (hN : ∀ e n, entry = some e → name = some n → ∀ i, ((collectZombies k).procs i).used = false →
      N i k.nextPid) :
    R k (procCreate k entry prio fg name).1 := by
  cases entry with
  | none => exact hR.refl k
  | some e =>
    cases name with
    | none => exact hR.refl k
    | some name =>
      have hs0 := (Steady.closed none).collectZombies k
      have h0 := hR.collectZombies k
      rw [procCreate_some]
      generalize TP2Kernel.collectZombies k = k0 at hs0 h0 hN ⊢
      unfold createTail allocateSlot
      cases hi : (List.finRange maxProcs).find? fun i => !(k0.procs i).used with
      | none => exact h0
      | some i =>
        have hu : (k0.procs i).used = false := by simpa using List.find?_some hi
        have hN0 : N i k0.nextPid := by
          rw [hs0.nextPid]
          exact hN e name rfl rfl i hu
        have h1 := hR.claim k0 i (clampPrio prio) fg name hu hN0
        apply hR.trans h0 (hR.trans h1 (hR.createStack _ i fg _))
        unfold claimed
        rw [setParentPid_eq]
        simp [Kernel.modify, initPcb]

/-- One event that leads from a state in which process `c` is current. -/
theorem step {σ σ' : System} {e : Event} (hc : σ.k.current = c)
    (hz : (TP2Kernel.collectZombies σ.k).current = c)
    (hp : (∀ pid, W pid) ∨ ((∀ p, (σ.k.procs p).used → (σ.k.procs p).pid ≠ 0) ∧
      ∀ p, c = some p → (σ.k.procs p).used))
    (hW : ∀ pid, e = .syscall (.unblock pid) → W pid)
    (hN : ∀ entry name prio fg, e = .syscall (.createProcess (some entry) (some name) prio fg) →
      ∀ i, ((TP2Kernel.collectZombies σ.k).procs i).used = false → N i σ.k.nextPid)
    (hs : System.step σ e = some σ') : R σ.k σ'.k := by
  cases e with
  | syscall call =>
    simp only [System.step] at hs
    split at hs
    · cases hs
      cases call with
      | createProcess entry name prio fg =>
        apply hR.procCreate
        rintro e n rfl rfl
        exact hN e n prio fg rfl
      | kill pid => exact hR.procKill σ.k σ.exec pid (hp.imp_right And.left)
      | exit code =>
        apply hR.procExit
        apply hp.imp_right
        intro hp p hc'
        rw [hz] at hc'
        exact hp.1 p (hp.2 p hc')
      | unblock pid =>
        exact hR.syscall hc hz σ.exec rfl fun p h => hW p (by rw [h])
      | _ => exact hR.syscall hc hz σ.exec rfl fun p h => by cases h
    · cases hs
  | resume =>
    simp only [System.step, Option.map_eq_some_iff] at hs
    obtain ⟨r, hr, rfl⟩ := hs
    exact hR.resume hc σ.exec hr
  | tick =>
    simp only [System.step] at hs
    split at hs
    · cases hs
      exact hR.tick σ.k σ.cpu
    · cases hs
  | key ch =>
    simp only [System.step] at hs
    split at hs
    · cases hs
      by_cases h3 : ch = 3
      · simp only [ttyPushChar]
        rw [if_pos h3]
        split
        · exact hR.procKill σ.k σ.exec _ (hp.imp_right And.left)
        · exact hR.refl σ.k
      · exact hR.ttyPushChar σ.k σ.exec h3
    · cases hs

end EventClosed

end TP2Kernel.Proofs
