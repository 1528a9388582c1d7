import TP2Kernel.Proofs.Turns

/-!
# The process that makes a call

A call that returns neither frees the stack of its caller nor gives its slot away, unless it
kills the parent of the caller.
-/

namespace TP2Kernel.Proofs
open Function

variable {s : Scope} {k k' : Kernel} {idle : Slot}

/-- `c` is still alive, on the stack it had. -/
structure Survives (k k' : Kernel) (c : Slot) : Prop where
  used : (k'.procs c).used
  alive : (k'.procs c).state ≠ .exited
  stack : (k'.procs c).kstackBase = (k.procs c).kstackBase
  unfreed : ∀ a, (k.procs c).kstackBase = some a → ¬StackFreed k' a

/-- `c` is not terminated, and keeps its slot and its stack. -/
structure Stays (k k' : Kernel) (c : Slot) : Prop where
  used : (k'.procs c).used = (k.procs c).used
  alive : (k.procs c).state ≠ .exited → (k'.procs c).state ≠ .exited
  stack : (k'.procs c).kstackBase = (k.procs c).kstackBase

lemma Stays.trans {k'' : Kernel} {c : Slot} (h : Stays k k' c) (h' : Stays k' k'' c) :
    Stays k k'' c :=
  ⟨h'.used.trans h.used, fun he => h'.alive (h.alive he), h'.stack.trans h.stack⟩

lemma Turn.stays (h : Turn k k') (c : Slot) : Stays k k' c := by
  refine ⟨h.used c, fun he => ?_, ?_⟩
  · rw [ne_eq, h.exited c]
    exact he
  · rw [h.procs c]

/-- A call that may not terminate the current process leaves it its slot and its stack. -/
lemma ends_stays {Q : Kernel → Prop} {exec c : Slot} {r : Kernel × Outcome} (h : Sane k idle)
    (hen : k.schedulerEnabled = true) (he : Ends Q s k exec r) (hx : Executing k c)
    (hti : ¬s.terminated idle) (ht : ¬s.terminated c) : Stays k r.1 c := by
  have hc : ∀ d, k.current = some d → d = c := by
    intro d hd
    rw [hx.current, Option.some.injEq] at hd
    exact hd.symm
  obtain ⟨k1, h1, -, hturn⟩ := ends_turn h hen (fun d hd => hc d hd ▸ hx) hti
    (fun d hd => hc d hd ▸ ht) he
  have hx1 := steps_executing h.sound h1 ht hx
  have hself := (steps_self h.sound h1 ht (.inl hx)).1.1
  have hk1 : Stays k k1 c := by
    refine ⟨hself.2.1, fun _ => ?_, hself.2.2.2⟩
    rw [hx1.running]
    simp
  exact hk1.trans (hturn.stays c)

/-- What an event may do is in scope. -/
def EventOk (s : Scope) (σ : System) : Event → Prop
  | .syscall c => CallOk s σ.k c ∧ (UsesSems c → s.sems)
  | .key c => c = 3 → CallOk s σ.k (.kill (procGetForegroundPid σ.k)) ∧ s.sems
  | _ => True

/-- Every event is a timer interrupt or kernel code. -/
lemma step_outcome {σ σ' : System} {e : Event} (hs : System.step σ e = some σ') :
    (e = .tick ∧ σ'.k = (schedule σ.k σ.cpu).1) ∨ ∃ r, σ.outcome e = some r ∧ σ'.k = r.1 := by
  cases e with
  | syscall c =>
    simp only [System.step] at hs
    split at hs
    · rename_i hg
      cases hs
      exact .inr ⟨_, if_pos hg, rfl⟩
    · cases hs
  | resume =>
    simp only [System.step, Option.map_eq_some_iff] at hs
    obtain ⟨r, hr, rfl⟩ := hs
    exact .inr ⟨r, hr, rfl⟩
  | tick =>
    simp only [System.step] at hs
    split at hs
    · cases hs
      exact .inl ⟨rfl, rfl⟩
    · cases hs
  | key c =>
    simp only [System.step] at hs
    split at hs
    · rename_i hg
      cases hs
      exact .inr ⟨_, if_pos hg, rfl⟩
    · cases hs

/-- The effects of kernel code are in scope. -/
theorem outcome_ends {σ : System} {e : Event} {r : Kernel × Outcome} (h : Kept σ idle)
    (ho : Open s) (hd : EventOk s σ e) (hr : σ.outcome e = some r) :
    Ends (Listed s .idle) s σ.k σ.exec r := by
  have hsound := h.sane.sound
  have hl : Listed s .idle σ.k := h.zombies.listed ho.woken
  have hcur : ∀ c, σ.k.current = some c → Executing σ.k c := fun c hc => (h.current c hc).2
  cases e with
  | syscall c =>
    simp only [System.outcome] at hr
    split at hr
    · rename_i hg
      cases hr
      have hnc : ∀ c, σ.k.current = some c → σ.k.idleProc ≠ some c := by
        intro c hc
        rw [(h.current c hc).1]
        exact hg.2
      have hidle : ∀ i, σ.k.idleProc = some i → Live σ.k i := by
        intro i hi
        rw [h.sane.idleProc, Option.some.injEq] at hi
        exact hi ▸ h.sane.idleLive
      exact ends_syscall ho hsound hcur hnc hidle hl c hd.1 hd.2
    · cases hr
  | resume => exact ends_resume ho hl hr
  | tick => cases hr
  | key c =>
    simp only [System.outcome] at hr
    split at hr
    · cases hr
      exact ends_ttyPushChar σ.exec ho hsound hcur hl c hd
    · cases hr

theorem step_ends {σ σ' : System} {e : Event} (h : Kept σ idle) (ho : Open s)
    (hd : EventOk s σ e) (hs : System.step σ e = some σ') :
    (e = .tick ∧ σ'.k = (schedule σ.k σ.cpu).1) ∨
      ∃ r, Ends (Listed s .idle) s σ.k σ.exec r ∧ σ'.k = r.1 := by
  obtain h1 | ⟨r, hr, e1⟩ := step_outcome hs
  · exact .inl h1
  · exact .inr ⟨r, outcome_ends h ho hd hr, e1⟩

/-- The process that a kill finds is not the executing one, whose pid is another. -/
lemma killed_ne_current {σ : System} {e : Event} {p : Slot} {pid : Int} (h : Kept σ idle)
    (hr : e.Returns σ) (hv : e.victim σ.k = some pid)
    (hp : procByPid (collectZombies σ.k) pid = some p) : σ.k.current ≠ some p := by
  intro hc
  obtain ⟨rfl, hx⟩ := h.current p hc
  obtain ⟨h1, -⟩ := (listed_rule anything).collect .idle σ.k (h.zombies.listed fun _ => trivial)
  have hself := (steps_self h.sane.sound h1 id (.inl hx)).1.1
  exact hr.2 pid hv (hself.1.symm.trans (procByPid_some hp).2.2)

/-- An event that neither terminates its caller nor kills the parent of its caller. -/
theorem step_stays {σ σ' : System} {e : Event} {c : Slot} (h : Kept σ idle)
    (hc : σ.k.current = some c) (hsp : SparesCaller σ e) (hr : e.Returns σ)
    (hs : System.step σ e = some σ') : Stays σ.k σ'.k c := by
  obtain ⟨rfl, hx⟩ := h.current c hc
  have hkill : ∀ pid, e.victim σ.k = some pid →
      CallOk (sparing idle σ.k.current True) σ.k (.kill pid) := fun pid hv p hp hi =>
    dies_sparing h hsp hv hp hi (killed_ne_current h hr hv hp)
  have hd : EventOk (sparing idle σ.k.current True) σ e := by
    cases e with
    | syscall c =>
      refine ⟨?_, fun _ => trivial⟩
      cases c with
      | kill pid => exact hkill pid rfl
      | exit code => exact absurd rfl (hr.1 code)
      | block pid => exact fun _ _ => trivial
      | nice pid newPrio => exact fun _ _ => ⟨trivial, fun _ _ => trivial⟩
      | _ => exact trivial
    | key c =>
      intro h3
      refine ⟨hkill _ ?_, trivial⟩
      simp [Event.victim, h3]
    | _ => exact trivial
  rcases step_ends h (sparing_open _ _ _) hd hs with ⟨-, e⟩ | ⟨r, he, e⟩
  · rw [e]
    exact (schedule_turn h).stays _
  · rw [e]
    exact ends_stays h.sane h.enabled he hx (fun ht => ht.1 rfl) fun ht => ht.2 hc

/-- The child of the shell creates a process. -/
def grandchildRun : List Event :=
  childRun ++ [.syscall (.createProcess (some 0) (some [98]) 2 false)]

lemma grandchildRun_spares : ∀ e ∈ grandchildRun, ∀ σ, SparesCaller σ e := by
  intro e he σ
  rcases List.mem_append.mp he with he | he
  · exact (childRun_keeps e he σ).1
  · obtain rfl := List.mem_singleton.mp he
    exact fun _ h => nomatch h.2.1

lemma not_onChildList {p c : Slot} (h : k.childHead p = none) : ¬OnChildList k p c := by
  intro ho
  induction ho with
  | head hc => simp [h] at hc
  | next _ _ ih => exact ih

end TP2Kernel.Proofs
