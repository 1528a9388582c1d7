import TP2Kernel.Proofs.Booting

/-!
# The current process

`current` points to the process whose code is executing, unless that process reniced itself
or killed its parent.
-/

namespace TP2Kernel.Proofs
open Function

/-- In a run whose steps meet the condition, the current process is the executing one, and no
call of `schedule` has returned at its first test. -/
theorem current_executing {σ : System}
    (h : Transition.Reach Boot System.step KeepsCurrent σ) :
    σ.k.current = some σ.exec ∧ σ.k.schedulerEnabled = true ∧ σ.k.bailouts = 0 := by
  have hinv : ∃ idle, Kept σ idle ∧ σ.k.current ≠ none ∧ σ.k.bailouts = 0 := by
    apply h.invariant (I := fun σ => ∃ idle, Kept σ idle ∧ σ.k.current ≠ none ∧ σ.k.bailouts = 0)
    · intro σ hb
      obtain ⟨idle, hk, hc, hz⟩ := boot_kept hb
      exact ⟨idle, hk, by simp [hc], hz⟩
    · rintro σ e σ' ⟨idle, hk, hc, hz⟩ hok hs
      obtain ⟨hk', hsel⟩ := step_kept hk hok.1 hs
      obtain ⟨hc', hb⟩ := hsel hok hc
      exact ⟨idle, hk', hc', hb.trans hz⟩
  obtain ⟨idle, hk, hc, hz⟩ := hinv
  obtain ⟨c, hcc⟩ := Option.ne_none_iff_exists'.mp hc
  obtain ⟨rfl, -⟩ := hk.current c hcc
  exact ⟨hcc, hk.enabled, hz⟩

/-- A booted system in which no allocation fails. -/
def booted : System := ⟨bootKernel fun _ => false, ⟨0, .user⟩⟩

lemma booted_boot : Boot booted := ⟨fun _ => false, 0, rfl, by decide +kernel, rfl⟩

/-- The shell is dispatched at the fifth tick and raises its own priority. -/
def reniceRun : List Event := List.replicate 5 .tick ++ [.syscall (.nice 2 3)]

/-- The shell creates a process and yields to it. -/
def childRun : List Event :=
  List.replicate 5 .tick ++ [.syscall (.createProcess (some 0) (some [97]) 2 false), .syscall .yield]

lemma childRun_keeps : ∀ e ∈ childRun, ∀ σ, KeepsCurrent σ e := by
  intro e he σ
  simp only [childRun, List.mem_append, List.mem_replicate, List.mem_cons, List.not_mem_nil,
    or_false] at he
  rcases he with ⟨-, rfl⟩ | rfl | rfl
  · exact ⟨fun _ h => (nomatch h.2.1), fun _ _ h => (nomatch h)⟩
  · exact ⟨fun _ h => (nomatch h.2.1), fun _ _ h => (nomatch h)⟩
  · exact ⟨fun _ h => (nomatch h.2.1), fun _ _ h => (nomatch h)⟩

theorem current_executing_sample :
    ∃ σ, Transition.run System.step booted childRun = some σ ∧ σ.exec = 2 ∧
      σ.k.current = some σ.exec ∧ σ.k.schedulerEnabled = true ∧ σ.k.bailouts = 0 := by
  have hrun : (Transition.run System.step booted childRun).any
      (fun σ => decide (σ.exec = 2)) = true := by
    decide +kernel
  obtain ⟨σ, hσ, h⟩ := (Option.any_eq_true _ _).mp hrun
  exact ⟨σ, hσ, of_decide_eq_true h,
    current_executing ((Transition.Reach.start booted_boot).of_run_ok childRun_keeps hσ)⟩

theorem current_cleared : ∃ σ, Transition.Reach Boot System.step (fun _ _ => True) σ ∧
    σ.k.current = none ∧ σ.exec = 1 ∧ (σ.k.procs 1).state = .ready ∧ σ.k.bailouts = 1 := by
  have hrun : (Transition.run System.step booted reniceRun).any (fun σ =>
      decide (σ.k.current = none ∧ σ.exec = 1 ∧ (σ.k.procs 1).state = .ready ∧
        σ.k.bailouts = 1)) = true := by
    decide +kernel
  obtain ⟨σ, hσ, h⟩ := (Option.any_eq_true _ _).mp hrun
  exact ⟨σ, .of_run (.start booted_boot) hσ, of_decide_eq_true h⟩

end TP2Kernel.Proofs
