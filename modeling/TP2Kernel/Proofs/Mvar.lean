import TP2Kernel.Mvar

/-!
# The MVar hands every value over once

At most one process is between its wait and its post, and the tokens of the two semaphores
say whether the value has been read.
-/

namespace TP2Kernel.Proofs
open Function Mvar

variable {ι : Type*} {role : ι → MvarRole} {σ σ' : Mvar ι} {i : ι}

/-- All values that were written have been read. -/
def AllRead (σ : Mvar ι) : Prop := σ.written = σ.read

/-- The value has been written and not read. -/
def OneUnread (σ : Mvar ι) : Prop := σ.written = σ.read ++ [σ.value]

/-- What holds while process `i` is between its wait and its post. -/
inductive Held (role : ι → MvarRole) (σ : Mvar ι) (i : ι) : Prop
  | storing {letter : UInt8} (hr : role i = .writer letter) (hp : σ.pc i = .entered)
      (h : AllRead σ)
  | stored {letter : UInt8} (hr : role i = .writer letter) (hp : σ.pc i = .posting none)
      (h : OneUnread σ)
  | loading (hr : role i = .reader) (hp : σ.pc i = .entered) (h : OneUnread σ)
  | loaded {v : UInt8} (hr : role i = .reader) (hp : σ.pc i = .posting (some v)) (h : AllRead σ)

/-- The invariant: the value is nobody's, and one of the semaphores has the token, or it
belongs to one process. -/
inductive Balanced (role : ι → MvarRole) (σ : Mvar ι) : Prop
  | empty (hn : ∀ j, ¬Inside σ j) (he : σ.semEmpty = 1) (hf : σ.semFull = 0) (h : AllRead σ)
  | full (hn : ∀ j, ¬Inside σ j) (he : σ.semEmpty = 0) (hf : σ.semFull = 1) (h : OneUnread σ)
  | held (i : ι) (hn : ∀ j, j ≠ i → ¬Inside σ j) (he : σ.semEmpty = 0) (hf : σ.semFull = 0)
      (h : Held role σ i)

lemma Held.inside (h : Held role σ i) : Inside σ i := by
  cases h with
  | storing _ hp => exact .inl hp
  | stored _ hp => exact .inr ⟨_, hp⟩
  | loading _ hp => exact .inl hp
  | loaded _ hp => exact .inr ⟨_, hp⟩

lemma start_balanced (h : Start σ) : Balanced role σ := by
  subst h
  refine .empty (fun j => ?_) rfl rfl rfl
  simp [Inside]

section Steps

variable [DecidableEq ι]

lemma inside_goto (σ : Mvar ι) (i : ι) (pc : MvarPc) {j : ι} (hj : j ≠ i) :
    Inside (σ.goto i pc) j ↔ Inside σ j := by
  simp [Inside, Mvar.goto, hj]

lemma inside_goto_self (σ : Mvar ι) (i : ι) (pc : MvarPc) :
    Inside (σ.goto i pc) i ↔ pc = .entered ∨ ∃ v, pc = .posting v := by
  simp [Inside, Mvar.goto]

lemma countingWait_some {n m : Nat} (h : countingWait n = some m) : n = m + 1 := by
  unfold countingWait at h
  split at h
  · have := Option.some.inj h
    omega
  · cases h

/-- Where a process is when it is not between its wait and its post. -/
def IsOutside (pc : MvarPc) : Prop := pc ≠ .entered ∧ ∀ v, pc ≠ .posting v

lemma outside_goto (σ : Mvar ι) (i : ι) {pc : MvarPc} (hpc : IsOutside pc) :
    ¬Inside (σ.goto i pc) i := by
  rw [inside_goto_self]
  rintro (h | ⟨v, h⟩)
  · exact hpc.1 h
  · exact hpc.2 v h

/-- Nobody is inside after a step by which `i` comes or stays outside. -/
lemma nobody_goto {pc : MvarPc} (hpc : IsOutside pc) (hn : ∀ j, j ≠ i → ¬Inside σ j) (j : ι) :
    ¬Inside (σ.goto i pc) j := by
  by_cases hj : j = i
  · subst hj
    exact outside_goto σ j hpc
  · rw [inside_goto _ _ _ hj]
    exact hn j hj

lemma others_goto (pc : MvarPc) (hn : ∀ j, j ≠ i → ¬Inside σ j) (j : ι) (hj : j ≠ i) :
    ¬Inside (σ.goto i pc) j := by
  rw [inside_goto _ _ _ hj]
  exact hn j hj

lemma Held.goto {k : ι} (h : Held role σ k) (pc : MvarPc) (hk : k ≠ i) :
    Held role (σ.goto i pc) k := by
  have hp : (σ.goto i pc).pc k = σ.pc k := by simp [Mvar.goto, hk]
  cases h with
  | storing hr hpc h => exact .storing hr (hp.trans hpc) h
  | stored hr hpc h => exact .stored hr (hp.trans hpc) h
  | loading hr hpc h => exact .loading hr (hp.trans hpc) h
  | loaded hr hpc h => exact .loaded hr (hp.trans hpc) h

/-- A step outside of the critical section. -/
lemma Balanced.outside {pc : MvarPc} (h : Balanced role σ) (hi : ¬Inside σ i)
    (hpc : IsOutside pc) : Balanced role (σ.goto i pc) := by
  cases h with
  | empty hn he hf h => exact .empty (nobody_goto hpc fun j _ => hn j) he hf h
  | full hn he hf h => exact .full (nobody_goto hpc fun j _ => hn j) he hf h
  | held k hn he hf h =>
    have hk : k ≠ i := by
      rintro rfl
      exact hi h.inside
    refine .held k (fun j hj => ?_) he hf (h.goto pc hk)
    by_cases hji : j = i
    · subst hji
      exact outside_goto σ j hpc
    · rw [inside_goto _ _ _ hji]
      exact hn j hj

/-- The process between its wait and its post holds both tokens. -/
lemma Balanced.inside (h : Balanced role σ) (hi : Inside σ i) :
    (∀ j, j ≠ i → ¬Inside σ j) ∧ σ.semEmpty = 0 ∧ σ.semFull = 0 ∧ Held role σ i := by
  cases h with
  | empty hn => exact absurd hi (hn i)
  | full hn => exact absurd hi (hn i)
  | held k hn he hf h =>
    by_cases hk : i = k
    · subst hk
      exact ⟨hn, he, hf, h⟩
    · exact absurd hi (hn i hk)

/-- A `sys_sem_wait` on `empty` that returns. -/
lemma Balanced.takeEmpty {n : Nat} {letter : UInt8} (h : Balanced role σ)
    (hr : role i = .writer letter) (hn : countingWait σ.semEmpty = some n) :
    Balanced role ({ σ with semEmpty := n }.goto i .entered) := by
  have he := countingWait_some hn
  cases h with
  | empty ho he' hf h =>
    refine .held i (others_goto .entered fun j _ => ho j) (show n = 0 by omega) hf ?_
    exact .storing hr (by simp [Mvar.goto]) h
  | full _ he' => omega
  | held _ _ he' => omega

/-- A `sys_sem_wait` on `full` that returns. -/
lemma Balanced.takeFull {n : Nat} (h : Balanced role σ) (hr : role i = .reader)
    (hn : countingWait σ.semFull = some n) :
    Balanced role ({ σ with semFull := n }.goto i .entered) := by
  have he := countingWait_some hn
  cases h with
  | full ho he' hf h =>
    refine .held i (others_goto .entered fun j _ => ho j) he' (show n = 0 by omega) ?_
    exact .loading hr (by simp [Mvar.goto]) h
  | empty _ _ hf => omega
  | held _ _ _ hf => omega

theorem step_balanced (h : Balanced role σ) (hs : step role σ i = some σ') :
    Balanced role σ' := by
  unfold step at hs
  split at hs
  · rename_i hp
    obtain rfl := Option.some.inj hs
    apply h.outside
    · simp [Inside, hp]
    · simp [IsOutside]
  · rename_i hr hp
    obtain ⟨n, hn, rfl⟩ := Option.map_eq_some_iff.mp hs
    exact h.takeEmpty hr hn
  · rename_i letter hr hp
    obtain rfl := Option.some.inj hs
    obtain ⟨hn, he, hf, hh⟩ := h.inside (.inl hp)
    refine .held i (others_goto _ hn) he hf ?_
    cases hh with
    | storing _ _ h =>
      exact .stored hr (by simp [Mvar.goto]) (congrArg (· ++ [letter]) h)
    | stored _ hp' => simp [hp] at hp'
    | loading hr' => simp [hr] at hr'
    | loaded hr' => simp [hr] at hr'
  · rename_i hr hp
    obtain rfl := Option.some.inj hs
    obtain ⟨hn, he, hf, hh⟩ := h.inside (.inr ⟨_, hp⟩)
    refine .full (nobody_goto ⟨by simp, by simp⟩ hn) he (congrArg (· + 1) hf) ?_
    cases hh with
    | stored _ _ h => exact h
    | storing _ hp' => simp [hp] at hp'
    | loading hr' => simp [hr] at hr'
    | loaded hr' => simp [hr] at hr'
  · rename_i hr hp
    obtain ⟨n, hn, rfl⟩ := Option.map_eq_some_iff.mp hs
    exact h.takeFull hr hn
  · rename_i hr hp
    obtain rfl := Option.some.inj hs
    obtain ⟨hn, he, hf, hh⟩ := h.inside (.inl hp)
    refine .held i (others_goto _ hn) he hf ?_
    cases hh with
    | loading _ _ h => exact .loaded (v := σ.value) hr (by simp [Mvar.goto]) h
    | loaded _ hp' => simp [hp] at hp'
    | storing hr' => simp [hr] at hr'
    | stored hr' => simp [hr] at hr'
  · rename_i hr hp
    obtain rfl := Option.some.inj hs
    obtain ⟨hn, he, hf, hh⟩ := h.inside (.inr ⟨_, hp⟩)
    refine .empty (nobody_goto ⟨by simp, by simp⟩ hn) (congrArg (· + 1) he) hf ?_
    cases hh with
    | loaded _ _ h => exact h
    | loading _ hp' => simp [hp] at hp'
    | storing hr' => simp [hr] at hr'
    | stored hr' => simp [hr] at hr'
  · rename_i hr hp
    obtain rfl := Option.some.inj hs
    apply h.outside
    · simp [Inside, hp]
    · simp [IsOutside]
  · cases hs

/-- What has been read is what has been written, but for the last value at most; a writer
stores when everything has been read, a reader loads the value that has not; and nobody else
is between its wait and its post then. -/
theorem mvar_exactly_once
    (h : Transition.Reach Mvar.Start (Mvar.step role) (fun _ _ => True) σ) :
    (σ.written = σ.read ∨ ∃ v, σ.written = σ.read ++ [v]) ∧
      (∀ i letter, role i = .writer letter → σ.pc i = .entered → σ.written = σ.read) ∧
      (∀ i, role i = .reader → σ.pc i = .entered → σ.written = σ.read ++ [σ.value]) ∧
      ∀ i j, Inside σ i → Inside σ j → i = j := by
  have hb : Balanced role σ :=
    h.invariant (fun _ => start_balanced) fun _ _ _ hb _ hs => step_balanced hb hs
  refine ⟨?_, fun i letter hr hp => ?_, fun i hr hp => ?_, fun i j hi hj => ?_⟩
  · cases hb with
    | empty _ _ _ h => exact .inl h
    | full _ _ _ h => exact .inr ⟨_, h⟩
    | held _ _ _ _ h =>
      cases h with
      | storing _ _ h => exact .inl h
      | stored _ _ h => exact .inr ⟨_, h⟩
      | loading _ _ h => exact .inr ⟨_, h⟩
      | loaded _ _ h => exact .inl h
  · obtain ⟨-, -, -, hh⟩ := hb.inside (.inl hp)
    cases hh with
    | storing _ _ h => exact h
    | stored _ hp' => simp [hp] at hp'
    | loading hr' => simp [hr] at hr'
    | loaded hr' => simp [hr] at hr'
  · obtain ⟨-, -, -, hh⟩ := hb.inside (.inl hp)
    cases hh with
    | loading _ _ h => exact h
    | loaded _ hp' => simp [hp] at hp'
    | storing hr' => simp [hr] at hr'
    | stored hr' => simp [hr] at hr'
  · by_contra hij
    exact (hb.inside hj).1 i hij hi

end Steps

/-- Two writers and a reader. -/
def mvarSampleRole (i : Fin 3) : MvarRole :=
  if i = 0 then .writer 65 else if i = 1 then .writer 66 else .reader

/-- The first writer stores; the reader takes its value, and the second writer stores. -/
def mvarSample : Mvar (Fin 3) :=
  Transition.final (Mvar.step mvarSampleRole) (fun _ _ => true)
    ⟨0, 1, 0, fun _ => .pausing, [], []⟩ [0, 1, 2, 0, 0, 0, 2, 2, 2, 1, 1]

theorem mvar_exactly_once_sample :
    (mvarSample.written = [65, 66] ∧ mvarSample.read = [65]) ∧
      (mvarSample.written = mvarSample.read ∨
        ∃ v, mvarSample.written = mvarSample.read ++ [v]) ∧
      ∀ i j, Inside mvarSample i → Inside mvarSample j → i = j := by
  have hr : Transition.Reach Mvar.Start (Mvar.step mvarSampleRole) (fun _ _ => true = true)
      mvarSample := Transition.Reach.final _ rfl (by decide)
  obtain ⟨h1, -, -, h4⟩ := mvar_exactly_once (hr.mono fun _ _ _ => trivial)
  exact ⟨by decide, h1, h4⟩

end TP2Kernel.Proofs
