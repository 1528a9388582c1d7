import TP2Kernel.Proofs.Fates

/-!
# What sequences of actions keep

The facts about the running kernel that no action breaks: consistent ready queues, separate
stacks, frames on their owner's stack, an idle process that cannot be terminated, and the
current process unless it is terminated.
-/

namespace TP2Kernel.Proofs
open Function LinkedList

variable {s : Scope} {k k' : Kernel}

/-- A kernel with an idle process that nothing but the scheduler touches. -/
structure Sane (k : Kernel) (idle : Slot) : Prop where
  sound : Sound k
  apart : Stacks k
  idleProc : k.idleProc = some idle
  idleUsed : (k.procs idle).used
  idleRunning : (k.procs idle).state = .running
  unlinked : ¬Linked k idle
  owner : ∀ p f, Live k p → (k.procs p).kframe = some f → f.owner = p

/-- The process `c` is current and running. -/
structure Executing (k : Kernel) (c : Slot) : Prop where
  current : k.current = some c
  used : (k.procs c).used
  running : (k.procs c).state = .running

/-- Nobody suspends the current or the idle process. -/
lemma fate_running {x : Slot} (hf : Fate s k k' x) (hx : k.current = some x ∨ k.idleProc = some x)
    (ht : ¬s.terminated x) (hu : (k.procs x).used) (hr : (k.procs x).state = .running) :
    (k'.procs x).used ∧ (k'.procs x).state = .running := by
  cases hf with
  | same hs h => exact ⟨hs.2.1.trans hu, h.trans hr⟩
  | woken _ _ _ hb => simp [hr] at hb
  | retired _ h => exact absurd h ht
  | reaped he => simp [hr] at he
  | drafted _ h => simp [hu] at h
  | entered _ _ hn => simp [hr] at hn
  | suspended _ hi hc => exact absurd hx (not_or.mpr ⟨hc, hi⟩)

lemma act_executing {c : Slot} (hs : Sound k) (ha : Act s k k') (ht : ¬s.terminated c)
    (h : Executing k c) : Executing k' c := by
  obtain ⟨hu, hr⟩ := fate_running (act_fate hs ha c) (.inl h.current) ht h.used h.running
  refine ⟨?_, hu, hr⟩
  rcases act_current hs ha with e | ⟨-, p, hp, hst⟩
  · exact e.trans h.current
  · rw [h.current, Option.some.injEq] at hp
    subst hp
    simp [h.running] at hst

theorem steps_executing {c : Slot} (hs : Sound k) (h : Steps s k k') (ht : ¬s.terminated c)
    (hc : Executing k c) : Executing k' c := by
  induction h with
  | refl => exact hc
  | tail h' ha ih => exact act_executing (steps_sound hs h') ha ht ih

/-- A live process that may not be terminated stays live. -/
lemma steps_live {x : Slot} (hs : Sound k) (h : Steps s k k') (ht : ¬s.terminated x)
    (hx : Live k x) : Live k' x := by
  induction h with
  | refl => exact hx
  | tail h' ha ih =>
    obtain ⟨hu, he⟩ := ih
    cases act_fate (steps_sound hs h') ha x with
    | same hp e => exact ⟨hp.2.1.trans hu, fun h => he (e ▸ h)⟩
    | woken hp _ _ _ e => exact ⟨hp.2.1.trans hu, by simp [e]⟩
    | retired _ h => exact absurd h ht
    | reaped e => exact absurd e he
    | drafted _ h => simp [hu] at h
    | entered hp _ _ e => exact ⟨hp.2.1.trans hu, by simp [e]⟩
    | suspended hp _ _ _ e => exact ⟨hp.2.1.trans hu, by simp [e]⟩

/-- No sequence of actions makes another process current. -/
lemma steps_current {c : Slot} (hs : Sound k) (h : Steps s k k') (hc : k'.current = some c) :
    k.current = some c := by
  induction h with
  | refl => exact hc
  | tail h' ha ih =>
    rcases act_current (steps_sound hs h') ha with e | ⟨e, -⟩
    · exact ih (e ▸ hc)
    · simp [e] at hc

lemma act_owner (hs : Sound k) (ha : Act s k k')
    (h : ∀ p f, Live k p → (k.procs p).kframe = some f → f.owner = p) {p : Slot} {f : Frame}
    (hl : Live k' p) (hf : (k'.procs p).kframe = some f) : f.owner = p := by
  have hsame : SameSelf (k.procs p) (k'.procs p) → (k.procs p).state ≠ .exited → f.owner = p := by
    intro hp he
    exact h p f ⟨hp.2.1 ▸ hl.1, he⟩ (hp.2.2.1 ▸ hf)
  cases act_fate hs ha p with
  | same hp e => exact hsame hp (e ▸ hl.2)
  | woken hp _ _ hb => exact hsame hp (by simp [hb])
  | retired _ _ _ e => exact absurd e hl.2
  | reaped _ e => exact absurd e hl.2
  | drafted _ _ _ _ _ hk =>
    rw [hk hl.1, Option.some.injEq] at hf
    rw [← hf]
  | entered hp _ hn => exact hsame hp (by simp [hn])
  | suspended hp _ _ he => exact hsame hp he

lemma act_sane {idle : Slot} (h : Sane k idle) (ha : Act s k k') (ht : ¬s.terminated idle) :
    Sane k' idle := by
  obtain ⟨hi, -⟩ := act_static h.sound ha
  obtain ⟨hu, hr⟩ := fate_running (act_fate h.sound ha idle) (.inr h.idleProc) ht h.idleUsed
    h.idleRunning
  refine ⟨act_sound h.sound ha, act_stacks h.sound h.apart ha, hi.trans h.idleProc, hu, hr,
    fun hl => ?_, fun p f => act_owner h.sound ha h.owner⟩
  rcases act_linked h.sound ha hl with hl | hl
  · exact h.unlinked hl
  · simp [h.idleRunning] at hl

/-- Sequences of actions that spare the idle process keep everything that holds between
events. -/
theorem steps_sane {idle : Slot} (h : Sane k idle) (hs : Steps s k k') (ht : ¬s.terminated idle) :
    Sane k' idle := by
  induction hs with
  | refl => exact h
  | tail _ ha ih => exact act_sane ih ha ht

lemma steps_static (h : Sound k) (hs : Steps s k k') : k'.idleProc = k.idleProc ∧
    k'.schedulerEnabled = k.schedulerEnabled ∧ k'.bailouts = k.bailouts := by
  induction hs with
  | refl => exact ⟨rfl, rfl, rfl⟩
  | tail h' ha ih =>
    obtain ⟨h1, h2, h3⟩ := act_static (steps_sound h h') ha
    exact ⟨h1.trans ih.1, h2.trans ih.2.1, h3.trans ih.2.2⟩

lemma onChildList_linked {p c : Slot} (h : OnChildList k p c) : Linked k c := by
  cases h with
  | head h => exact ⟨p, .inl h⟩
  | next _ h => exact ⟨_, .inr h⟩

end TP2Kernel.Proofs
