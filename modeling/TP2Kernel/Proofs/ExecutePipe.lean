import TP2Kernel.ExecutePipe

/-!
# Deadlocks of pipelines

While the left command of a pipeline runs, nobody reads the temporary pipe, so the pipe
holds the output up to its capacity, and the command blocks for ever on the first write
that finds it full.
-/

namespace TP2Kernel.Proofs
open Pipeline

variable {σ σ' : Pipeline} {writes : List (List UInt8)}

/-- The shell has not spawned the left command. -/
def ShellPc.early : ShellPc → Bool
  | .openWriter | .openReader | .redirectOut | .closeWriter | .spawnLeft => true
  | _ => false

/-- What closing an end of the pipe leaves alone. -/
structure SameOutput (σ σ' : Pipeline) : Prop where
  ring : σ'.pipe.ring = σ.pipe.ring
  shell : σ'.shell = σ.shell
  left : (∀ src ws, σ.left ≠ .blocked src ws) → σ'.left = σ.left
  right : σ.right = .absent → σ'.right = .absent

lemma SameOutput.refl (σ : Pipeline) : SameOutput σ σ := ⟨rfl, rfl, fun _ => rfl, id⟩

lemma SameOutput.trans {σ'' : Pipeline} (h : SameOutput σ σ') (h' : SameOutput σ' σ'') :
    SameOutput σ σ'' := by
  refine ⟨h'.ring.trans h.ring, h'.shell.trans h.shell, fun hl => ?_, fun hr => h'.right (h.right hr)⟩
  have e := h.left hl
  rw [← e] at hl
  exact (h'.left hl).trans e

lemma SameOutput.thenIf {σ'' : Pipeline} {c : Prop} [Decidable c] (h : SameOutput σ σ')
    (h' : SameOutput σ' σ'') : SameOutput σ (if c then σ'' else σ') := by
  split
  · exact h.trans h'
  · exact h

lemma wakeRight_same (σ : Pipeline) : SameOutput σ σ.wakeRight := by
  unfold wakeRight
  split
  · rename_i hr
    exact ⟨rfl, rfl, fun _ => rfl, fun h => by simp [hr] at h⟩
  · exact .refl σ

lemma wakeLeft_same (σ : Pipeline) : SameOutput σ σ.wakeLeft := by
  unfold wakeLeft
  split
  · rename_i src ws hl
    exact ⟨rfl, rfl, fun h => absurd hl (h src ws), id⟩
  · exact .refl σ

lemma closeEnd_same (σ : Pipeline) (rd wr : Bool) : SameOutput σ (σ.closeEnd rd wr) := by
  unfold closeEnd
  have h0 : SameOutput σ { σ with pipe := { pipeDropUser σ.pipe rd wr with
      rWaiters := if (pipeDropUser σ.pipe rd wr).writers = 0 then []
        else (pipeDropUser σ.pipe rd wr).rWaiters
      wWaiters := if (pipeDropUser σ.pipe rd wr).readers = 0 then []
        else (pipeDropUser σ.pipe rd wr).wWaiters } } := ⟨rfl, rfl, fun _ => rfl, id⟩
  exact (h0.thenIf (wakeRight_same _)).thenIf (wakeLeft_same _)

lemma dropRead_same (σ : Pipeline) : SameOutput σ σ.dropRead := by
  have h0 : SameOutput σ { σ with readRefs := σ.readRefs - 1 } := ⟨rfl, rfl, fun _ => rfl, id⟩
  unfold dropRead
  dsimp only
  split
  · exact h0
  · exact h0.trans (closeEnd_same _ true false)

lemma dropWrite_same (σ : Pipeline) : SameOutput σ σ.dropWrite := by
  have h0 : SameOutput σ { σ with writeRefs := σ.writeRefs - 1 } := ⟨rfl, rfl, fun _ => rfl, id⟩
  unfold dropWrite
  dsimp only
  split
  · exact h0
  · exact h0.trans (closeEnd_same _ false true)

/-- The pipe holds what has been written, `n` bytes, up to its capacity. -/
structure Holding (σ : Pipeline) (n : Nat) : Prop where
  wf : σ.pipe.ring.Wf
  size : σ.pipe.ring.size = min n pipeCap

lemma Holding.same {n : Nat} (h : Holding σ n) (hs : σ'.pipe.ring = σ.pipe.ring) :
    Holding σ' n := by
  refine ⟨?_, ?_⟩
  · rw [hs]
    exact h.wf
  · rw [hs]
    exact h.size

/-- A write that finds space stores what fits. -/
lemma Holding.write {n : Nat} (h : Holding σ n) (src : List UInt8) (hn : n < pipeCap)
    (hr : σ.pipe.readers ≠ 0) : ∃ c count reader,
      σ.pipe.writeSection src = .transfer c count reader ∧ c.readers = σ.pipe.readers ∧
        c.ring.Wf ∧ c.ring.size = min (n + src.length) pipeCap := by
  have hs : σ.pipe.ring.size = n := by
    rw [h.size]
    exact min_eq_left hn.le
  have hlt : σ.pipe.ring.size < pipeCap := by omega
  generalize hto : (if pipeCap - σ.pipe.ring.size < src.length then pipeCap - σ.pipe.ring.size
    else src.length) = m
  have hm : σ.pipe.ring.size + m = min (n + src.length) pipeCap ∧ m ≤ src.length := by
    split at hto <;> omega
  have hlen : (src.take m).length = m := by
    rw [List.length_take]
    omega
  obtain ⟨hw, -, hz⟩ := h.wf.putList (src.take m) (by omega)
  rw [hlen, hm.1] at hz
  unfold Kpipe.writeSection Kpipe.dequeueReader
  rw [if_neg hr, if_pos hlt]
  dsimp only
  rw [hto]
  cases σ.pipe.rWaiters with
  | nil => exact ⟨_, _, _, rfl, rfl, hw, hz⟩
  | cons w ws => exact ⟨_, _, _, rfl, rfl, hw, hz⟩

/-- What holds in every state when all writes fit. -/
structure Flowing (writes : List (List UInt8)) (σ : Pipeline) : Prop where
  early : ShellPc.early σ.shell = true → σ.left = .absent ∧ σ.right = .absent ∧ Holding σ 0
  waiting : σ.shell = .waitLeft → σ.right = .absent ∧
    (σ.left = .exited ∨ ∃ ws n, σ.left = .running ws ∧ Holding σ n ∧ fits n ws = true)
  late : ShellPc.early σ.shell = false → σ.shell ≠ .waitLeft →
    σ.left = .absent ∨ σ.left = .exited

lemma holding_start : Holding start 0 := ⟨⟨by decide, by decide, by decide⟩, by decide⟩

lemma flowing_start : Flowing writes start :=
  ⟨fun _ => ⟨rfl, rfl, holding_start⟩, fun h => by simp [start] at h,
    fun h => by simp [start, ShellPc.early] at h⟩

/-- The left command has ended or was never started. -/
lemma Flowing.settled (h : σ.left = .absent ∨ σ.left = .exited) {c : ShellPc}
    (hp : ShellPc.early c = false ∧ c ≠ .waitLeft) (hs : σ.shell = c) : Flowing writes σ := by
  refine ⟨fun e => ?_, fun e => ?_, fun _ _ => h⟩
  · rw [hs, hp.1] at e
    cases e
  · exact absurd (hs.symm.trans e) hp.2

lemma SameOutput.settled (hs : SameOutput σ σ') (h : σ.left = .absent ∨ σ.left = .exited) :
    σ'.left = .absent ∨ σ'.left = .exited := by
  have hb : ∀ src ws, σ.left ≠ .blocked src ws := by
    rcases h with h | h <;> simp [h]
  rw [hs.left hb]
  exact h

/-- A call of the shell before it spawns the left command. -/
lemma Flowing.beforeSpawn (h : σ'.left = .absent) (hr : σ'.right = .absent) (hh : Holding σ' 0)
    (hp : σ'.shell ≠ .waitLeft) : Flowing writes σ' :=
  ⟨fun _ => ⟨h, hr, hh⟩, fun e => absurd e hp, fun _ _ => .inl h⟩

lemma Flowing.stepEarly {pc : ShellPc} {b : Bool} (h : Flowing writes σ) (hfit : fits 0 writes = true)
    (hpc : σ.shell = pc) (he : ShellPc.early pc = true) (hs : σ.stepShell writes b = some σ') :
    Flowing writes σ' := by
  obtain ⟨hl, hr, hh⟩ := h.early (hpc ▸ he)
  have hfail : Flowing writes σ.fail := .settled (c := .cleanupIn) (.inl hl) (by decide) rfl
  unfold Pipeline.stepShell at hs
  cases pc <;> simp only [hpc, Option.some.injEq] at hs <;> simp only [ShellPc.early] at he <;>
    try cases he
  case openWriter =>
    cases b <;> simp only [Bool.false_eq_true, if_false, if_true] at hs <;> subst hs
    · exact hfail
    · exact .beforeSpawn hl hr (hh.same rfl) (by simp)
  case openReader =>
    cases b <;> simp only [Bool.false_eq_true, if_false, if_true] at hs <;> subst hs
    · exact hfail
    · exact .beforeSpawn hl hr (hh.same rfl) (by simp)
  case redirectOut =>
    cases b <;> simp only [Bool.false_eq_true, if_false, if_true] at hs <;> subst hs
    · exact hfail
    · exact .beforeSpawn hl hr (hh.same rfl) (by simp)
  case closeWriter =>
    subst hs
    have hw := dropWrite_same σ
    refine .beforeSpawn ?_ (hw.right hr) (hh.same hw.ring) (by simp)
    rw [← hl]
    exact hw.left (by simp [hl])
  case spawnLeft =>
    cases b <;> simp only [Bool.false_eq_true, if_false, if_true] at hs <;> subst hs
    · exact .settled (c := .restoreOut) (.inl hl) (by decide) rfl
    · refine ⟨fun e => by simp [ShellPc.early] at e, fun _ => ⟨hr, .inr ⟨writes, 0, rfl, ?_, hfit⟩⟩,
        fun _ e => absurd rfl e⟩
      exact hh.same rfl

lemma settled_if {c : Prop} [Decidable c] (h : σ.left = .absent ∨ σ.left = .exited)
    (h' : σ'.left = .absent ∨ σ'.left = .exited) :
    (if c then σ' else σ).left = .absent ∨ (if c then σ' else σ).left = .exited := by
  split
  · exact h'
  · exact h

lemma Flowing.stepLate {b : Bool} (h : σ.left = .absent ∨ σ.left = .exited)
    (he : ShellPc.early σ.shell = false) (hs : σ.stepShell writes b = some σ') :
    Flowing writes σ' := by
  have hfail : Flowing writes σ.fail := .settled (c := .cleanupIn) h (by decide) rfl
  have hw := (dropWrite_same σ).settled h
  have hd := (dropRead_same σ).settled h
  unfold Pipeline.stepShell at hs
  cases hpc : σ.shell <;> simp only [hpc, Option.some.injEq] at hs <;>
    simp only [hpc, ShellPc.early] at he <;> try cases he
  case waitLeft =>
    split at hs <;> cases hs
    exact .settled (c := .restoreOut) h (by decide) rfl
  case restoreOut =>
    subst hs
    cases hok : σ.ok
    · exact .settled (c := .cleanupIn) hw (by decide) rfl
    · exact .settled (c := .redirectIn) hw (by decide) rfl
  case redirectIn =>
    cases b <;> simp only [Bool.false_eq_true, if_false, if_true] at hs <;> subst hs
    · exact hfail
    · exact .settled (c := .closeReader) h (by decide) rfl
  case closeReader =>
    subst hs
    exact .settled (c := .spawnRight) hd (by decide) rfl
  case spawnRight =>
    cases b <;> simp only [Bool.false_eq_true, if_false, if_true] at hs <;> subst hs
    · exact hfail
    · exact .settled (c := .waitRight) h (by decide) rfl
  case waitRight =>
    split at hs <;> cases hs
    exact .settled (c := .cleanupIn) h (by decide) rfl
  case cleanupIn =>
    subst hs
    exact .settled (c := .cleanupOut) (settled_if h hd) (by decide) rfl
  case cleanupOut =>
    subst hs
    exact .settled (c := .cleanupReader) (settled_if h hw) (by decide) rfl
  case cleanupReader =>
    subst hs
    exact .settled (c := .cleanupWriter) (settled_if h hd) (by decide) rfl
  case cleanupWriter =>
    subst hs
    cases hc : σ.created
    · exact .settled (c := .done) (settled_if h hw) (by decide) rfl
    · exact .settled (c := .unlink) (settled_if h hw) (by decide) rfl
  case unlink =>
    subst hs
    exact .settled (c := .done) h (by decide) rfl
  case done => cases hs

/-- With less output before them, writes still fit. -/
lemma fits_mono {n m : Nat} (hnm : n ≤ m) {ws : List (List UInt8)} (h : fits m ws = true) :
    fits n ws = true := by
  induction ws generalizing n m with
  | nil => rfl
  | cons src ws ih =>
    simp only [fits, Bool.and_eq_true, Bool.or_eq_true, decide_eq_true_eq] at h ⊢
    refine ⟨h.1.imp_right fun hm => by omega, ih (by omega) h.2⟩

/-- Only the left command is running, with writes that fit. -/
lemma Flowing.onlyLeft {ws : List (List UInt8)} {n : Nat} (hs : σ.shell = .waitLeft)
    (hr : σ.right = .absent) (hl : σ.left = .running ws) (hh : Holding σ n)
    (hf : fits n ws = true) : Flowing writes σ :=
  ⟨fun e => by simp [hs, ShellPc.early] at e, fun _ => ⟨hr, .inr ⟨ws, n, hl, hh, hf⟩⟩,
    fun _ e => absurd hs e⟩

lemma Flowing.active (h : Flowing writes σ) (hl : σ.left ≠ .absent) (he : σ.left ≠ .exited) :
    σ.shell = .waitLeft ∧ σ.right = .absent ∧
      ∃ ws n, σ.left = .running ws ∧ Holding σ n ∧ fits n ws = true := by
  by_cases hw : σ.shell = .waitLeft
  · obtain ⟨hr, hx⟩ := h.waiting hw
    exact ⟨hw, hr, hx.resolve_left he⟩
  · cases hp : ShellPc.early σ.shell
    · exact ((h.late hp hw).elim hl he).elim
    · exact absurd (h.early hp).1 hl

lemma Flowing.stepLeft {b : Bool} (h : Flowing writes σ) (hs : σ.stepLeft b = some σ') :
    Flowing writes σ' := by
  have hne : σ.left ≠ .absent ∧ σ.left ≠ .exited := by
    refine ⟨fun e => ?_, fun e => ?_⟩ <;> simp [Pipeline.stepLeft, e] at hs
  obtain ⟨hsh, hr, ws, n, hl, hh, hf⟩ := h.active hne.1 hne.2
  unfold Pipeline.stepLeft at hs
  rw [hl] at hs
  cases ws with
  | nil =>
    simp only [Option.some.injEq] at hs
    subst hs
    have h0 : SameOutput { σ with left := .exited }
        (({ σ with left := .exited } : Pipeline).dropWrite.dropRead) :=
      (dropWrite_same _).trans (dropRead_same _)
    have he := h0.left (by simp)
    refine ⟨fun e => ?_, fun _ => ⟨h0.right hr, .inl he⟩, fun _ _ => .inr he⟩
    rw [h0.shell] at e
    simp [hsh, ShellPc.early] at e
  | cons src ws =>
    simp only [fits, Bool.and_eq_true, Bool.or_eq_true, decide_eq_true_eq] at hf
    simp only at hs
    by_cases hsrc : src = []
    · rw [if_pos hsrc, Option.some.injEq] at hs
      subst hs hsrc
      exact .onlyLeft (n := n) hsh hr rfl (hh.same rfl) (by simpa using hf.2)
    · have hn : n < pipeCap := hf.1.resolve_left hsrc
      rw [if_neg hsrc] at hs
      by_cases hrd : σ.pipe.readers = 0
      · have hw : σ.pipe.writeSection src = .epipe := by rw [Kpipe.writeSection, if_pos hrd]
        rw [hw] at hs
        simp only [Option.some.injEq] at hs
        subst hs
        exact .onlyLeft (n := n) hsh hr rfl (hh.same rfl) (fits_mono (Nat.le_add_right _ _) hf.2)
      · obtain ⟨c, count, reader, hw, -, hwf, hz⟩ := hh.write src hn hrd
        rw [hw] at hs
        simp only [Option.some.injEq] at hs
        subst hs
        have hsame : SameOutput σ (if reader.isSome = true then σ.wakeRight else σ) := by
          split
          · exact wakeRight_same σ
          · exact .refl σ
        exact .onlyLeft (n := n + src.length) (hsame.shell.trans hsh) (hsame.right hr) rfl
          ⟨hwf, hz⟩ hf.2

lemma Flowing.stepRight {n : Nat} {b : Bool} (h : Flowing writes σ)
    (hs : σ.stepRight n b = some σ') : Flowing writes σ' := by
  have hr : σ.right ≠ .absent := fun e => by simp [Pipeline.stepRight, e] at hs
  have hw : σ.shell ≠ .waitLeft := fun e => hr (h.waiting e).1
  have hp : ShellPc.early σ.shell = false := by
    cases hp : ShellPc.early σ.shell
    · rfl
    · exact absurd (h.early hp).2.1 hr
  have hl := h.late hp hw
  have hkeep : ∀ τ : Pipeline, SameOutput σ τ → ∀ ρ : Pipeline, ρ.shell = τ.shell → ρ.left = τ.left →
      Flowing writes ρ := by
    intro τ hτ ρ h1 h2
    refine .settled (c := σ.shell) ?_ ⟨hp, hw⟩ (h1.trans hτ.shell)
    rw [h2]
    exact hτ.settled hl
  have hexit : SameOutput { σ with right := .exited } ({ σ with right := .exited } : Pipeline).dropRead :=
    dropRead_same _
  have hgone : Flowing writes ({ σ with right := .exited } : Pipeline).dropRead :=
    .settled (c := σ.shell) (hexit.settled hl) ⟨hp, hw⟩ hexit.shell
  unfold Pipeline.stepRight at hs
  split at hs
  · split at hs
    · cases hs
    · split at hs <;> simp only [Option.some.injEq] at hs <;> subst hs
      · split
        · exact hkeep _ (wakeLeft_same σ) _ rfl rfl
        · exact hkeep _ (.refl σ) _ rfl rfl
      · exact hgone
      · exact hkeep _ (.refl σ) _ rfl rfl
  · split at hs
    · split at hs <;> simp only [Option.some.injEq] at hs <;> subst hs
      · exact hkeep _ (.refl σ) _ rfl rfl
      · exact hkeep _ (.refl σ) _ rfl rfl
    · simp only [Option.some.injEq] at hs
      subst hs
      exact hgone
  · cases hs

theorem flowing_step {e : PipelineEvent} (hfit : fits 0 writes = true) (h : Flowing writes σ)
    (hs : Pipeline.step writes σ e = some σ') : Flowing writes σ' := by
  cases e with
  | shell b =>
    by_cases he : ShellPc.early σ.shell = true
    · exact h.stepEarly hfit rfl he hs
    · have he' : ShellPc.early σ.shell = false := by simpa using he
      refine .stepLate ?_ he' hs
      by_cases hw : σ.shell = .waitLeft
      · have hs' : σ.stepShell writes b = some σ' := hs
        unfold Pipeline.stepShell at hs'
        simp only [hw] at hs'
        split at hs'
        · rename_i hx
          exact .inr hx
        · cases hs'
      · exact h.late he' hw
  | left b => exact h.stepLeft hs
  | right n b => exact h.stepRight hs

abbrev PipelineRun (writes : List (List UInt8)) : Pipeline → Prop :=
  Transition.Reach (· = start) (Pipeline.step writes) (fun _ _ => True)

/-- The shell waits for the left command, which is about to write `ws` behind `n` bytes. -/
structure Filling (σ : Pipeline) (n : Nat) (ws : List (List UInt8)) : Prop where
  shell : σ.shell = .waitLeft
  left : σ.left = .running ws
  readers : σ.pipe.readers = 1
  holding : Holding σ n

/-- A write that finds the pipe full blocks. -/
lemma Filling.block {n : Nat} {src : List UInt8} {ws : List (List UInt8)}
    (hrun : PipelineRun writes σ) (h : Filling σ n (src :: ws)) (hsrc : src ≠ []) (hn : pipeCap ≤ n) :
    ∃ σ', PipelineRun writes σ' ∧ σ'.Deadlock := by
  have hsize : σ.pipe.ring.size = pipeCap := by
    rw [h.holding.size]
    exact min_eq_right hn
  have hw : σ.pipe.writeSection src = .block := by
    rw [Kpipe.writeSection, if_neg (by simp [h.readers]), if_neg (by omega)]
  have h1 : Pipeline.step writes σ (.left true) = some { σ with left := .alloc src ws } := by
    simp only [Pipeline.step, Pipeline.stepLeft, h.left, if_neg hsrc, hw]
  have hr : σ.pipe.writeRecheck ⟨0, leftSlot⟩ = .sleep (σ.pipe.enqueueWriter ⟨0, leftSlot⟩) := by
    rw [Kpipe.writeRecheck, if_neg (by omega)]
  have h2 : Pipeline.step writes { σ with left := .alloc src ws } (.left true) =
      some { σ with pipe := σ.pipe.enqueueWriter ⟨0, leftSlot⟩, left := .blocked src ws } := by
    simp only [Pipeline.step, Pipeline.stepLeft, if_true, hr]
  exact ⟨_, (hrun.next trivial h1).next trivial h2, h.shell, src, ws, rfl⟩

/-- Writes that do not fit lead to the deadlock. -/
lemma Filling.deadlock {n : Nat} {ws : List (List UInt8)} (hrun : PipelineRun writes σ)
    (h : Filling σ n ws) (hf : fits n ws = false) : ∃ σ', PipelineRun writes σ' ∧ σ'.Deadlock := by
  induction ws generalizing σ n with
  | nil => simp [fits] at hf
  | cons src ws ih =>
    by_cases hsrc : src = []
    · have h1 : Pipeline.step writes σ (.left true) = some { σ with left := .running ws } := by
        simp only [Pipeline.step, Pipeline.stepLeft, h.left, if_pos hsrc]
      apply ih (n := n) (hrun.next trivial h1)
      · exact ⟨h.shell, rfl, h.readers, h.holding.same rfl⟩
      · simpa [fits, hsrc] using hf
    · by_cases hn : n < pipeCap
      · obtain ⟨c, count, reader, hw, hrd, hwf, hz⟩ := h.holding.write src hn (by simp [h.readers])
        have h1 : Pipeline.step writes σ (.left true) =
            some { (if reader.isSome then σ.wakeRight else σ) with pipe := c, left := .running ws } := by
          simp only [Pipeline.step, Pipeline.stepLeft, h.left, if_neg hsrc, hw]
        have hsame : SameOutput σ (if reader.isSome = true then σ.wakeRight else σ) := by
          split
          · exact wakeRight_same σ
          · exact .refl σ
        apply ih (n := n + src.length) (hrun.next trivial h1)
        · exact ⟨hsame.shell.trans h.shell, rfl, hrd.trans h.readers, hwf, hz⟩
        · simpa [fits, hsrc, hn] using hf
      · exact h.block hrun hsrc (by omega)

/-- The shell opens the pipe and spawns the left command without a failure. -/
lemma filling_start (writes : List (List UInt8)) :
    ∃ σ, PipelineRun writes σ ∧ Filling σ 0 writes := by
  have h0 : PipelineRun writes start := .start rfl
  have h1 := h0.next (e := .shell true) trivial rfl
  have h2 := h1.next (e := .shell true) trivial rfl
  have h3 := h2.next (e := .shell true) trivial rfl
  have h4 := h3.next (e := .shell true) trivial rfl
  have h5 := h4.next (e := .shell true) trivial rfl
  exact ⟨_, h5, rfl, rfl, rfl, holding_start.same rfl⟩

/-- A pipeline cannot deadlock exactly when every write that is not empty starts while fewer
than `pipeCap` bytes of output precede it. -/
theorem pipeline_deadlock_free (writes : List (List UInt8)) :
    (∀ σ, Transition.Reach (· = start) (Pipeline.step writes) (fun _ _ => True) σ →
      ¬σ.Deadlock) ↔ fits 0 writes = true := by
  constructor
  · intro h
    by_contra hf
    obtain ⟨σ, hrun, hfill⟩ := filling_start writes
    obtain ⟨σ', hrun', hd⟩ := hfill.deadlock hrun (by simpa using hf)
    exact h σ' hrun' hd
  · intro hf σ hrun hd
    have hflow : Flowing writes σ := by
      apply Transition.Reach.invariant _ _ hrun
      · intro σ hσ
        rw [hσ]
        exact flowing_start
      · exact fun σ e σ' h _ hs => flowing_step hf h hs
    obtain ⟨hw, src, ws, hl⟩ := hd
    obtain ⟨-, -, ws', n, hl', -⟩ := hflow.active (by simp [hl]) (by simp [hl])
    simp [hl] at hl'

/-- The left command writes `pipeCap` bytes and then one more. -/
def sampleOutput : List (List UInt8) := [List.replicate pipeCap 0, [7]]

def sampleDeadlock : Pipeline :=
  Transition.final (Pipeline.step sampleOutput) (fun _ _ => true) start
    [.shell true, .shell true, .shell true, .shell true, .shell true, .left true, .left true,
      .left true]

theorem pipeline_deadlocks :
    Transition.Reach (· = start) (Pipeline.step sampleOutput) (fun _ _ => True) sampleDeadlock ∧
      sampleDeadlock.shell = .waitLeft ∧ sampleDeadlock.left = .blocked [7] [] := by
  refine ⟨?_, by decide +kernel, by decide +kernel⟩
  have h : Transition.Reach (· = start) (Pipeline.step sampleOutput) (fun _ _ => true = true)
      sampleDeadlock := Transition.Reach.final _ rfl (by decide +kernel)
  exact h.mono fun _ _ _ => trivial

end TP2Kernel.Proofs
