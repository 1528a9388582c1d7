import TP2Kernel.Proofs.Blocked

/-!
# A `proc_create` that fails

The undo code at each point of failure gives back what the call has taken: the slot, the stack
and the descriptor table. Only the pid and the contents of the free slot are not as before.
-/

namespace TP2Kernel.Proofs
open Function LinkedList

variable {k k' k'' : Kernel} {i : Slot} {σ σ' : System} {e : Event}

lemma enabled_loose (c : Option Slot) :
    EventLoose c fun k k' => k'.schedulerEnabled = k.schedulerEnabled where
  refl _ := rfl
  trans h h' := h'.trans h
  link h := (congrArg Kernel.schedulerEnabled h :)
  modify _ _ _ _ := rfl
  pipe _ _ _ _ := rfl
  free _ _ _ := rfl
  index h := (congrArg Kernel.schedulerEnabled h.1 :)
  write _ _ _ _ := rfl
  wait _ _ _ _ := rfl
  queue _ _ _ _ _ := rfl
  tty _ _ _ _ := rfl
  sem _ _ _ _ := rfl
  handle _ _ _ _ := rfl
  dispatch h := (congrArg Kernel.schedulerEnabled h.write :)
  front h := (congrArg Kernel.schedulerEnabled h.same :)
  claim k i prio fg name _ := by
    unfold claimed
    rw [setParentPid_eq]
    rfl

/-- Reaping leaves `current` alone while the scheduler is enabled. -/
lemma closed_current_enabled : ReapClosed Anyhow Anyone fun k k' => k.schedulerEnabled = true →
    k'.schedulerEnabled = true ∧ k'.current = k.current where
  refl _ h := ⟨h, rfl⟩
  trans h h' he := by
    obtain ⟨he1, hc1⟩ := h he
    obtain ⟨he2, hc2⟩ := h' he1
    exact ⟨he2, hc2.trans hc1⟩
  given h := h trivial
  link h he := by
    rw [LinkWrite] at h
    rw [h]
    exact ⟨he, rfl⟩
  modify _ _ _ _ h := ⟨h, rfl⟩
  ready _ _ _ h := ⟨h, rfl⟩
  enqueue k p _ he := by
    have h := schedEnqueue_write (k := k) p (by simp [he])
    rw [SchedWrite] at h
    rw [h]
    exact ⟨he, rfl⟩
  pipe _ _ _ _ h := ⟨h, rfl⟩
  free _ _ _ h := ⟨h, rfl⟩
  queued _ _ _ _ := trivial

/-- A relation that holds of all writes holds of every event, whoever executes. -/
lemma EventLoose.step {R : Kernel → Kernel → Prop} (hR : EventLoose σ.k.current R)
    (he : σ.k.schedulerEnabled = true) (hs : System.step σ e = some σ') : R σ.k σ'.k :=
  hR.closed.step rfl (closed_current_enabled.collectZombies σ.k he).2 (.inl fun _ => trivial)
    (fun _ _ => trivial) (fun _ _ _ _ _ _ _ => trivial) hs

theorem reach_always_positive (h : Transition.Reach Boot System.step (fun _ _ => True) σ) :
    Positive σ.k := by
  have hinv : σ.k.schedulerEnabled = true ∧ Positive σ.k := by
    apply h.invariant (I := fun σ => σ.k.schedulerEnabled = true ∧ Positive σ.k)
    · intro σ hb
      obtain ⟨idle, hk, -⟩ := boot_kept hb
      obtain ⟨-, -, -, hn⟩ := boot_change hb
      exact ⟨hk.enabled, hn.pos, hn.next⟩
    · rintro σ e σ' ⟨he, hp⟩ - hs
      exact ⟨((enabled_loose _).step he hs).trans he, (positive_loose _).step he hs hp⟩
  exact hinv.2

/-- Beside the pid counter and the heap, only the contents of slot `i` change. -/
structure SlotWrite (i : Slot) (k k' : Kernel) : Prop where
  same : k' = { k with
    procs := k'.procs, queueNext := k'.queueNext, cleanupNext := k'.cleanupNext
    childHead := k'.childHead, siblingNext := k'.siblingNext, nextPid := k'.nextPid
    heap := k'.heap }
  procs : ∀ q, q ≠ i → k'.procs q = k.procs q
  queue : ∀ q, q ≠ i → k'.queueNext q = k.queueNext q
  cleanup : ∀ q, q ≠ i → k'.cleanupNext q = k.cleanupNext q
  child : ∀ q, q ≠ i → k'.childHead q = k.childHead q
  sibling : ∀ q, q ≠ i → k'.siblingNext q = k.siblingNext q

namespace SlotWrite

lemma trans (h : SlotWrite i k k') (h' : SlotWrite i k' k'') : SlotWrite i k k'' where
  same := by rw [h'.same, h.same]
  procs q hq := (h'.procs q hq).trans (h.procs q hq)
  queue q hq := (h'.queue q hq).trans (h.queue q hq)
  cleanup q hq := (h'.cleanup q hq).trans (h.cleanup q hq)
  child q hq := (h'.child q hq).trans (h.child q hq)
  sibling q hq := (h'.sibling q hq).trans (h.sibling q hq)

/-- Writes to the PCB, the pid counter and the heap. -/
lemma of_procs (h : k' = { k with procs := k'.procs, nextPid := k'.nextPid, heap := k'.heap })
    (hp : ∀ q, q ≠ i → k'.procs q = k.procs q) : SlotWrite i k k' := by
  refine ⟨?_, hp, ?_, ?_, ?_, ?_⟩
  all_goals rw [h]
  all_goals exact fun _ _ => rfl

lemma modify (k : Kernel) (i : Slot) (f : Pcb → Pcb) : SlotWrite i k (k.modify i f) :=
  of_procs rfl fun _ hq => k.modify_procs_of_ne f hq

lemma alloc (k : Kernel) (i : Slot) : SlotWrite i k k.mmMalloc.1 := of_procs rfl fun _ _ => rfl

lemma claimed (k : Kernel) (i : Slot) (prio : Int) (fg : Bool) (name : CStr) :
    SlotWrite i k (claimed k i prio fg name) := by
  unfold Proofs.claimed
  rw [setParentPid_eq]
  refine ⟨rfl, fun q hq => ?_, fun q hq => ?_, fun q hq => ?_, fun q hq => ?_, fun q hq => ?_⟩
  all_goals simp [Kernel.modify, hq]

/-- Freeing the stack leaves the rest of the PCB as it is. -/
lemma freeKstack {stack : Nat} (hk : (k.procs i).kstackBase = some stack) :
    SlotWrite i k (freeKstack k i) ∧
      (freeKstack k i).heap = { k.heap with freed := k.heap.freed ++ [⟨.stack, stack⟩] } ∧
      ((freeKstack k i).procs i).fdTable = (k.procs i).fdTable ∧
      ((freeKstack k i).procs i).waitRes = (k.procs i).waitRes := by
  unfold TP2Kernel.freeKstack
  rw [hk]
  have h0 : SlotWrite i k (k.mmFree ⟨.stack, stack⟩) := of_procs rfl fun _ _ => rfl
  refine ⟨h0.trans (.modify _ i _), rfl, ?_, ?_⟩
  all_goals rw [Kernel.modify_procs_self]; rfl

/-- A slot that holds neither a table nor results is given back without a write elsewhere. -/
lemma releaseSlot (ht : (k.procs i).fdTable = none) (hw : (k.procs i).waitRes = []) :
    SlotWrite i k (releaseSlot wake k i) ∧ (releaseSlot wake k i).heap = k.heap ∧
      ((releaseSlot wake k i).procs i).used = false := by
  rw [releaseSlot_noTable k i ht]
  unfold freeSlot cleanupWaitResults
  rw [hw]
  refine ⟨⟨rfl, fun q hq => ?_, fun q hq => ?_, fun q hq => ?_, fun q hq => ?_, fun q hq => ?_⟩,
    rfl, ?_⟩
  all_goals simp [Kernel.modify, *]

end SlotWrite

/-- The blocks freed between the two heaps are those allocated between them. -/
structure Returned (h h' : Heap) (freed : List Block) : Prop where
  fails : h'.fails = h.fails
  list : h'.freed = h.freed ++ freed
  blocks : ∀ n, (∃ b ∈ freed, b.id = n) ↔ h.next ≤ n ∧ n < h'.next ∧ h.fails n = false

/-- What `proc_create` leaves behind in slot `i` when it gives the slot back. -/
structure Undone (k k' : Kernel) (i : Slot) : Prop where
  write : SlotWrite i k k'
  free : (k'.procs i).used = false
  heap : ∃ freed, Returned k.heap k'.heap freed

/-- The claimed slot holds nothing yet. -/
lemma claimed_bare (k : Kernel) (i : Slot) (prio : Int) (fg : Bool) (name : CStr) :
    ((claimed k i prio fg name).procs i).fdTable = none ∧
      ((claimed k i prio fg name).procs i).waitRes = [] ∧
      ((claimed k i prio fg name).procs i).pid = k.nextPid ∧
      (claimed k i prio fg name).heap = k.heap := by
  unfold claimed
  rw [setParentPid_eq]
  simp [Kernel.modify, initPcb]

/-- The process that is installed keeps its pid, which the call returns. -/
lemma installProc_pid (k : Kernel) (p : Slot) (t : Nat) (fg : Bool) :
    (installProc k p t fg).2 = (k.procs p).pid := by
  have hq := ((Steady.schedEnqueue (furnish k p t) p).names p).1
  rw [furnish_procs, update_self] at hq
  rw [installProc_eq]
  dsimp only
  split
  · exact hq
  · exact hq

/-- The second point of failure: the stack is freed, then the slot is given back. -/
lemma createTable_undone (stack : Nat) (fg : Bool) (ht : (k.procs i).fdTable = none)
    (hw : (k.procs i).waitRes = []) (hk : (k.procs i).kstackBase = some stack) :
    (createTable k i fg).2 = (k.procs i).pid ∨
      k.heap.fails k.heap.next = true ∧ SlotWrite i k (createTable k i fg).1 ∧
        ((createTable k i fg).1.procs i).used = false ∧
        (createTable k i fg).1.heap = { k.heap with
          next := k.heap.next + 1, freed := k.heap.freed ++ [⟨.stack, stack⟩] } := by
  unfold createTable fdTableCreate
  cases hm : k.mmMalloc with
  | mk k1 m =>
    have hfail := mmMalloc_fails hm
    cases m with
    | some t =>
      left
      dsimp only
      rw [installProc_pid, (mmMalloc_some hm).2]
    | none =>
      right
      obtain rfl := mmMalloc_none hm
      obtain ⟨h1, hh1, ht1, hw1⟩ := SlotWrite.freeKstack (i := i)
        (k := { k with heap := { k.heap with next := k.heap.next + 1 } }) hk
      obtain ⟨h2, hh2, hu⟩ := SlotWrite.releaseSlot (ht1.trans ht) (hw1.trans hw)
      exact ⟨hfail, ((SlotWrite.alloc k i).trans h1).trans h2, hu, hh2.trans hh1⟩

lemma createStack_undone (fg : Bool) (ht : (k.procs i).fdTable = none)
    (hw : (k.procs i).waitRes = []) :
    (createStack k i fg).2 = (k.procs i).pid ∨ Undone k (createStack k i fg).1 i := by
  unfold createStack
  cases hm : k.mmMalloc with
  | mk k1 m =>
    have hfail := mmMalloc_fails hm
    cases m with
    | none =>
      right
      obtain rfl := mmMalloc_none hm
      obtain ⟨h2, hh, hu⟩ := SlotWrite.releaseSlot (i := i)
        (k := { k with heap := { k.heap with next := k.heap.next + 1 } }) ht hw
      refine ⟨(SlotWrite.alloc k i).trans h2, hu, [], by rw [hh], by rw [hh]; simp, fun n => ?_⟩
      rw [hh]
      dsimp only
      refine ⟨by simp, fun ⟨h1, h2, h3⟩ => ?_⟩
      obtain rfl : n = k.heap.next := by omega
      simp [h3] at hfail
    | some stack =>
      obtain ⟨rfl, rfl⟩ := mmMalloc_some hm
      dsimp only [Option.isNone_some] at hfail ⊢
      obtain h | ⟨hf, h1, hu, hh⟩ := createTable_undone (i := i)
        (k := setupStack (({ k with heap := { k.heap with next := k.heap.next + 1 } } :
          Kernel).modify i fun c => { c with kstackBase := some k.heap.next }) i) k.heap.next fg
        (by simpa [setupStack] using ht) (by simpa [setupStack] using hw)
        (by simp [setupStack])
      · left
        rw [h]
        simp [setupStack]
      · right
        have h0 : SlotWrite i k { k with heap := { k.heap with next := k.heap.next + 1 } } :=
          .of_procs rfl fun _ _ => rfl
        refine ⟨((h0.trans (.modify _ i _)).trans (.modify _ i _)).trans h1, hu,
          [⟨.stack, k.heap.next⟩], by rw [hh]; rfl, by rw [hh]; rfl, fun n => ?_⟩
        rw [hh]
        change k.heap.fails (k.heap.next + 1) = true at hf
        change (∃ b ∈ [(⟨.stack, k.heap.next⟩ : Block)], b.id = n) ↔
          k.heap.next ≤ n ∧ n < k.heap.next + 1 + 1 ∧ k.heap.fails n = false
        constructor
        · rintro ⟨b, hb, rfl⟩
          obtain rfl := List.mem_singleton.mp hb
          exact ⟨le_rfl, by dsimp only; omega, hfail⟩
        · rintro ⟨h1, h2, h3⟩
          have hne : n ≠ k.heap.next + 1 := fun he => by simp [he, hf] at h3
          exact ⟨⟨.stack, k.heap.next⟩, List.mem_singleton_self _, by dsimp only; omega⟩

/-- Every point of failure of `proc_create` behind its reaping. -/
lemma createTail_undone (hpos : 0 < k.nextPid) (prio : Int) (fg : Bool) (name : CStr)
    (hf : (createTail k prio fg name).2 = -1) : (createTail k prio fg name).1 = k ∨
      ∃ i, (k.procs i).used = false ∧ Undone k (createTail k prio fg name).1 i := by
  unfold createTail allocateSlot at hf ⊢
  cases hi : (List.finRange maxProcs).find? fun i => !(k.procs i).used with
  | none => exact .inl rfl
  | some i =>
    right
    rw [hi] at hf
    have hu : (k.procs i).used = false := by simpa using List.find?_some hi
    obtain ⟨ht, hw, hpid, hh⟩ := claimed_bare k i prio fg name
    change (createStack (claimed k i prio fg name) i fg).2 = -1 at hf
    obtain h | h := createStack_undone fg ht hw
    · rw [h, hpid] at hf
      omega
    · refine ⟨i, hu, (SlotWrite.claimed k i prio fg name).trans h.write, h.free, ?_⟩
      rw [← hh]
      exact h.heap

/-- `k'` is `k` but for the pid counter, the contents of a slot that is free before and after,
and the blocks of the call, which are freed again. -/
structure Unchanged (k k' : Kernel) : Prop where
  slot : k' = k ∨ ∃ i, (k.procs i).used = false ∧ SlotWrite i k k'
  used : ∀ p, (k'.procs p).used = (k.procs p).used
  procs : ∀ p, (k.procs p).used → k'.procs p = k.procs p
  queues : ∀ l ps, (∀ p ∈ ps, (k.procs p).used) →
    (IsQueue k'.queueNext (k'.readyHead l) (k'.readyTail l) ps ↔
      IsQueue k.queueNext (k.readyHead l) (k.readyTail l) ps)
  children : ∀ p cs, (k.procs p).used → (∀ c ∈ cs, (k.procs c).used) →
    (IsChain k'.siblingNext (k'.childHead p) cs ↔ IsChain k.siblingNext (k.childHead p) cs)
  files : k'.files = k.files
  foreground : k'.tty.fgPid = k.tty.fgPid
  heap : ∃ freed, Returned k.heap k'.heap freed

lemma unchanged_refl (k : Kernel) : Unchanged k k where
  slot := .inl rfl
  used _ := rfl
  procs _ _ := rfl
  queues _ _ _ := .rfl
  children _ _ _ _ := .rfl
  files := rfl
  foreground := rfl
  heap := ⟨[], rfl, by simp, fun n => by simp; omega⟩

lemma Undone.unchanged (hi : (k.procs i).used = false) (h : Undone k k' i) : Unchanged k k' := by
  have hne : ∀ p, (k.procs p).used → p ≠ i := by
    rintro p hp rfl
    rw [hi] at hp
    cases hp
  have hs := h.write.same
  have hh : k'.readyHead = k.readyHead := (congrArg Kernel.readyHead hs :)
  have ht : k'.readyTail = k.readyTail := (congrArg Kernel.readyTail hs :)
  refine ⟨.inr ⟨i, hi, h.write⟩, fun p => ?_, fun p hp => h.write.procs p (hne p hp), fun l ps hps => ?_,
    fun p cs hp hcs => ?_, (congrArg Kernel.files hs :),
    (congrArg (fun k => k.tty.fgPid) hs :), h.heap⟩
  · by_cases hpi : p = i
    · rw [hpi, hi, h.free]
    · rw [h.write.procs p hpi]
  · rw [hh, ht]
    have hq : ∀ p ∈ ps, k'.queueNext p = k.queueNext p := fun p hp =>
      h.write.queue p (hne p (hps p hp))
    exact ⟨fun h => h.congr fun p hp => (hq p hp).symm, fun h => h.congr hq⟩
  · rw [h.write.child p (hne p hp)]
    exact isChain_congr fun c hc => h.write.sibling c (hne c (hcs c hc))

/-- Whatever makes `proc_create` return -1 in a reachable state, it leaves everything as it was or
as the reaping of zombies left it. -/
theorem failed_create_unchanged (h : Transition.Reach Boot System.step (fun _ _ => True) σ)
    (entry : Option Nat) (prio : Int) (fg : Bool) (name : Option CStr)
    (hf : (procCreate σ.k entry prio fg name).2 = -1) :
    Unchanged σ.k (procCreate σ.k entry prio fg name).1 ∨
      Unchanged (collectZombies σ.k) (procCreate σ.k entry prio fg name).1 := by
  cases entry with
  | none => exact .inl (unchanged_refl σ.k)
  | some e =>
    cases name with
    | none => exact .inl (unchanged_refl σ.k)
    | some name =>
      right
      rw [procCreate_some] at hf ⊢
      have hpos : 0 < (collectZombies σ.k).nextPid := by
        rw [((Steady.closed none).collectZombies σ.k).nextPid]
        exact (reach_always_positive h).2
      obtain he | ⟨i, hu, hd⟩ := createTail_undone hpos (clampPrio prio) fg name hf
      · rw [he]
        exact unchanged_refl _
      · exact hd.unchanged hu

/-- A system in which the descriptor table of the first process after the shell cannot be
allocated. -/
def tightBoot : System := ⟨bootKernel fun n => decide (n = 8), ⟨0, .user⟩⟩

lemma tightBoot_boot : Boot tightBoot :=
  ⟨fun n => decide (n = 8), 0, rfl, by decide +kernel, rfl⟩

/-- The shell runs. Its call has taken the slot and the stack, block 7, when the table fails. -/
theorem failed_create_unchanged_sample : ∃ σ,
    Transition.run System.step tightBoot (List.replicate 5 .tick) = some σ ∧
      σ.k.current = some 1 ∧ (procCreate σ.k (some 0) 2 true (some [97])).2 = -1 ∧
      StackFreed (procCreate σ.k (some 0) 2 true (some [97])).1 7 ∧
      (Unchanged σ.k (procCreate σ.k (some 0) 2 true (some [97])).1 ∨
        Unchanged (collectZombies σ.k) (procCreate σ.k (some 0) 2 true (some [97])).1) := by
  have hrun : (Transition.run System.step tightBoot (List.replicate 5 .tick)).any fun σ =>
      decide (σ.k.current = some 1 ∧ (procCreate σ.k (some 0) 2 true (some [97])).2 = -1 ∧
        ⟨.stack, 7⟩ ∈ (procCreate σ.k (some 0) 2 true (some [97])).1.heap.freed) := by
    decide +kernel
  obtain ⟨σ, hσ, h⟩ := (Option.any_eq_true _ _).mp hrun
  obtain ⟨hc, hf, h7⟩ := of_decide_eq_true h
  have hreach := (Transition.Reach.start tightBoot_boot).of_run hσ
  exact ⟨σ, hσ, hc, hf, h7, failed_create_unchanged hreach (some 0) 2 true (some [97]) hf⟩

end TP2Kernel.Proofs
