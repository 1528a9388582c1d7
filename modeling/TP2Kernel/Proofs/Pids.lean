import TP2Kernel.Proofs.Booting
import TP2Kernel.Proofs.Steady

/-!
# Pids of slots in use

Only `proc_create` changes the pid of a slot that is in use afterwards. So two slots in use have
the same pid only if `next_pid` has come round to a pid that is still in use.
-/

namespace TP2Kernel.Proofs
open Function LinkedList

variable {k k' k'' : Kernel} {n : Nat}

/-- Every slot in use was in use with the same pid. -/
def Numbered (k k' : Kernel) : Prop :=
  ∀ p, (k'.procs p).used → (k.procs p).used ∧ (k'.procs p).pid = (k.procs p).pid

/-- The first part of `proc_set_foreground`. -/
def raiseFg (k : Kernel) (pid : Int) : Kernel :=
  match procByPid k pid with
  | some p => k.modify p fun c => { c with fg := true }
  | none => k

/-- The last part of `proc_set_foreground`. -/
def lowerFg (k : Kernel) (pid : Int) : Kernel :=
  { k with procs := fun i =>
      if (k.procs i).used ∧ (k.procs i).pid ≠ pid then { k.procs i with fg := false }
      else k.procs i }

/-- Nothing but the foreground flag of a PCB changes. -/
def FgWrite (c c' : Pcb) : Prop := c' = { c with fg := c'.fg }

lemma raiseFg_procs (k : Kernel) (pid : Int) (p : Slot) :
    FgWrite (k.procs p) ((raiseFg k pid).procs p) := by
  unfold raiseFg
  split
  · rw [Kernel.modify_procs]
    split
    · rename_i h
      rw [h]
      rfl
    · rfl
  · rfl

lemma lowerFg_procs (k : Kernel) (pid : Int) (p : Slot) :
    FgWrite (k.procs p) ((lowerFg k pid).procs p) := by
  unfold lowerFg
  dsimp only
  split
  · rfl
  · rfl

lemma FgWrite.trans {c c' c'' : Pcb} (h : FgWrite c c') (h' : FgWrite c' c'') : FgWrite c c'' := by
  rw [FgWrite] at h h' ⊢
  rw [h', h]

lemma procSetForeground_eq (k : Kernel) (pid : Int) :
    procSetForeground k pid = lowerFg (ttySetForeground (raiseFg k pid) pid) pid := rfl

namespace Numbered

lemma refl (k : Kernel) : Numbered k k := fun _ h => ⟨h, rfl⟩

lemma trans (h : Numbered k k') (h' : Numbered k' k'') : Numbered k k'' := by
  intro p hp
  obtain ⟨h1, e1⟩ := h' p hp
  obtain ⟨h2, e2⟩ := h p h1
  exact ⟨h2, e1.trans e2⟩

lemma distinct (h : Numbered k k') (hd : DistinctPids k) : DistinctPids k' := by
  intro p q hp hq he
  obtain ⟨h1, e1⟩ := h p hp
  obtain ⟨h2, e2⟩ := h q hq
  exact hd p q h1 h2 (e1.symm.trans (he.trans e2))

lemma steady (h : Steady k k') : Numbered k k' := fun p hp => ⟨h.used p hp, (h.names p).1⟩

lemma fgWrite (h : ∀ p, FgWrite (k.procs p) (k'.procs p)) : Numbered k k' := by
  intro p hp
  rw [h p] at hp ⊢
  exact ⟨hp, rfl⟩

lemma procSetForeground (k : Kernel) (pid : Int) : Numbered k (procSetForeground k pid) := by
  rw [procSetForeground_eq]
  exact fgWrite fun p => (raiseFg_procs k pid p).trans
    (lowerFg_procs (TP2Kernel.ttySetForeground (raiseFg k pid) pid) pid p)

lemma ttySetForeground (k : Kernel) (pid : Int) : Numbered k (ttySetForeground k pid) :=
  fun _ h => ⟨h, rfl⟩

lemma exitForeground (k : Kernel) (p : Slot) : Numbered k (exitForeground k p) := by
  unfold TP2Kernel.exitForeground
  split
  · split
    · exact procSetForeground k _
    · exact ttySetForeground k _
  · exact refl k

lemma killForeground (k : Kernel) (p : Slot) : Numbered k (killForeground k p) := by
  unfold TP2Kernel.killForeground
  split
  · split
    · exact procSetForeground k _
    · split
      · exact procSetForeground k _
      · exact ttySetForeground k _
  · exact refl k

lemma bury (h : Numbered k k') (p : Slot) (code : Int) (valid : Pcb → Bool) :
    Numbered k (buryProc (k'.modify p (exitMark code valid)) p) :=
  h.trans (steady (Steady.bury k' p code valid))

lemma procExit (k : Kernel) (exec : Slot) (code : Int) : Numbered k (procExit k exec code).1 := by
  have h0 := steady ((Steady.closed none).collectZombies k)
  rw [procExit_eq]
  generalize collectZombies k = k1 at h0 ⊢
  split
  · exact h0
  · rename_i p _
    split
    · exact h0
    · unfold exitTail exitRelease
      have h1 := h0.trans (steady ((Steady.closed none).ksemRemoveWaitersFor k1 p))
      have h2 := fun pid => h1.trans (steady ((Steady.closed none).semCleanupProcessHandles _ pid))
      have h3 := fun pid => (h2 pid).trans (exitForeground _ p)
      exact ((h3 _).bury p code _).trans (steady ((Steady.closed none).yield _ _))

lemma procKill (k : Kernel) (exec : Slot) (pid : Int) : Numbered k (procKill k exec pid).1 := by
  have h0 := steady ((Steady.closed none).collectZombies k)
  rw [procKill_eq]
  generalize collectZombies k = k1 at h0 ⊢
  split
  · exact h0
  · rename_i p _
    split
    · exact h0
    · unfold killTail killRelease
      have h1 := h0.trans (steady ((Steady.closed none).ksemRemoveWaitersFor k1 p))
      have h2 := h1.trans (killForeground _ p)
      split
      · exact h2.trans (procExit _ exec 0)
      · have h3 := h2.trans (steady ((Steady.closed none).unready _ p))
        exact (h3.bury p 0 _).trans (steady ((Steady.closed none).collectZombies _))

end Numbered

/-- The new process has slot `i` and the pid that `next_pid` held. -/
structure NumbersNew (k k' : Kernel) (i : Slot) : Prop where
  pid : (k'.procs i).pid = k.nextPid
  others : ∀ p, p ≠ i → (k'.procs p).used → (k.procs p).used ∧ (k'.procs p).pid = (k.procs p).pid

lemma NumbersNew.steady {i : Slot} (h : NumbersNew k k' i) (h' : Steady k' k'') :
    NumbersNew k k'' i := by
  refine ⟨(h'.names i).1.trans h.pid, fun p hp hu => ?_⟩
  obtain ⟨h1, e1⟩ := h.others p hp (h'.used p hu)
  exact ⟨h1, (h'.names p).1.trans e1⟩

/-- A slot that is given back does not count. -/
lemma NumbersNew.unused {i : Slot} (h : NumbersNew k k' i) (hu : (k'.procs i).used = false) :
    Numbered k k' := by
  intro p hp
  have hpi : p ≠ i := by
    rintro rfl
    rw [hu] at hp
    cases hp
  exact h.others p hpi hp

lemma numbersNew_claimed (k : Kernel) (i : Slot) (prio : Int) (fg : Bool) (name : CStr) :
    NumbersNew k (claimed k i prio fg name) i := by
  unfold claimed
  rw [setParentPid_eq]
  refine ⟨?_, fun p hp hu => ?_⟩
  · simp [Kernel.modify, initPcb]
  · simp only [Kernel.modify, update_of_ne hp] at hu ⊢
    exact ⟨hu, trivial⟩

lemma releaseSlot_used (unblock : Kernel → Int → Kernel) (k : Kernel) (i : Slot) :
    ((releaseSlot unblock k i).procs i).used = false := by
  unfold releaseSlot
  dsimp only
  rw [Kernel.modify_procs_self]

lemma steady_fdTableClone (k : Kernel) (dst src : Nat) : Steady k (fdTableClone k dst src) := by
  have h0 : Steady k { k with tables := update k.tables dst fun _ => none } := .of_eq rfl rfl rfl
  apply h0.trans
  apply (Steady.closed none).foldl
  intro k fd
  unfold fdTableCloneStep
  split
  · exact .refl k
  · exact .of_eq rfl rfl rfl

lemma steady_attachStd (k : Kernel) (t : Nat) (file : Option Nat) (fd : Fin fdMax) :
    Steady k (attachStd k t file fd) := by
  unfold attachStd
  split
  · exact .refl k
  · exact .of_eq rfl rfl rfl

lemma steady_fdTableAttachStd (k : Kernel) (t : Nat) : Steady k (fdTableAttachStd k t) :=
  ((steady_attachStd k t _ _).trans (steady_attachStd _ t _ _)).trans (steady_attachStd _ t _ _)

lemma steady_furnish (k : Kernel) (p : Slot) (t : Nat) : Steady k (furnish k p t) := by
  unfold furnish
  have h0 := Steady.modify k p (f := fun c => { c with fdTable := some t }) ⟨rfl, rfl, rfl⟩ id
  dsimp only
  split
  · have hl : ∀ k parent, Steady k (linkChild k parent p) := fun _ _ => .of_eq rfl rfl rfl
    split
    · exact (h0.trans (steady_fdTableClone _ t _)).trans (hl _ _)
    · exact (h0.trans (steady_fdTableAttachStd _ t)).trans (hl _ _)
  · exact h0.trans (steady_fdTableAttachStd _ t)

lemma NumbersNew.install {i : Slot} (h : NumbersNew k k' i) (t : Nat) (fg : Bool) :
    NumbersNew k (installProc k' i t fg).1 i := by
  have h1 := h.steady ((steady_furnish k' i t).trans (Steady.schedEnqueue _ i))
  rw [installProc_eq]
  dsimp only
  split
  · exact ⟨h1.pid, h1.others⟩
  · exact h1

/-- A `proc_create` that succeeds numbers one new process; one that fails changes no pid of a slot
in use. -/
theorem createTail_numbers (k : Kernel) (prio : Int) (fg : Bool) (name : CStr) :
    Numbered k (createTail k prio fg name).1 ∨
      (HasRoom k ∧ ∃ i, NumbersNew k (createTail k prio fg name).1 i) := by
  unfold createTail allocateSlot
  cases hi : (List.finRange maxProcs).find? fun i => !(k.procs i).used with
  | none => exact .inl (.refl k)
  | some i =>
    have hu : (k.procs i).used = false := by simpa using List.find?_some hi
    have hc := numbersNew_claimed k i prio fg name
    have hheap : (claimed k i prio fg name).heap = k.heap := by
      unfold claimed
      rw [setParentPid_eq]
      rfl
    change Numbered k (createStack (claimed k i prio fg name) i fg).1 ∨
      (HasRoom k ∧ ∃ i', NumbersNew k (createStack (claimed k i prio fg name) i fg).1 i')
    generalize claimed k i prio fg name = k1 at hc hheap ⊢
    unfold createStack
    cases hm : k1.mmMalloc with
    | mk k2 m =>
      have hs2 := mmMalloc_fails hm
      have h2 : Steady k1 k2 := by
        have e : k2 = k1.mmMalloc.1 := by rw [hm]
        rw [e]
        exact .of_eq rfl rfl rfl
      rw [hheap] at hs2
      cases m with
      | none =>
        have h3 := hc.steady (h2.trans ((Steady.closed none).releaseSlot (Steady.closed none).wake k2 i))
        exact .inl (h3.unused (releaseSlot_used _ _ _))
      | some stack =>
        have hk2 := (mmMalloc_some hm).2
        dsimp only
        generalize hk3 : setupStack (k2.modify i fun c => { c with kstackBase := some stack }) i = k3
        have h3 : NumbersNew k k3 i := by
          rw [← hk3]
          have e := Steady.modify k2 i (f := fun c => { c with kstackBase := some stack })
            ⟨rfl, rfl, rfl⟩ id
          exact hc.steady (h2.trans (e.trans (.modify _ i ⟨rfl, rfl, rfl⟩ id)))
        have hheap3 : k3.heap = { k.heap with next := k.heap.next + 1 } := by
          rw [← hk3, ← hheap, hk2]
          rfl
        unfold createTable fdTableCreate
        cases hm' : k3.mmMalloc with
        | mk k4 m' =>
          have ht := mmMalloc_fails hm'
          rw [hheap3] at ht
          have h4 : NumbersNew k k4 i := by
            have e : k4 = k3.mmMalloc.1 := by rw [hm']
            rw [e]
            exact h3.steady (.of_eq rfl rfl rfl)
          cases m' with
          | none =>
            have h5 := h4.steady (((Steady.closed none).freeKstack k4 i).trans
              ((Steady.closed none).releaseSlot (Steady.closed none).wake _ i))
            exact .inl (h5.unused (releaseSlot_used _ _ _))
          | some t =>
            have h5 : NumbersNew k { k4 with tables := update k4.tables t fun _ => none } i :=
              h4.steady (.of_eq rfl rfl rfl)
            exact .inr ⟨⟨⟨i, hu⟩, hs2, ht⟩, i, h5.install t fg⟩

lemma NumbersNew.distinct {i : Slot} (h : NumbersNew k k' i) (hd : DistinctPids k)
    (hf : ∀ p, (k.procs p).used → (k.procs p).pid ≠ k.nextPid) : DistinctPids k' := by
  have hne : ∀ p, p ≠ i → (k'.procs p).used → (k'.procs p).pid ≠ (k'.procs i).pid := by
    intro p hp hu he
    obtain ⟨h1, e1⟩ := h.others p hp hu
    exact hf p h1 (e1.symm.trans (he.trans h.pid))
  intro p q hp hq he
  by_cases hpi : p = i
  · by_cases hqi : q = i
    · rw [hpi, hqi]
    · subst hpi
      exact absurd he.symm (hne q hqi hq)
  · by_cases hqi : q = i
    · subst hqi
      exact absurd he (hne p hpi hp)
    · obtain ⟨h1, e1⟩ := h.others p hpi hp
      obtain ⟨h2, e2⟩ := h.others q hqi hq
      exact hd p q h1 h2 (e1.symm.trans (he.trans e2))

/-- `proc_create` keeps the pids distinct where it does not give out a pid in use. -/
lemma procCreate_distinct (hd : DistinctPids k) (entry : Option Nat) (prio : Int) (fg : Bool)
    (name : Option CStr) (hf : ∀ e n, entry = some e → name = some n → FreshPid k) :
    DistinctPids (procCreate k entry prio fg name).1 := by
  cases entry with
  | none => exact hd
  | some e =>
    cases name with
    | none => exact hd
    | some name =>
      have hs := (Steady.closed none).collectZombies k
      have hd1 := (Numbered.steady hs).distinct hd
      have hfresh := hf e name rfl rfl
      rw [procCreate_some]
      rcases createTail_numbers (collectZombies k) (clampPrio prio) fg name with h | ⟨hr, i, h⟩
      · exact h.distinct hd1
      · apply h.distinct hd1
        rw [hs.nextPid]
        exact hfresh hr

lemma step_distinct {e : PidEvent} (hd : DistinctPids k) (hok : PidSystem.CreatesFresh k e)
    (hs : PidSystem.step k e = some k') : DistinctPids k' := by
  cases e with
  | create entry prio fg name =>
    cases hs
    apply procCreate_distinct hd
    rintro e n rfl rfl
    exact hok e prio fg n rfl
  | exit exec code =>
    cases hs
    exact (Numbered.procExit k exec code).distinct hd
  | kill exec pid =>
    cases hs
    exact (Numbered.procKill k exec pid).distinct hd
  | collect =>
    cases hs
    exact (Numbered.steady ((Steady.closed none).collectZombies k)).distinct hd
  | elsewhere k1 allocs =>
    cases hs
    exact hd

/-- In a run whose `proc_create` calls never give out a pid in use, no two slots in use have the
same pid. -/
theorem distinct_pids
    (h : Transition.Reach PidSystem.Start PidSystem.step PidSystem.CreatesFresh k) :
    DistinctPids k := by
  apply h.invariant (I := DistinctPids)
  · intro k h0 p q hp
    rw [h0.2 p] at hp
    cases hp
  · exact fun _ _ _ hd hok hs => step_distinct hd hok hs

/-- The first process of a system in which no allocation fails. -/
def firstCreated : Kernel := (procCreate (kernelZero fun _ => false) (some 0) 0 false (some [])).1

lemma firstCreated_reach :
    Transition.Reach PidSystem.Start PidSystem.step PidSystem.CreatesFresh firstCreated := by
  have h0 : PidSystem.Start (kernelZero fun _ => false) := ⟨rfl, fun _ => rfl⟩
  apply Transition.Reach.next (.start h0) _ (show PidSystem.step (kernelZero fun _ => false)
    (.create (some 0) 0 false (some [])) = some firstCreated from rfl)
  intro entry prio fg name _ _ p hp
  rw [collectZombies_none rfl] at hp
  cases hp

/-- The second process is created beside the first. -/
def secondCreated : Kernel := (procCreate firstCreated (some 0) 0 false (some [])).1

theorem distinct_pids_sample : DistinctPids secondCreated ∧
    ((secondCreated.procs 0).used ∧ (secondCreated.procs 0).pid = 1) ∧
    (secondCreated.procs 1).used ∧ (secondCreated.procs 1).pid = 2 := by
  refine ⟨?_, by decide +kernel, by decide +kernel⟩
  have hs : PidSystem.step firstCreated (.create (some 0) 0 false (some [])) =
      some secondCreated := rfl
  have hfresh : ∀ p, ((collectZombies firstCreated).procs p).used →
      ((collectZombies firstCreated).procs p).pid ≠ firstCreated.nextPid := by
    decide +kernel
  exact distinct_pids (firstCreated_reach.next (fun _ _ _ _ _ _ => hfresh) hs)

/-- The allocations that fail: all between the first process and the `2 ^ 31`-th request. -/
def scarce (n : Nat) : Bool := decide (2 ≤ n ∧ n < 2147483648)

/-- One process is there, and `n - 1` pids were given out. -/
structure Scarce (k : Kernel) (n : Nat) : Prop where
  zombies : k.zombieHead = none
  current : k.current = some 0
  first : (k.procs 0).used ∧ (k.procs 0).pid = 1
  others : ∀ p, p ≠ 0 → (k.procs p).used = false
  next : k.heap.next = n
  fails : k.heap.fails = scarce

lemma Scarce.free (h : Scarce k n) : ∀ i, (k.procs i).used = false → k.current ≠ some i := by
  intro i hi hc
  rw [h.current] at hc
  cases hc
  rw [h.first.1] at hi
  cases hi

lemma releaseSlot_next {i : Slot} (h : (k.procs i).fdTable = none) :
    (releaseSlot wake k i).heap.next = k.heap.next := by
  rw [releaseSlot_noTable k i h]
  unfold freeSlot cleanupWaitResults
  dsimp only [Kernel.modify]
  rw [Kernel.mmFrees_eq]

/-- A `proc_create` that gets no stack makes one request. -/
lemma createTail_next (hfree : ∀ i, (k.procs i).used = false → k.current ≠ some i)
    (hu : ∃ p, (k.procs p).used = false) (hf : k.heap.fails k.heap.next = true) (prio : Int)
    (fg : Bool) (name : CStr) :
    (createTail k prio fg name).1.heap.next = k.heap.next + 1 := by
  unfold createTail allocateSlot
  cases hi : (List.finRange maxProcs).find? fun i => !(k.procs i).used with
  | none =>
    obtain ⟨p, hp⟩ := hu
    exact absurd hp (by simpa using List.find?_eq_none.mp hi p (List.mem_finRange p))
  | some i =>
    have hui : (k.procs i).used = false := by simpa using List.find?_some hi
    have hd := drafted_claimed (hfree i hui) prio fg name
    have hheap : (claimed k i prio fg name).heap = k.heap := by
      unfold claimed
      rw [setParentPid_eq]
      rfl
    change (createStack (claimed k i prio fg name) i fg).1.heap.next = k.heap.next + 1
    generalize claimed k i prio fg name = k1 at hd hheap ⊢
    unfold createStack
    cases hm : k1.mmMalloc with
    | mk k2 m =>
      have hm' := mmMalloc_fails hm
      rw [hheap, hf] at hm'
      cases m with
      | some stack => cases hm'
      | none =>
        have hk2 := mmMalloc_none hm
        have ht : (k2.procs i).fdTable = none := by
          rw [hk2]
          dsimp only
          rw [hd.pcb]
          rfl
        dsimp only
        rw [releaseSlot_next ht, hk2, ← hheap]

lemma Scarce.step (h : Scarce k n) (h2 : 2 ≤ n) (hn : n < 2147483648) :
    Scarce (procCreate k (some 0) 0 false (some [])).1 (n + 1) ∧
      (procCreate k (some 0) 0 false (some [])).1.nextPid = bumpPid k.nextPid := by
  have hf : k.heap.fails k.heap.next = true := by
    rw [h.fails, h.next]
    exact decide_eq_true ⟨h2, hn⟩
  have hu : (k.procs 1).used = false := h.others 1 (by decide)
  rw [procCreate_some, collectZombies_none h.zombies]
  have hnext := createTail_next h.free ⟨1, hu⟩ hf (clampPrio 0) false []
  rcases createTail_outcome k h.free (clampPrio 0) false [] with ⟨ha, -⟩ |
    ⟨-, i, k', hi, e, hg⟩ | ⟨hr, -⟩
  · rw [ha 1] at hu
    cases hu
  · rw [e] at hnext ⊢
    have hi0 : (0 : Slot) ≠ i := by
      rintro rfl
      rw [h.first.1] at hi
      cases hi
    refine ⟨⟨?_, ?_, ?_, ?_, ?_, ?_⟩, hg.bump⟩
    · exact hg.write.sameZombies_head.trans h.zombies
    · rw [hg.write.same]
      exact h.current
    · rw [hg.write.procs 0 hi0]
      exact h.first
    · intro p hp
      by_cases hpi : p = i
      · rw [hpi]
        exact hg.used
      · rw [hg.write.procs p hpi]
        exact h.others p hp
    · rw [hnext, h.next]
    · rw [hg.write.fails, h.fails]
  · have hs := hr.stack
    rw [hf] at hs
    cases hs

/-- The first process of a system that soon runs out of memory. -/
def scarceStart : Kernel := (procCreate (kernelZero scarce) (some 0) 0 false (some [])).1

lemma scarceStart_scarce : Scarce scarceStart 2 ∧ scarceStart.nextPid = 2 := by
  have h : scarceStart.zombieHead = none ∧ scarceStart.current = some 0 ∧
      ((scarceStart.procs 0).used ∧ (scarceStart.procs 0).pid = 1) ∧
      (∀ p, p ≠ 0 → (scarceStart.procs p).used = false) ∧ scarceStart.heap.next = 2 ∧
      scarceStart.nextPid = 2 := by
    decide +kernel
  obtain ⟨h1, h2, h3, h4, h5, h6⟩ := h
  exact ⟨⟨h1, h2, h3, h4, h5, rfl⟩, h6⟩

abbrev anyPid (_ : Kernel) (_ : PidEvent) : Prop := True

/-- After `n - 2` creations that fail, the counter holds `n`, or has come round to 1. -/
lemma scarce_reach (h2 : 2 ≤ n) (hn : n ≤ 2147483648) :
    ∃ k, Transition.Reach PidSystem.Start PidSystem.step anyPid k ∧ Scarce k n ∧
      k.nextPid = if n = 2147483648 then 1 else (n : Int) := by
  induction n, h2 using Nat.le_induction with
  | base =>
    obtain ⟨h, e⟩ := scarceStart_scarce
    refine ⟨scarceStart, ?_, h, e⟩
    have h0 : PidSystem.Start (kernelZero scarce) := ⟨rfl, fun _ => rfl⟩
    exact .next (.start h0) trivial (show PidSystem.step (kernelZero scarce)
      (.create (some 0) 0 false (some [])) = some scarceStart from rfl)
  | succ n h2 ih =>
    obtain ⟨k, hr, hs, e⟩ := ih (Nat.le_of_succ_le hn)
    obtain ⟨hs', e'⟩ := hs.step h2 hn
    have hstep : PidSystem.step k (.create (some 0) 0 false (some [])) =
      some (procCreate k (some 0) 0 false (some [])).1 := rfl
    refine ⟨_, hr.next trivial hstep, hs', ?_⟩
    rw [e', e, if_neg (by omega)]
    unfold bumpPid
    dsimp only
    split_ifs <;> omega

/-- After `2 ^ 31 - 1` creations, the next process gets the pid of the first one. -/
theorem pid_given_twice : ∃ k, Transition.Reach PidSystem.Start PidSystem.step anyPid k ∧
    ¬DistinctPids k := by
  obtain ⟨k, hr, hs, e⟩ := scarce_reach (n := 2147483648) (by norm_num) le_rfl
  rw [if_pos rfl] at e
  have hstep : PidSystem.step k (.create (some 0) 0 false (some [])) =
    some (procCreate k (some 0) 0 false (some [])).1 := rfl
  refine ⟨_, hr.next trivial hstep, fun hd => ?_⟩
  have hu : (k.procs 1).used = false := hs.others 1 (by decide)
  have hroom : HasRoom k := by
    refine ⟨⟨1, hu⟩, ?_, ?_⟩
    · rw [hs.fails, hs.next]
      decide
    · rw [hs.fails, hs.next]
      decide
  rw [procCreate_some, collectZombies_none hs.zombies] at hd
  rcases createTail_outcome k hs.free (clampPrio 0) false [] with ⟨ha, -⟩ | ⟨hn, -⟩ |
    ⟨-, i, k', t, stack, hi, hc, hp⟩
  · rw [ha 1] at hu
    cases hu
  · exact hn hroom
  · have hon : ¬(k'.schedulerEnabled = false ∧ k'.current = none) := by
      intro h
      have hcur : k'.current = k.current := by rw [hp.drafted.write.same]
      rw [hcur, hs.current] at h
      cases h.2
    have hi0 : (0 : Slot) ≠ i := by
      rintro rfl
      rw [hs.first.1] at hi
      cases hi
    have hpcb := hp.drafted.pcb
    have hprocs := installProc_procs (by rw [hpcb]; rfl) hon t false
    rw [hc] at hd
    refine hi0 (hd 0 i ?_ ?_ ?_)
    · rw [hprocs, update_of_ne hi0, hp.drafted.write.procs 0 hi0]
      exact hs.first.1
    · rw [hprocs, update_self, hpcb]
      rfl
    · rw [hprocs, update_of_ne hi0, update_self, hp.drafted.write.procs 0 hi0, hpcb, hs.first.2]
      exact e.symm

end TP2Kernel.Proofs
