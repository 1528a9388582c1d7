import TP2Kernel.PidCalls
import TP2Kernel.Proofs.Termination

/-!
# Creating a process

`proc_create` behind its `collect_zombies`: it finds no free slot, or claims one and gives
it back, or sets the slot up and puts the new process on the ready queues.
-/

namespace TP2Kernel.Proofs
open Function LinkedList

variable {s : Scope}

/-- No list goes on from slot `i`. -/
def Cleared (k : Kernel) (i : Slot) : Prop :=
  k.queueNext i = none ∧ k.childHead i = none ∧ k.siblingNext i = none

/-- Only slot `i` and new heap blocks are written. -/
structure DraftWrite (i : Slot) (k k' : Kernel) : Prop where
  same : k' = { k with
    procs := k'.procs, queueNext := k'.queueNext, cleanupNext := k'.cleanupNext
    childHead := k'.childHead, siblingNext := k'.siblingNext, nextPid := k'.nextPid
    heap := k'.heap, tables := k'.tables }
  procs : ∀ q, q ≠ i → k'.procs q = k.procs q
  queue : update k'.queueNext i none = update k.queueNext i none
  cleanup : ∀ q, q ≠ i → k'.cleanupNext q = k.cleanupNext q
  links : ∀ q, q ≠ i → k'.childHead q = k.childHead q ∧ k'.siblingNext q = k.siblingNext q
  keeps : Cleared k i → Cleared k' i
  next : k.heap.next ≤ k'.heap.next
  fails : k'.heap.fails = k.heap.fails
  freed : ∀ a, StackFreed k' a → StackFreed k a ∨ (k.heap.next ≤ a ∧ a < k'.heap.next)

namespace DraftWrite

variable {i : Slot} {k k' k'' : Kernel}

lemma trans (h : DraftWrite i k k') (h' : DraftWrite i k' k'') : DraftWrite i k k'' where
  same := by rw [h'.same, h.same]
  procs q hq := (h'.procs q hq).trans (h.procs q hq)
  queue := h'.queue.trans h.queue
  cleanup q hq := (h'.cleanup q hq).trans (h.cleanup q hq)
  links q hq := ⟨(h'.links q hq).1.trans (h.links q hq).1, (h'.links q hq).2.trans (h.links q hq).2⟩
  keeps hc := h'.keeps (h.keeps hc)
  next := h.next.trans h'.next
  fails := h'.fails.trans h.fails
  freed a ha := by
    have := h.next
    have := h'.next
    rcases h'.freed a ha with h1 | h1
    · rcases h.freed a h1 with h2 | h2
      · exact .inl h2
      · exact .inr ⟨h2.1, by omega⟩
    · exact .inr ⟨by omega, h1.2⟩

lemma of_data (h : k' = { k with
    procs := k'.procs, nextPid := k'.nextPid, heap := k'.heap, tables := k'.tables })
    (hp : ∀ q, q ≠ i → k'.procs q = k.procs q) (hn : k.heap.next ≤ k'.heap.next)
    (hf : k'.heap.fails = k.heap.fails)
    (hst : ∀ a, StackFreed k' a → StackFreed k a ∨ (k.heap.next ≤ a ∧ a < k'.heap.next)) :
    DraftWrite i k k' := by
  have hq : k'.queueNext = k.queueNext := (congrArg Kernel.queueNext h :)
  have hc : k'.childHead = k.childHead := (congrArg Kernel.childHead h :)
  have hs : k'.siblingNext = k.siblingNext := (congrArg Kernel.siblingNext h :)
  have hz : k'.cleanupNext = k.cleanupNext := (congrArg Kernel.cleanupNext h :)
  refine ⟨?_, hp, by rw [hq], fun _ _ => by rw [hz], fun _ _ => by rw [hc, hs]; exact ⟨rfl, rfl⟩,
    fun hk => ?_, hn, hf, hst⟩
  · rw [h]
  · unfold Cleared
    rw [hq, hc, hs]
    exact hk

lemma modify (k : Kernel) (i : Slot) (f : Pcb → Pcb) : DraftWrite i k (k.modify i f) :=
  of_data rfl (fun _ hq => Kernel.modify_procs_of_ne _ _ hq) le_rfl rfl fun _ h => .inl h

lemma mmMalloc (k : Kernel) (i : Slot) : DraftWrite i k k.mmMalloc.1 :=
  of_data rfl (fun _ _ => rfl) (Nat.le_succ _) rfl fun _ h => .inl h

lemma mmFree (k : Kernel) (i : Slot) {b : Block} (hb : b.kind ≠ .stack) :
    DraftWrite i k (k.mmFree b) :=
  of_data rfl (fun _ _ => rfl) le_rfl rfl fun a h => .inl (stackFreed_mmFree hb a h)

lemma nextPid (k : Kernel) (i : Slot) (n : Int) : DraftWrite i k { k with nextPid := n } :=
  of_data rfl (fun _ _ => rfl) le_rfl rfl fun _ h => .inl h

lemma freeSlot (k : Kernel) (i : Slot) : DraftWrite i k (freeSlot k i) :=
  (modify k i fun c => { c with pendingExitValid := false, used := false }).trans
    ⟨rfl, fun _ _ => rfl, rfl, fun _ _ => rfl,
      fun _ hq => ⟨update_of_ne hq _ _, update_of_ne hq _ _⟩,
      fun h => ⟨h.1, update_self _ _ _, update_self _ _ _⟩, le_rfl, rfl, fun _ h => .inl h⟩

lemma cleanupWaitResults (k : Kernel) (i : Slot) : DraftWrite i k (cleanupWaitResults k i) := by
  have : ∀ (bs : List Block) (k : Kernel), (∀ b ∈ bs, b.kind ≠ .stack) →
      DraftWrite i k (bs.foldl Kernel.mmFree k) := by
    intro bs
    induction bs with
    | nil => exact fun k _ => of_data rfl (fun _ _ => rfl) le_rfl rfl fun _ h => .inl h
    | cons b bs ih =>
      exact fun k hb => (mmFree k i (hb b (by simp))).trans
        (ih _ fun b' hb' => hb b' (by simp [hb']))
  unfold TP2Kernel.cleanupWaitResults
  refine (this _ k fun b hb => ?_).trans (modify _ i _)
  obtain ⟨r, -, rfl⟩ := List.mem_map.mp hb
  simp

lemma sameZombies_head (h : DraftWrite i k k') : k'.zombieHead = k.zombieHead :=
  (congrArg Kernel.zombieHead h.same :)

/-- A draft as an action. -/
lemma off (h : DraftWrite i k k') (hn : k'.queueNext i = none)
    (hw : (k'.procs i).waitingFor = 0) :
    Off (· = i) { k with queueNext := update k.queueNext i none } k' where
  queues := by
    have hq : k'.queueNext = update k.queueNext i none := by
      rw [← h.queue, ← hn, update_eq_self]
    unfold SameQueues
    rw [h.same, hq]
  procs q hq := by
    rw [h.procs q hq]
    exact SameSched.refl _
  links q hq := h.links q hq
  results q hq _ := by
    rw [h.procs q hq]
    exact SameResults.refl _
  waiting q := by
    by_cases hq : q = i
    · exact .inr (hq ▸ hw)
    · exact .inl (by rw [h.procs q hq])
  next := h.next
  fails := h.fails
  freed a ha := (h.freed a ha).imp id .inl

end DraftWrite

/-- The part of `proc_create` behind the allocation of the stack. -/
def createTable (k : Kernel) (p : Slot) (fg : Bool) : Kernel × Int :=
  match fdTableCreate k with
  | (k, none) => (releaseSlot wake (freeKstack k p) p, -1)
  | (k, some t) => installProc k p t fg

/-- The part of `proc_create` behind the claim of slot `p`. -/
def createStack (k : Kernel) (p : Slot) (fg : Bool) : Kernel × Int :=
  match k.mmMalloc with
  | (k, none) => (releaseSlot wake k p, -1)
  | (k, some stack) =>
    createTable (setupStack (k.modify p fun c => { c with kstackBase := some stack }) p) p fg

/-- `proc_create` behind `collect_zombies`. -/
def createTail (k : Kernel) (prio : Int) (fg : Bool) (name : CStr) : Kernel × Int :=
  match allocateSlot k with
  | (k, none) => (k, -1)
  | (k, some p) =>
    createStack (setParentPid
      { k.modify p (initPcb k.nextPid name prio fg) with nextPid := bumpPid k.nextPid } p) p fg

lemma procCreate_some (k : Kernel) (e : Nat) (prio : Int) (fg : Bool) (name : CStr) :
    procCreate k (some e) prio fg (some name) =
      createTail (collectZombies k) (clampPrio prio) fg name := rfl

/-- The claimed slot before its stack is allocated. -/
def claimed (k : Kernel) (i : Slot) (prio : Int) (fg : Bool) (name : CStr) : Kernel :=
  let k := { k.modify i fun _ => { Pcb.zero with used := true } with
    queueNext := update k.queueNext i none
    cleanupNext := update k.cleanupNext i none
    childHead := update k.childHead i none
    siblingNext := update k.siblingNext i none }
  setParentPid { k.modify i (initPcb k.nextPid name prio fg) with nextPid := bumpPid k.nextPid } i

lemma setParentPid_eq (k : Kernel) (i : Slot) : setParentPid k i = k.modify i fun c =>
    { c with parentPid := match k.current with
      | some p => (k.procs p).pid
      | none => c.parentPid } := by
  unfold setParentPid
  cases k.current with
  | none => simp [Kernel.modify]
  | some p => rfl

/-- The parent pid of a process that is created in `k`. -/
def newParent (k : Kernel) : Int :=
  match k.current with
  | some p => (k.procs p).pid
  | none => -1

/-- What a new process's PCB is before it gets its stack. -/
def claimedPcb (k : Kernel) (prio : Int) (fg : Bool) (name : CStr) : Pcb :=
  { initPcb k.nextPid name prio fg { Pcb.zero with used := true } with parentPid := newParent k }

/-- What a new process's PCB is before it gets its descriptor table. -/
def newPcb (k : Kernel) (i : Slot) (prio : Int) (fg : Bool) (name : CStr) (stack : Nat) : Pcb :=
  { claimedPcb k prio fg name with
    kstackBase := some stack, kframe := some ⟨i, .trampoline⟩ }

/-- Slot `i` is set up as `c` in `k'`. -/
structure Drafted (k k' : Kernel) (i : Slot) (c : Pcb) : Prop where
  write : DraftWrite i k k'
  cleared : Cleared k' i
  pcb : k'.procs i = c
  bump : k'.nextPid = bumpPid k.nextPid

lemma Drafted.step {k k' k'' : Kernel} {i : Slot} {c c' : Pcb} (h : Drafted k k' i c)
    (hw : DraftWrite i k' k'') (hp : k''.procs i = c') (hn : k''.nextPid = k'.nextPid) :
    Drafted k k'' i c' :=
  ⟨h.write.trans hw, hw.keeps h.cleared, hp, hn.trans h.bump⟩

lemma drafted_claimed {k : Kernel} {i : Slot} (hc : k.current ≠ some i) (prio : Int) (fg : Bool)
    (name : CStr) : Drafted k (claimed k i prio fg name) i (claimedPcb k prio fg name) := by
  have h0 : DraftWrite i k { k.modify i fun _ => { Pcb.zero with used := true } with
      queueNext := update k.queueNext i none
      cleanupNext := update k.cleanupNext i none
      childHead := update k.childHead i none
      siblingNext := update k.siblingNext i none } :=
    ⟨rfl, fun _ hq => by simp [Kernel.modify, hq], update_idem _ _ _,
      fun _ hq => update_of_ne hq _ _, fun _ hq => ⟨update_of_ne hq _ _, update_of_ne hq _ _⟩,
      fun _ => ⟨update_self _ _ _, update_self _ _ _, update_self _ _ _⟩, le_rfl, rfl,
      fun _ h => .inl h⟩
  unfold claimed
  rw [setParentPid_eq]
  refine ⟨((h0.trans (.modify _ i _)).trans (.nextPid _ i _)).trans (.modify _ i _),
    ⟨update_self _ _ _, update_self _ _ _, update_self _ _ _⟩, ?_, rfl⟩
  rw [Kernel.modify_procs_self]
  obtain hn | ⟨p, hp⟩ := Option.eq_none_or_eq_some k.current
  · simp [Kernel.modify, claimedPcb, newParent, hn, initPcb]
  · have hpi : p ≠ i := fun he => hc (he ▸ hp)
    simp [Kernel.modify, claimedPcb, newParent, hp, hpi]

lemma releaseSlot_noTable (k : Kernel) (i : Slot) (h : (k.procs i).fdTable = none) :
    releaseSlot wake k i = freeSlot (cleanupWaitResults k i) i := by
  unfold releaseSlot
  rw [h]
  rfl

/-- A claimed slot that is given back. -/
structure GivenBack (k k' : Kernel) (i : Slot) : Prop where
  write : DraftWrite i k k'
  cleared : Cleared k' i
  state : (k'.procs i).state = .new
  used : (k'.procs i).used = false
  waiting : (k'.procs i).waitingFor = 0
  stack : (k'.procs i).kstackBase = none
  bump : k'.nextPid = bumpPid k.nextPid

lemma givenBack_release {k k1 : Kernel} {i : Slot} {c : Pcb} (h : Drafted k k1 i c)
    (hs : c.state = .new) (hw : c.waitingFor = 0) (ht : c.fdTable = none)
    (hk : c.kstackBase = none) : GivenBack k (releaseSlot wake k1 i) i := by
  have hd : DraftWrite i k1 (freeSlot (cleanupWaitResults k1 i) i) :=
    (DraftWrite.cleanupWaitResults k1 i).trans (.freeSlot _ i)
  have hself : (freeSlot (cleanupWaitResults k1 i) i).procs i = { k1.procs i with
      waitRes := [], pendingExitPid := -1, pendingExitCode := 0, pendingExitValid := false
      used := false } := by
    simp [freeSlot, Kernel.modify, cleanupWaitResults_procs]
  have hpid : (freeSlot (cleanupWaitResults k1 i) i).nextPid = k1.nextPid := by
    have : ∀ (bs : List Block) (k : Kernel), (bs.foldl Kernel.mmFree k).nextPid = k.nextPid := by
      intro bs
      induction bs with
      | nil => exact fun _ => rfl
      | cons b bs ih => exact fun k => ih (k.mmFree b)
    exact this _ k1
  rw [h.pcb] at hself
  rw [releaseSlot_noTable k1 i (by rw [h.pcb]; exact ht)]
  exact ⟨h.write.trans hd, hd.keeps h.cleared, by rw [hself]; exact hs, by rw [hself],
    by rw [hself]; exact hw, by rw [hself]; exact hk, hpid.trans h.bump⟩

/-- Freeing the stack of a claimed slot, which is a block of this call. -/
lemma draftWrite_freeKstack {k k1 : Kernel} {i : Slot} {stack : Nat} (h : DraftWrite i k k1)
    (hs : (k1.procs i).kstackBase = some stack) (hlo : k.heap.next ≤ stack)
    (hhi : stack < k1.heap.next) : DraftWrite i k (freeKstack k1 i) ∧
      (Cleared k1 i → Cleared (freeKstack k1 i) i) ∧
      (freeKstack k1 i).procs i = { k1.procs i with kstackBase := none } ∧
      (freeKstack k1 i).nextPid = k1.nextPid := by
  have heq : freeKstack k1 i =
      (k1.mmFree ⟨.stack, stack⟩).modify i fun c => { c with kstackBase := none } := by
    unfold freeKstack
    rw [hs]
  rw [heq]
  refine ⟨⟨?_, fun q hq => ?_, h.queue, h.cleanup, h.links, h.keeps, h.next, h.fails,
    fun b hb => ?_⟩, id, ?_, rfl⟩
  · rw [h.same]
    rfl
  · rw [Kernel.modify_procs_of_ne _ _ hq]
    exact h.procs q hq
  · have hb' : StackFreed (k1.mmFree ⟨.stack, stack⟩) b := hb
    simp only [StackFreed, Kernel.mmFree, List.mem_append, List.mem_singleton,
      Block.mk.injEq, true_and] at hb'
    rcases hb' with hb' | rfl
    · exact h.freed b hb'
    · exact .inr ⟨hlo, hhi⟩
  · rw [Kernel.modify_procs_self]
    rfl

/-- A claimed slot with its stack, ready for its descriptor table. -/
structure Prepared (k k' : Kernel) (i : Slot) (prio : Int) (fg : Bool) (name : CStr)
    (stack : Nat) : Prop where
  drafted : Drafted k k' i (newPcb k i prio fg name stack)
  low : k.heap.next ≤ stack
  high : stack < k'.heap.next
  freed : k'.heap.freed = k.heap.freed

lemma mmMalloc_some {k k' : Kernel} {n : Nat} (h : k.mmMalloc = (k', some n)) :
    n = k.heap.next ∧ k' = { k with heap := { k.heap with next := k.heap.next + 1 } } := by
  unfold Kernel.mmMalloc at h
  split at h
  · simp at h
  · simp only [Prod.mk.injEq, Option.some.injEq] at h
    exact ⟨h.2.symm, h.1.symm⟩

lemma mmMalloc_fails {k k' : Kernel} {m : Option Nat} (h : k.mmMalloc = (k', m)) :
    k.heap.fails k.heap.next = m.isNone := by
  unfold Kernel.mmMalloc at h
  split at h
  · rename_i hf
    cases h
    exact hf
  · rename_i hf
    cases h
    exact Bool.eq_false_iff.mpr hf

lemma mmMalloc_none {k k' : Kernel} (h : k.mmMalloc = (k', none)) :
    k' = { k with heap := { k.heap with next := k.heap.next + 1 } } := by
  unfold Kernel.mmMalloc at h
  simp only [Prod.mk.injEq] at h
  exact h.1.symm

lemma createTable_cases {k k1 : Kernel} {i : Slot} {prio : Int} {fg : Bool} {name : CStr}
    {stack : Nat} (h : Prepared k k1 i prio fg name stack) :
    (k1.heap.fails k1.heap.next = true ∧
      ∃ k', createTable k1 i fg = (k', -1) ∧ GivenBack k k' i) ∨
    (k1.heap.fails k1.heap.next = false ∧ ∃ k' t, createTable k1 i fg = installProc k' i t fg ∧
      Prepared k k' i prio fg name stack) := by
  have hgrow : Prepared k { k1 with heap := { k1.heap with next := k1.heap.next + 1 } } i prio fg
      name stack :=
    ⟨h.drafted.step (.of_data rfl (fun _ _ => rfl) (Nat.le_succ _) rfl fun _ h => .inl h)
      h.drafted.pcb rfl, h.low, Nat.lt_succ_of_lt h.high, h.freed⟩
  unfold createTable fdTableCreate
  cases hm : k1.mmMalloc with
  | mk k2 m =>
    cases m with
    | none =>
      left
      rw [← mmMalloc_none hm] at hgrow
      obtain ⟨hw, hcl, hp, hn⟩ := draftWrite_freeKstack hgrow.drafted.write
        (by rw [hgrow.drafted.pcb]; rfl) hgrow.low hgrow.high
      have hd : Drafted k (freeKstack k2 i) i
          { newPcb k i prio fg name stack with kstackBase := none } :=
        ⟨hw, hcl hgrow.drafted.cleared, by rw [hp, hgrow.drafted.pcb], hn.trans hgrow.drafted.bump⟩
      exact ⟨mmMalloc_fails hm, _, rfl, givenBack_release hd rfl rfl rfl rfl⟩
    | some t =>
      right
      obtain ⟨-, hk2⟩ := mmMalloc_some hm
      rw [← hk2] at hgrow
      exact ⟨mmMalloc_fails hm, _, t, rfl, hgrow.drafted.step (.of_data rfl (fun _ _ => rfl) le_rfl rfl
        fun _ h => .inl h) hgrow.drafted.pcb rfl, hgrow.low, hgrow.high, hgrow.freed⟩

/-- The ends of `proc_create`. It creates a process where it has room for one. -/
theorem createTail_outcome (k : Kernel)
    (hfree : ∀ i, (k.procs i).used = false → k.current ≠ some i) (prio : Int) (fg : Bool)
    (name : CStr) :
    ((∀ p, (k.procs p).used) ∧ createTail k prio fg name = (k, -1)) ∨
    (¬HasRoom k ∧ ∃ i k', (k.procs i).used = false ∧ createTail k prio fg name = (k', -1) ∧
      GivenBack k k' i) ∨
    (HasRoom k ∧ ∃ i k' t stack, (k.procs i).used = false ∧
      createTail k prio fg name = installProc k' i t fg ∧ Prepared k k' i prio fg name stack) := by
  unfold createTail allocateSlot
  cases hi : (List.finRange maxProcs).find? fun i => !(k.procs i).used with
  | none =>
    refine .inl ⟨fun p => ?_, rfl⟩
    simpa using List.find?_eq_none.mp hi p (List.mem_finRange p)
  | some i =>
    have hu : (k.procs i).used = false := by simpa using List.find?_some hi
    have hd := drafted_claimed (hfree i hu) prio fg name
    have hheap : (claimed k i prio fg name).heap = k.heap := by
      unfold claimed
      rw [setParentPid_eq]
      rfl
    right
    change (¬HasRoom k ∧ ∃ i' k', (k.procs i').used = false ∧
        createStack (claimed k i prio fg name) i fg = (k', -1) ∧ GivenBack k k' i') ∨
      (HasRoom k ∧ ∃ i' k' t stack, (k.procs i').used = false ∧
        createStack (claimed k i prio fg name) i fg = installProc k' i' t fg ∧
        Prepared k k' i' prio fg name stack)
    generalize claimed k i prio fg name = k1 at hd hheap ⊢
    have hw := DraftWrite.mmMalloc k1 i
    unfold createStack
    cases hm : k1.mmMalloc with
    | mk k2 m =>
      rw [hm] at hw
      have hfail := mmMalloc_fails hm
      rw [hheap] at hfail
      cases m with
      | none =>
        have hd2 : Drafted k k2 i (claimedPcb k prio fg name) :=
          hd.step hw (by rw [mmMalloc_none hm]; exact hd.pcb) (by rw [mmMalloc_none hm])
        refine .inl ⟨fun h => ?_, i, _, hu, rfl, givenBack_release hd2 rfl rfl rfl rfl⟩
        rw [h.stack] at hfail
        cases hfail
      | some stack =>
        obtain ⟨hstack, hk2⟩ := mmMalloc_some hm
        have hd2 : Drafted k k2 i (claimedPcb k prio fg name) :=
          hd.step hw (by rw [hk2]; exact hd.pcb) (by rw [hk2])
        have hp3 : (setupStack (k2.modify i fun c => { c with kstackBase := some stack }) i).procs i
            = newPcb k i prio fg name stack := by
          simp only [setupStack, Kernel.modify_procs_self, hd2.pcb]
          rfl
        have hd3 : Prepared k (setupStack (k2.modify i fun c =>
            { c with kstackBase := some stack }) i) i prio fg name stack := by
          refine ⟨hd2.step ((DraftWrite.modify k2 i _).trans (.modify _ i _)) hp3 rfl, ?_, ?_, ?_⟩
          · rw [hstack, hheap]
          · rw [hstack, hk2]
            exact Nat.lt_succ_self _
          · rw [hk2, ← hheap]
            rfl
        have hnext : (setupStack (k2.modify i fun c => { c with kstackBase := some stack }) i).heap
            = { k.heap with next := k.heap.next + 1 } := by
          rw [hk2, ← hheap]
          rfl
        have ht := createTable_cases hd3
        rw [hnext] at ht
        rcases ht with ⟨hf, k', e, hg⟩ | ⟨hf, k', t, e, hp⟩
        · refine .inl ⟨fun h => ?_, i, k', hu, e, hg⟩
          exact absurd h.table (by simpa using hf)
        · exact .inr ⟨⟨⟨i, hu⟩, hfail, hf⟩, i, k', t, stack, hu, e, hp⟩

/-- The three ends of `proc_create`. -/
theorem createTail_cases (k : Kernel) (hfree : ∀ i, (k.procs i).used = false → k.current ≠ some i)
    (prio : Int) (fg : Bool) (name : CStr) :
    createTail k prio fg name = (k, -1) ∨ ∃ i, (k.procs i).used = false ∧
      ((∃ k', createTail k prio fg name = (k', -1) ∧ GivenBack k k' i) ∨
      ∃ k' t stack, createTail k prio fg name = installProc k' i t fg ∧
        Prepared k k' i prio fg name stack) := by
  rcases createTail_outcome k hfree prio fg name with ⟨-, h⟩ | ⟨-, i, k', hu, e, hg⟩ |
    ⟨-, i, k', t, stack, hu, e, hp⟩
  · exact .inl h
  · exact .inr ⟨i, hu, .inl ⟨k', e, hg⟩⟩
  · exact .inr ⟨i, hu, .inr ⟨k', t, stack, e, hp⟩⟩

lemma calm_fileRef (k : Kernel) (f : Nat) : Calm k (fileRef k f) :=
  calm_modifyFile k f _ fun _ => rfl

lemma calm_attachStd (k : Kernel) (t : Nat) (file : Option Nat) (fd : Fin fdMax) :
    Calm k (attachStd k t file fd) := by
  unfold attachStd
  split
  · exact .refl k
  · exact (calm_fileRef k _).trans (calm_setEntry _ t fd _)

lemma calm_fdTableAttachStd (k : Kernel) (t : Nat) : Calm k (fdTableAttachStd k t) :=
  ((calm_attachStd k t _ _).trans (calm_attachStd _ t _ _)).trans (calm_attachStd _ t _ _)

lemma calm_fdTableClone (k : Kernel) (dst src : Nat) : Calm k (fdTableClone k dst src) := by
  have h : ∀ (l : List (Fin fdMax)) (k : Kernel), Calm k (l.foldl (fdTableCloneStep dst src) k) := by
    intro l
    induction l with
    | nil => exact .refl
    | cons fd l ih =>
      intro k
      refine Calm.trans ?_ (ih _)
      unfold fdTableCloneStep
      split
      · exact .refl k
      · exact (calm_fileRef k _).trans (calm_setEntry _ dst fd _)
  have h0 : Calm k { k with tables := update k.tables dst fun _ => none } :=
    calm_of_data rfl le_rfl rfl (fun _ h => h) fun _ => rfl
  exact h0.trans (h _ _)

/-- The files and the family of a new process. -/
def furnish (k : Kernel) (p : Slot) (t : Nat) : Kernel :=
  let k := k.modify p fun c => { c with fdTable := some t }
  match k.current with
  | some parent =>
    let k := match (k.procs parent).fdTable with
      | some src => fdTableClone k t src
      | none => fdTableAttachStd k t
    linkChild k parent p
  | none => fdTableAttachStd k t

lemma installProc_eq (k : Kernel) (p : Slot) (t : Nat) (fg : Bool) :
    installProc k p t fg =
      (if fg then ttySetForeground (schedEnqueue (furnish k p t) p)
          ((schedEnqueue (furnish k p t) p).procs p).pid
        else schedEnqueue (furnish k p t) p,
        ((if fg then ttySetForeground (schedEnqueue (furnish k p t) p)
          ((schedEnqueue (furnish k p t) p).procs p).pid
        else schedEnqueue (furnish k p t) p).procs p).pid) := rfl

/-- The files of a new process, before it is linked to its parent. -/
lemma foldl_procs {β : Type*} {f : Kernel → β → Kernel} (hf : ∀ k x, (f k x).procs = k.procs)
    (l : List β) (k : Kernel) : (l.foldl f k).procs = k.procs := by
  induction l generalizing k with
  | nil => rfl
  | cons x l ih => exact (ih _).trans (hf k x)

lemma attachStd_procs (k : Kernel) (t : Nat) (file : Option Nat) (fd : Fin fdMax) :
    (attachStd k t file fd).procs = k.procs := by
  cases file with
  | none => rfl
  | some f => rfl

lemma fdTableAttachStd_procs (k : Kernel) (t : Nat) : (fdTableAttachStd k t).procs = k.procs := by
  unfold fdTableAttachStd
  rw [attachStd_procs, attachStd_procs, attachStd_procs]

lemma fdTableClone_procs (k : Kernel) (dst src : Nat) :
    (fdTableClone k dst src).procs = k.procs := by
  unfold fdTableClone
  rw [foldl_procs]
  intro k fd
  unfold fdTableCloneStep
  split
  · rfl
  · rfl

lemma furnish_procs (k : Kernel) (p : Slot) (t : Nat) :
    (furnish k p t).procs = update k.procs p { k.procs p with fdTable := some t } := by
  unfold furnish
  dsimp only
  split
  · split
    · exact fdTableClone_procs _ _ _
    · exact fdTableAttachStd_procs _ _
  · exact fdTableAttachStd_procs _ _

lemma furnish_steps {k : Kernel} {p : Slot} (hn : (k.procs p).state = .new) (t : Nat) :
    ∃ k1, Calm k k1 ∧ KinWrite k1 (furnish k p t) ∧ (furnish k p t).procs = k1.procs := by
  have h0 : Calm k (k.modify p fun c => { c with fdTable := some t }) :=
    calm_modify k p _ rfl (fun _ => SameResults.refl _) (.inl rfl) rfl
  have hn0 : ((k.modify p fun c => { c with fdTable := some t }).procs p).state = .new := by
    simpa using hn
  unfold furnish
  generalize (k.modify p fun c => { c with fdTable := some t }) = k0 at h0 hn0 ⊢
  dsimp only
  split
  · rename_i parent _
    obtain ⟨k1, hk1⟩ : ∃ k1, k1 = match (k0.procs parent).fdTable with
      | some src => fdTableClone k0 t src
      | none => fdTableAttachStd k0 t := ⟨_, rfl⟩
    have h1 : Calm k0 k1 := by
      rw [hk1]
      split
      · exact calm_fdTableClone k0 t _
      · exact calm_fdTableAttachStd k0 t
    rw [← hk1]
    refine ⟨k1, h0.trans h1, ⟨rfl, fun _ => .inl rfl, fun c hc => ?_⟩, rfl⟩
    obtain ⟨q, hq⟩ := hc
    by_cases hcp : c = p
    · right
      rw [hcp, (h1.still.procs p id).state]
      exact hn0
    · left
      simp only [linkChild] at hq
      rcases hq with hq | hq
      · by_cases hqp : q = parent
        · subst hqp
          simp only [update_self, Option.some.injEq] at hq
          exact absurd hq.symm hcp
        · exact ⟨q, .inl (by simpa [hqp] using hq)⟩
      · by_cases hqp : q = p
        · subst hqp
          exact ⟨parent, .inl (by simpa using hq)⟩
        · exact ⟨q, .inr (by simpa [hqp] using hq)⟩
  · exact ⟨_, h0.trans (calm_fdTableAttachStd k0 t), .refl _, rfl⟩

/-- The new process is `READY`, and no other PCB changes. -/
lemma installProc_procs {k : Kernel} {p : Slot} (hn : (k.procs p).state = .new)
    (hon : ¬(k.schedulerEnabled = false ∧ k.current = none)) (t : Nat) (fg : Bool) :
    (installProc k p t fg).1.procs = update k.procs p { k.procs p with
      fdTable := some t, priority := clampPrio (k.procs p).priority, state := .ready
      ticksLeft := timeSliceTicks, agingTicks := 0 } := by
  obtain ⟨k1, h1, h2, -⟩ := furnish_steps hn t
  have hon' : ¬((furnish k p t).schedulerEnabled = false ∧ (furnish k p t).current = none) := by
    rw [h2.same]
    dsimp only
    rw [h1.still.queues.schedulerEnabled, h1.still.queues.current]
    exact hon
  have hp : (schedEnqueue (furnish k p t) p).procs = update k.procs p { k.procs p with
      fdTable := some t, priority := clampPrio (k.procs p).priority, state := .ready
      ticksLeft := timeSliceTicks, agingTicks := 0 } := by
    rw [schedEnqueue_procs p hon', furnish_procs]
    simp
  rw [installProc_eq]
  dsimp only
  split
  · exact hp
  · exact hp

lemma schedEnqueue_zombieHead (k : Kernel) (p : Slot) :
    (schedEnqueue k p).zombieHead = k.zombieHead ∧ (schedEnqueue k p).files = k.files := by
  by_cases hon : k.schedulerEnabled = false ∧ k.current = none
  · unfold schedEnqueue
    rw [if_pos hon]
    exact ⟨rfl, rfl⟩
  · have hw := schedEnqueue_write p hon
    exact ⟨(congrArg Kernel.zombieHead hw :), (congrArg Kernel.files hw :)⟩

/-- Nothing on the zombie list or among the files changes its place or type. -/
def SameHeads (k k' : Kernel) : Prop :=
  k'.zombieHead = k.zombieHead ∧ ∀ f, (k'.files f).ptr = (k.files f).ptr

lemma DraftWrite.sameHeads {i : Slot} {k k' : Kernel} (h : DraftWrite i k k') : SameHeads k k' := by
  have : k'.files = k.files := (congrArg Kernel.files h.same :)
  exact ⟨h.sameZombies_head, fun f => by rw [this]⟩

lemma act_givenBack (hs : s.fresh) {k k' : Kernel} {i : Slot} (hu : (k.procs i).used = false)
    (hc : k.current ≠ some i) (hi : k.idleProc ≠ some i) (h : GivenBack k k' i) : Act s k k' := by
  apply Act.draft i hs hu hc hi (h.write.off h.cleared.1 h.waiting) h.cleared.2 h.state
  · intro hx
    rw [h.used] at hx
    cases hx
  · exact fun _ => h.stack

lemma act_prepared (hs : s.fresh) {k k' : Kernel} {i : Slot} {prio : Int} {fg : Bool} {name : CStr}
    {stack : Nat} (hprio : PrioInRange prio) (hu : (k.procs i).used = false)
    (hc : k.current ≠ some i) (hi : k.idleProc ≠ some i)
    (h : Prepared k k' i prio fg name stack) : Act s k k' := by
  have hp := h.drafted.pcb
  apply Act.draft i hs hu hc hi (h.drafted.write.off h.drafted.cleared.1 (by rw [hp]; rfl))
    h.drafted.cleared.2 (by rw [hp]; rfl)
  · intro _
    rw [hp]
    refine ⟨rfl, hprio, rfl, stack, rfl, h.low, h.high, fun ha => ?_⟩
    rwa [StackFreed, ← h.freed]
  · intro hx
    rw [hp] at hx
    cases hx

/-- The end of `proc_create` as a sequence of actions. -/
lemma installProc_steps (hkin : s.kin) {k : Kernel} {i : Slot} (hn : (k.procs i).state = .new)
    (hu : (k.procs i).used) (hf : (k.procs i).kframe ≠ none) (hi : k.idleProc ≠ some i) (t : Nat)
    (fg : Bool) : Steps s k (installProc k i t fg).1 ∧ SameHeads k (installProc k i t fg).1 := by
  obtain ⟨k1, h1, h2, h3⟩ := furnish_steps hn t
  have hs1 := h1.still.procs i id
  rw [installProc_eq]
  generalize furnish k i t = k2 at h2 h3 ⊢
  have hidle : k2.idleProc = k.idleProc := by
    rw [show k2.idleProc = k1.idleProc from (congrArg Kernel.idleProc h2.same :)]
    exact h1.still.queues.idleProc
  have henter : Act s k2 (schedEnqueue k2 i) := by
    apply Act.enter i
    · rw [h3, hs1.used]
      exact hu
    · rw [h3, hs1.state]
      exact hn
    · rw [h3, hs1.kframe]
      exact hf
    · rw [hidle]
      exact hi
  have hz := schedEnqueue_zombieHead k2 i
  have hall : Steps s k (schedEnqueue k2 i) :=
    ((Relation.ReflTransGen.single (.still h1.still)).tail (h2.act hkin)).tail henter
  have hsame : SameHeads k (schedEnqueue k2 i) := by
    refine ⟨?_, fun f => ?_⟩
    · rw [hz.1, h2.grows.head, h1.zombies.head]
    · rw [hz.2, h2.grows.ptr f, h1.zombies.ptr f]
  dsimp only
  split
  · have hc := calm_ttySetForeground (schedEnqueue k2 i) ((schedEnqueue k2 i).procs i).pid
    exact ⟨hall.tail (.still hc.still), hsame⟩
  · exact ⟨hall, hsame⟩

/-- `proc_create` behind `collect_zombies` as a sequence of actions. -/
theorem createTail_steps (hkin : s.kin) (hs : s.fresh) {k : Kernel} {prio : Int}
    (hprio : PrioInRange prio)
    (hfree : ∀ i, (k.procs i).used = false → k.current ≠ some i ∧ k.idleProc ≠ some i) (fg : Bool)
    (name : CStr) : Steps s k (createTail k prio fg name).1 ∧
      SameHeads k (createTail k prio fg name).1 := by
  rcases createTail_cases k (fun i hi => (hfree i hi).1) prio fg name with
    h | ⟨i, hu, ⟨k', h, hg⟩ | ⟨k', t, stack, h, hp⟩⟩
  · rw [h]
    exact ⟨.refl, rfl, fun _ => rfl⟩
  · rw [h]
    obtain ⟨hc, hi⟩ := hfree i hu
    exact ⟨.single (act_givenBack hs hu hc hi hg), hg.write.sameHeads⟩
  · rw [h]
    obtain ⟨hc, hi⟩ := hfree i hu
    have hpcb := hp.drafted.pcb
    have hidle : k'.idleProc = k.idleProc := (congrArg Kernel.idleProc hp.drafted.write.same :)
    have hheads := hp.drafted.write.sameHeads
    obtain ⟨h1, h2⟩ := installProc_steps hkin (k := k') (i := i) (by rw [hpcb]; rfl)
      (by rw [hpcb]; rfl) (by rw [hpcb]; simp [newPcb]) (hidle ▸ hi) t fg
    refine ⟨(Relation.ReflTransGen.single (act_prepared hs hprio hu hc hi hp)).trans h1,
      h2.1.trans hheads.1, fun f => (h2.2 f).trans (hheads.2 f)⟩

end TP2Kernel.Proofs
