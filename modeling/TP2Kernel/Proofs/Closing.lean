import TP2Kernel.Proofs.Actions

/-!
# Closing files, releasing slots and waking

`collect_zombies` and `proc_unblock` call each other through the closing of pipes, so the
functions between them are followed with a property `J` of the zombie list that the
`unblock` argument keeps.
-/

namespace TP2Kernel
open Function LinkedList

/-- The zombie list, and what its walk reads of the processes and files. -/
structure SameZombies (k k' : Kernel) : Prop where
  cleanup : k'.cleanupNext = k.cleanupNext
  head : k'.zombieHead = k.zombieHead
  exited : ∀ p, (k'.procs p).state = .exited ↔ (k.procs p).state = .exited
  reapable : ∀ p, reapable (k'.procs p) = reapable (k.procs p)
  ptr : ∀ f, (k'.files f).ptr = (k.files f).ptr

lemma SameZombies.refl (k : Kernel) : SameZombies k k :=
  ⟨rfl, rfl, fun _ => .rfl, fun _ => rfl, fun _ => rfl⟩

lemma SameZombies.trans {k k' k'' : Kernel} (h : SameZombies k k') (h' : SameZombies k' k'') :
    SameZombies k k'' :=
  ⟨h'.cleanup.trans h.cleanup, h'.head.trans h.head, fun p => (h'.exited p).trans (h.exited p),
    fun p => (h'.reapable p).trans (h.reapable p), fun f => (h'.ptr f).trans (h.ptr f)⟩

/-- A write that neither another process nor the zombie list notices. -/
structure Calm (k k' : Kernel) : Prop where
  still : Still k k'
  zombies : SameZombies k k'

lemma Calm.refl (k : Kernel) : Calm k k := ⟨Off.refl _ k, .refl k⟩

lemma Calm.trans {k k' k'' : Kernel} (h : Calm k k') (h' : Calm k' k'') : Calm k k'' :=
  ⟨h.still.trans h'.still, h.zombies.trans h'.zombies⟩

/-- A property that only depends on the zombie list. -/
def OfZombies (J : Kernel → Prop) : Prop := ∀ k k', SameZombies k k' → J k → J k'

/-- From `k` to `k'` by actions in scope, and `J` is kept. -/
def Goes (J : Kernel → Prop) (s : Scope) (k k' : Kernel) : Prop := J k → Steps s k k' ∧ J k'

section Goes

variable {J : Kernel → Prop} {s : Scope} {k k' k'' : Kernel}

lemma Goes.refl (J : Kernel → Prop) (s : Scope) (k : Kernel) : Goes J s k k := fun h => ⟨.refl, h⟩

lemma Goes.trans (h : Goes J s k k') (h' : Goes J s k' k'') : Goes J s k k'' := by
  intro hk
  obtain ⟨h1, hk1⟩ := h hk
  obtain ⟨h2, hk2⟩ := h' hk1
  exact ⟨.trans h1 h2, hk2⟩

lemma Goes.thenIf {c : Prop} [Decidable c] (h : Goes J s k k') (h' : Goes J s k' k'') :
    Goes J s k (if c then k'' else k') := by
  split
  · exact h.trans h'
  · exact h

lemma Goes.act (ha : Act s k k') (hJ : J k → J k') : Goes J s k k' := fun h =>
  ⟨.single ha, hJ h⟩

lemma Calm.goes (hJ : OfZombies J) (h : Calm k k') : Goes J s k k' :=
  .act (.still h.still) (hJ _ _ h.zombies)

end Goes

namespace Proofs

/-- Heap, files, tables, pipes and terminal may change; the PCBs do not. -/
lemma calm_of_data {k k' : Kernel}
    (h : k' = { k with
      heap := k'.heap, files := k'.files, tables := k'.tables, stdinFile := k'.stdinFile
      stdoutFile := k'.stdoutFile, stderrFile := k'.stderrFile, pipes := k'.pipes
      pipeBuckets := k'.pipeBuckets, tty := k'.tty })
    (hn : k.heap.next ≤ k'.heap.next) (hf : k'.heap.fails = k.heap.fails)
    (hst : ∀ a, StackFreed k' a → StackFreed k a) (hp : ∀ f, (k'.files f).ptr = (k.files f).ptr) :
    Calm k k' := by
  have hprocs : k'.procs = k.procs := (congrArg Kernel.procs h :)
  refine ⟨⟨?_, fun p _ => ?_, fun p _ => ?_, fun p _ _ => ?_, fun p => ?_, hn, hf,
    fun a ha => .inl (hst a ha)⟩, ?_, ?_, fun p => ?_, fun p => ?_, hp⟩
  · unfold SameQueues
    rw [h]
  · rw [hprocs]
    exact SameSched.refl _
  · rw [h]
    exact ⟨rfl, rfl⟩
  · rw [hprocs]
    exact SameResults.refl _
  · rw [hprocs]
    exact .inl rfl
  · exact (congrArg Kernel.cleanupNext h :)
  · exact (congrArg Kernel.zombieHead h :)
  · rw [hprocs]
  · rw [hprocs]

lemma stackFreed_mmFree {k : Kernel} {b : Block} (hb : b.kind ≠ .stack) (a : Nat)
    (h : StackFreed (k.mmFree b) a) : StackFreed k a := by
  simp only [StackFreed, Kernel.mmFree, List.mem_append, List.mem_singleton] at h ⊢
  rcases h with h | h
  · exact h
  · rw [← h] at hb
    exact absurd rfl hb

lemma calm_mmFree (k : Kernel) {b : Block} (hb : b.kind ≠ .stack) : Calm k (k.mmFree b) :=
  calm_of_data rfl le_rfl rfl (stackFreed_mmFree hb) fun _ => rfl

lemma calm_mmFrees (k : Kernel) (bs : List Block) (hb : ∀ b ∈ bs, b.kind ≠ .stack) :
    Calm k (bs.foldl Kernel.mmFree k) := by
  induction bs generalizing k with
  | nil => exact .refl k
  | cons b bs ih =>
    exact (calm_mmFree k (hb b (by simp))).trans (ih _ fun b' hb' => hb b' (by simp [hb']))

lemma calm_mmMalloc (k : Kernel) : Calm k k.mmMalloc.1 :=
  calm_of_data rfl (Nat.le_succ _) rfl (fun _ h => h) fun _ => rfl

lemma calm_modifyPipe (k : Kernel) (p : Nat) (f : Kpipe → Kpipe) : Calm k (k.modifyPipe p f) :=
  calm_of_data rfl le_rfl rfl (fun _ h => h) fun _ => rfl

lemma calm_modifyFile (k : Kernel) (f : Nat) (g : File → File) (hg : ∀ c, (g c).ptr = c.ptr) :
    Calm k (k.modifyFile f g) := by
  refine calm_of_data rfl le_rfl rfl (fun _ h => h) fun x => ?_
  simp only [Kernel.modifyFile, update_apply]
  split
  · subst_vars
    exact hg _
  · rfl

lemma calm_setEntry (k : Kernel) (t : Nat) (fd : Fin fdMax) (e : Option Nat) :
    Calm k (k.setEntry t fd e) :=
  calm_of_data rfl le_rfl rfl (fun _ h => h) fun _ => rfl

/-- A write to one PCB that the scheduler, the parent and the zombie list do not read. -/
lemma calm_modify (k : Kernel) (p : Slot) (f : Pcb → Pcb)
    (hs : SameSched (k.procs p) (f (k.procs p)))
    (hr : (k.procs p).state ≠ .exited → SameResults (k.procs p) (f (k.procs p)))
    (hw : (f (k.procs p)).waitingFor = (k.procs p).waitingFor ∨ (f (k.procs p)).waitingFor = 0)
    (hz : (f (k.procs p)).zombieReapable = (k.procs p).zombieReapable) : Calm k (k.modify p f) := by
  have hp : ∀ x, SameSched (k.procs x) ((k.modify p f).procs x) := by
    intro x
    rw [Kernel.modify_procs]
    split
    · subst_vars
      exact hs
    · exact SameSched.refl _
  refine ⟨⟨rfl, fun x _ => hp x, fun _ _ => ⟨rfl, rfl⟩, fun x _ he => ?_, fun x => ?_, le_rfl, rfl,
    fun _ h => .inl h⟩, rfl, rfl, fun x => ?_, fun x => ?_, fun _ => rfl⟩
  · rw [Kernel.modify_procs]
    split
    · subst_vars
      exact hr he
    · exact SameResults.refl _
  · rw [Kernel.modify_procs]
    split
    · subst_vars
      exact hw
    · exact .inl rfl
  · rw [(hp x).state]
  · rw [reapable, (hp x).parentPid, reapable]
    congr 1
    rw [Kernel.modify_procs]
    split
    · subst_vars
      exact hz
    · rfl

section Closing

variable {J : Kernel → Prop} {s : Scope} {unblock : Kernel → Int → Kernel}

lemma goes_drainReaders (hJ : OfZombies J) (hu : ∀ k pid, Goes J s k (unblock k pid)) (p n : Nat)
    (k : Kernel) : Goes J s k (drainReaders unblock p n k) := by
  induction n generalizing k with
  | zero => exact .refl J s k
  | succ n ih =>
    rw [drainReaders]
    split
    · exact .refl J s k
    · rename_i c w _
      exact ((((calm_modifyPipe k p fun _ => c).trans (calm_mmFree _ (by simp))).goes hJ).trans
        (hu _ _)).trans (ih _)

lemma goes_drainWriters (hJ : OfZombies J) (hu : ∀ k pid, Goes J s k (unblock k pid)) (p n : Nat)
    (k : Kernel) : Goes J s k (drainWriters unblock p n k) := by
  induction n generalizing k with
  | zero => exact .refl J s k
  | succ n ih =>
    rw [drainWriters]
    split
    · exact .refl J s k
    · rename_i c w _
      exact ((((calm_modifyPipe k p fun _ => c).trans (calm_mmFree _ (by simp))).goes hJ).trans
        (hu _ _)).trans (ih _)

lemma calm_pipeFree (k : Kernel) (p : Nat) : Calm k (pipeFree k p) := by
  refine (calm_mmFrees k _ fun b hb => ?_).trans (calm_mmFree _ (by simp))
  obtain ⟨w, -, rfl⟩ := List.mem_map.mp hb
  simp

lemma goes_kpipeClose (hJ : OfZombies J) (hu : ∀ k pid, Goes J s k (unblock k pid)) (k : Kernel)
    (p : Nat) (rd wr : Bool) : Goes J s k (kpipeClose unblock k p rd wr) := by
  unfold kpipeClose
  have h0 := ((calm_modifyPipe k p fun c => pipeDropUser c rd wr).goes (s := s) hJ)
  exact ((h0.thenIf (goes_drainReaders hJ hu p _ _)).thenIf (goes_drainWriters hJ hu p _ _)).thenIf
    ((calm_pipeFree _ p).goes hJ)

/-- Either no file is a pipe, so that nothing is woken, or waking is in scope. -/
def CloseOk (J : Kernel → Prop) (s : Scope) (unblock : Kernel → Int → Kernel) : Prop :=
  (∀ k, J k → ∀ f, (k.files f).ptr = .tty) ∨ ∀ k pid, Goes J s k (unblock k pid)

variable (hJ : OfZombies J) (hu : CloseOk J s unblock)

include hJ hu

lemma goes_fileClose (k : Kernel) (f : Nat) : Goes J s k (fileClose unblock k f) := by
  unfold fileClose
  split
  · exact .refl J s k
  · rename_i p hp
    rcases hu with ht | hu
    · intro hk
      rw [ht k hk f] at hp
      cases hp
    · exact goes_kpipeClose hJ hu k p _ _

lemma goes_fileRelease (k : Kernel) (f : Nat) : Goes J s k (fileRelease unblock k f) := by
  unfold fileRelease
  dsimp only
  have h0 : Goes J s k (k.modifyFile f fun c => { c with refcount := c.refcount - 1 }) :=
    (calm_modifyFile k f (fun c => { c with refcount := c.refcount - 1 }) fun _ => rfl).goes hJ
  refine h0.trans ?_
  split
  · exact .refl J s _
  · exact (goes_fileClose hJ hu _ f).trans ((calm_mmFree _ (by simp)).goes hJ)

lemma goes_fdTableDestroyStep (t : Nat) (k : Kernel) (fd : Fin fdMax) :
    Goes J s k (fdTableDestroyStep unblock t k fd) := by
  unfold fdTableDestroyStep
  split
  · exact .refl J s k
  · exact (goes_fileRelease hJ hu k _).trans ((calm_setEntry _ t fd none).goes hJ)

lemma goes_fdTableDestroy (k : Kernel) (t : Nat) : Goes J s k (fdTableDestroy unblock k t) := by
  have h : ∀ (l : List (Fin fdMax)) (k : Kernel),
      Goes J s k (l.foldl (fdTableDestroyStep unblock t) k) := by
    intro l
    induction l with
    | nil => exact fun k => .refl J s k
    | cons fd l ih => exact fun k => (goes_fdTableDestroyStep hJ hu t k fd).trans (ih _)
  exact (h _ k).trans ((calm_mmFree _ (by simp)).goes hJ)

end Closing

lemma calm_cleanupWaitResults (k : Kernel) (p : Slot) (he : (k.procs p).state = .exited) :
    Calm k (cleanupWaitResults k p) := by
  unfold cleanupWaitResults
  have h := calm_mmFrees k ((k.procs p).waitRes.map fun r => (⟨.waitResult, r.node⟩ : Block))
    fun b hb => by
      obtain ⟨r, -, rfl⟩ := List.mem_map.mp hb
      simp
  refine h.trans (calm_modify _ _ _ rfl (fun hn => ?_) (.inl rfl) rfl)
  exact absurd ((h.zombies.exited p).mpr he) hn

lemma sameZombies_modify (k : Kernel) (p : Slot) (f : Pcb → Pcb)
    (he : (f (k.procs p)).state = .exited ↔ (k.procs p).state = .exited)
    (hz : reapable (f (k.procs p)) = reapable (k.procs p)) : SameZombies k (k.modify p f) := by
  refine ⟨rfl, rfl, fun x => ?_, fun x => ?_, fun _ => rfl⟩ <;>
    rw [Kernel.modify_procs] <;> split <;> subst_vars
  · exact he
  · rfl
  · exact hz
  · rfl

lemma sameZombies_mmFree (k : Kernel) (b : Block) : SameZombies k (k.mmFree b) :=
  ⟨rfl, rfl, fun _ => .rfl, fun _ => rfl, fun _ => rfl⟩

/-- Freeing the stack of a terminated process. -/
lemma steps_freeKstack (s : Scope) (k : Kernel) (p : Slot) (he : (k.procs p).state = .exited) :
    Steps s k (freeKstack k p) ∧ SameZombies k (freeKstack k p) := by
  unfold freeKstack
  split
  · rename_i a ha
    refine ⟨.single (.reap p he ⟨rfl, fun x hx => ?_, fun _ _ => ⟨rfl, rfl⟩, fun x hx _ => ?_,
      fun x => ?_, le_rfl, rfl, fun b hb => ?_⟩ ?_ ?_ ⟨.inl rfl, .inl rfl⟩ ?_), ?_⟩
    · rw [Kernel.modify_procs_of_ne _ _ hx]
      exact SameSched.refl _
    · rw [Kernel.modify_procs_of_ne _ _ hx]
      exact SameResults.refl _
    · rw [Kernel.modify_procs]
      split
      · subst_vars
        exact .inl rfl
      · exact .inl rfl
    · have hb' : StackFreed (k.mmFree ⟨.stack, a⟩) b := hb
      simp only [StackFreed, Kernel.mmFree, List.mem_append, List.mem_singleton, Block.mk.injEq,
        true_and] at hb'
      rcases hb' with hb' | rfl
      · exact .inl hb'
      · exact .inr (.inr ⟨p, rfl, ha⟩)
    · rw [Kernel.modify_procs_self]
      rfl
    · rw [Kernel.modify_procs_self]
      exact id
    · rw [Kernel.modify_procs_self]
      exact .inl rfl
    · exact (sameZombies_mmFree k _).trans (sameZombies_modify _ _ _ .rfl rfl)
  · exact ⟨.refl, .refl k⟩

/-- The end of `release_slot`. -/
def freeSlot (k : Kernel) (p : Slot) : Kernel :=
  { k.modify p fun c => { c with pendingExitValid := false, used := false } with
    childHead := update k.childHead p none
    siblingNext := update k.siblingNext p none }

lemma act_freeSlot (s : Scope) (k : Kernel) (p : Slot) (he : (k.procs p).state = .exited) :
    Act s k (freeSlot k p) := by
  have hoff : ∀ x, x ≠ p → (freeSlot k p).procs x = k.procs x := fun x hx => by
    simp [freeSlot, Kernel.modify, hx]
  have hself : (freeSlot k p).procs p =
      { k.procs p with pendingExitValid := false, used := false } := by
    simp [freeSlot, Kernel.modify]
  refine .reap p he ⟨rfl, fun x hx => ?_, fun x hx => ?_, fun x hx _ => ?_, fun x => ?_, le_rfl, rfl,
    fun _ hb => .inl hb⟩ ?_ ?_ ⟨.inr (update_self _ _ _), .inr (update_self _ _ _)⟩ ?_
  · rw [hoff x hx]
    exact SameSched.refl _
  · exact ⟨update_of_ne hx _ _, update_of_ne hx _ _⟩
  · rw [hoff x hx]
    exact SameResults.refl _
  · by_cases hx : x = p
    · rw [hx, hself]
      exact .inl rfl
    · rw [hoff x hx]
      exact .inl rfl
  · rw [hself]
    rfl
  · rw [hself]
    simp
  · rw [hself]
    exact .inr ⟨rfl, fun _ h => h⟩

/-- The descriptor table of a terminated process is destroyed. -/
def dropTable (unblock : Kernel → Int → Kernel) (k : Kernel) (p : Slot) : Kernel :=
  match (k.procs p).fdTable with
  | some t => (fdTableDestroy unblock k t).modify p fun c => { c with fdTable := none }
  | none => k

lemma goes_dropTable {J : Kernel → Prop} {s : Scope} {unblock : Kernel → Int → Kernel}
    (hJ : OfZombies J) (hu : CloseOk J s unblock) (k : Kernel) (p : Slot) :
    Goes J s k (dropTable unblock k p) := by
  unfold dropTable
  split
  · rename_i t _
    exact (goes_fdTableDestroy hJ hu k t).trans
      ((calm_modify _ p (fun c => { c with fdTable := none }) rfl (fun _ => SameResults.refl _)
        (.inl rfl) rfl).goes hJ)
  · exact .refl _ s k

/-- `release_slot` up to the point where the slot is marked unused. -/
lemma releaseSlot_eq {J : Kernel → Prop} {s : Scope} {unblock : Kernel → Int → Kernel}
    (hJ : OfZombies J) (hu : CloseOk J s unblock) {p : Slot}
    (he : ∀ k, J k → (k.procs p).state = .exited) {k : Kernel} (hk : J k) :
    ∃ k1, Steps s k k1 ∧ J k1 ∧ releaseSlot unblock k p = freeSlot k1 p := by
  obtain ⟨h0, hk0⟩ := goes_dropTable hJ hu k p hk
  obtain ⟨h1, hk1⟩ := (calm_cleanupWaitResults (dropTable unblock k p) p (he _ hk0)).goes
    (s := s) hJ hk0
  exact ⟨_, h0.trans h1, hk1, rfl⟩

lemma procByPid_some {k : Kernel} {pid : Int} {p : Slot} (h : procByPid k pid = some p) :
    0 < pid ∧ (k.procs p).used ∧ (k.procs p).pid = pid := by
  unfold procByPid at h
  split at h
  · cases h
  · have := List.find?_some h
    simp only [Bool.and_eq_true, decide_eq_true_eq] at this
    exact ⟨by omega, this⟩

lemma schedEnqueue_sameZombies {k : Kernel} {p : Slot} (he : (k.procs p).state ≠ .exited) :
    SameZombies k (schedEnqueue k p) := by
  by_cases hon : k.schedulerEnabled = false ∧ k.current = none
  · unfold schedEnqueue
    rw [if_pos hon]
    have h0 : SameZombies k (k.modify p fun c =>
        { c with state := .running, ticksLeft := timeSliceTicks }) :=
      sameZombies_modify _ _ _ (by simp [he]) rfl
    exact h0.trans ⟨rfl, rfl, fun _ => .rfl, fun _ => rfl, fun _ => rfl⟩
  · have hw := schedEnqueue_write p hon
    have hp := schedEnqueue_procs p hon
    refine ⟨(congrArg Kernel.cleanupNext hw :), (congrArg Kernel.zombieHead hw :), fun x => ?_,
      fun x => ?_, fun f => ?_⟩
    · rw [hp]
      by_cases hx : x = p
      · subst hx
        simpa using he
      · rw [update_of_ne hx]
    · rw [hp]
      by_cases hx : x = p
      · subst hx
        simp [reapable]
      · rw [update_of_ne hx]
    · have hf : (schedEnqueue k p).files = k.files := (congrArg Kernel.files hw :)
      rw [hf]

/-- `proc_unblock` behind its `collect_zombies`: nothing, or one blocked process wakes. -/
lemma goes_unblockTarget {J : Kernel → Prop} {s : Scope} (hJ : OfZombies J) (k : Kernel) (pid : Int)
    (hw : ∀ p, procByPid k pid = some p → s.woken p) : Goes J s k (unblockTarget k pid).1 := by
  unfold unblockTarget
  split
  · exact .refl J s k
  · rename_i p hp
    split
    · exact .refl J s k
    · split
      · rename_i hb
        refine .act (.wake p (hw p hp) (procByPid_some hp).2.1 hb) (hJ _ _ ?_)
        refine (sameZombies_modify k p _ (by simp [hb]) rfl).trans
          (schedEnqueue_sameZombies ?_)
        simp
      · exact .refl J s k

end Proofs

end TP2Kernel
