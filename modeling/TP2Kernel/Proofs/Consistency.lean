import TP2Kernel.System
import TP2Kernel.Proofs.Operations
import TP2Kernel.Proofs.Selection

/-!
# The operations keep the ready queues consistent

The operations that the current process or an interrupt performs on the process table,
as one type, and the theorem that each of them keeps the ready queues consistent. The
operations rely on four facts beyond the queues themselves, and for each of them there is
a state in which only that fact fails and an operation breaks the queues.
-/

namespace TP2Kernel
open Function LinkedList

/-- `z` is reached from the head of the zombie list. -/
inductive OnZombieList (k : Kernel) : Slot → Prop
  | head {z : Slot} (h : k.zombieHead = some z) : OnZombieList k z
  | next {p z : Slot} (hp : OnZombieList k p) (h : k.cleanupNext p = some z) : OnZombieList k z

/-- The operations of `proc.c` and `sched.c` on the process table, with their arguments. -/
inductive Operation
  | create (entry : Option Nat) (prio : Int) (fg : Bool) (name : Option CStr)
  | block (pid : Int)
  | unblock (pid : Int)
  | nice (pid newPrio : Int)
  | kill (pid : Int)
  | exit (code : Int)
  | wait (targetPid : Int)
  | schedule (curRsp : Frame)

namespace Operation

/-- The kernel behind an operation that runs on the kernel stack of `exec`. -/
def run (k : Kernel) (exec : Slot) : Operation → Kernel
  | create entry prio fg name => (procCreate k entry prio fg name).1
  | block pid => (procBlock k exec pid).1
  | unblock pid => (procUnblock k pid).1
  | nice pid newPrio => (procNice k exec pid newPrio).1
  | kill pid => (procKill k exec pid).1
  | exit code => (procExit k exec code).1
  | wait targetPid => (procWait k exec targetPid).1
  | schedule curRsp => (TP2Kernel.schedule k curRsp).1

/-- The operations that interrupt handlers perform: the timer calls `schedule`, the keyboard
kills the foreground process and wakes readers of the terminal. -/
def byInterrupt : Operation → Bool
  | schedule _ | kill _ | unblock _ => true
  | _ => false

end Operation

namespace Proofs

variable {s : Scope} {k k' : Kernel} {exec : Slot}

/-- The current process is running or has been terminated. -/
def CurrentOff (k : Kernel) : Prop := ∀ c, k.current = some c →
  ((k.procs c).used ∧ (k.procs c).state = .running) ∨ (k.procs c).state = .exited

lemma CurrentOff.used (h : CurrentOff k) (c : Slot) (hc : k.current = some c)
    (hr : (k.procs c).state = .running) : (k.procs c).used := by
  rcases h c hc with ⟨hu, -⟩ | he
  · exact hu
  · simp [hr] at he

lemma act_currentOff (hs : Sound k) (ha : Act s k k') (h : CurrentOff k) : CurrentOff k' := by
  intro c hc
  have hck : k.current = some c := by
    rcases act_current hs ha with e | ⟨e, -⟩
    · exact e ▸ hc
    · simp [e] at hc
  have hoff := h c hck
  cases act_fate hs ha c with
  | same hp e =>
    rw [hp.2.1, e]
    exact hoff
  | woken _ _ _ hb => simp [hb] at hoff
  | retired _ _ _ e => exact .inr e
  | reaped _ e => exact .inr e
  | drafted _ _ hn => exact absurd hck hn
  | entered _ _ hn => simp [hn] at hoff
  | suspended _ _ hn => exact absurd hck hn

lemma steps_currentOff (hs : Sound k) (h : Steps s k k') (hc : CurrentOff k) : CurrentOff k' := by
  induction h with
  | refl => exact hc
  | tail h' ha ih => exact act_currentOff (steps_sound hs h') ha ih

/-- A process outside the queues changes without becoming `READY`. -/
lemma consistent_modify (h : Consistent k) {p : Slot} (hp : (k.procs p).state ≠ .ready) {f : Pcb → Pcb}
    (hf : (f (k.procs p)).state ≠ .ready) (hu : (f (k.procs p)).used = (k.procs p).used)
    (hr : (f (k.procs p)).priority = (k.procs p).priority ∧
      (f (k.procs p)).basePriority = (k.procs p).basePriority) : Consistent (k.modify p f) := by
  obtain ⟨q, hq⟩ := h
  have hno : ∀ l, p ∉ q l := fun l hl => hp ((hq.ready p).mp ⟨l, hl⟩).2.2
  have hne : ∀ {l x}, x ∈ q l → x ≠ p := fun hx he => hno _ (he ▸ hx)
  refine ⟨q, hq.queues.of_eq rfl rfl rfl, fun x => ?_, fun l x hx => ?_, hq.notIdle, fun x hx => ?_,
    fun l x hx => ?_⟩
  · rw [hq.ready, Kernel.modify_procs]
    by_cases hx : x = p
    · subst hx
      simp [hp, hf]
    · simp [hx]
  · rw [Kernel.modify_procs_of_ne _ _ (hne hx)]
    exact hq.place l x hx
  · by_cases he : x = p
    · subst he
      rw [Kernel.modify_procs_self] at hx ⊢
      rw [hr.1, hr.2]
      exact hq.range x (hu ▸ hx)
    · rw [Kernel.modify_procs_of_ne _ _ he] at hx ⊢
      exact hq.range x hx
  · rw [Kernel.modify_procs_of_ne _ _ (hne hx)]
    exact hq.frame l x hx

lemma leaves_consistent {k1 : Kernel} (h : Consistent k) (hc : CurrentOff k) (hl : Leaves k k1) :
    Consistent k1 ∧ ∀ c, k1.current = some c → (k1.procs c).state = .running →
      (k1.procs c).used := by
  cases hl with
  | yields => exact ⟨h, hc.used⟩
  | blocks w hcur =>
    rename_i cur
    have hp : (k.procs cur).state ≠ .ready := by
      intro hr
      have := hc cur hcur
      simp [hr] at this
    refine ⟨consistent_modify h hp (by simp) rfl ⟨rfl, rfl⟩, fun c hc' hr => ?_⟩
    have he : c = cur := by
      have hcc : k.current = some c := hc'
      rw [hcur, Option.some.injEq] at hcc
      exact hcc.symm
    rw [he, Kernel.modify_procs_self] at hr
    simp at hr

/-- The running process, made `READY` and taken off the queues, on which it is not. -/
lemma queuedOff_demote {q : Fin maxPrios → List Slot} {p : Slot} {prio : Int}
    (h : QueuedOff (fun _ => False) k q) (hr : (k.procs p).state = .running)
    (hprio : PrioInRange prio) : QueuedOff (· = p)
      ((schedRemove (k.modify p fun c => { c with state := .ready }) p).modify p fun c =>
        { c with priority := prio }) q := by
  have hno : ∀ l, p ∉ q l := by
    intro l hl
    have := ((h.ready p).mp ⟨l, hl⟩).2.2
    simp [hr] at this
  have hne : ∀ {l x}, x ∈ q l → x ≠ p := fun hx he => hno _ (he ▸ hx)
  have hw := schedRemove_write (k.modify p fun c => { c with state := .ready }) p
  have hp := schedRemove_procs (k.modify p fun c => { c with state := .ready }) p
  have hi : (schedRemove (k.modify p fun c => { c with state := .ready }) p).idleProc = k.idleProc :=
    (congrArg Kernel.idleProc hw :)
  have hq : ReadyQueues (schedRemove (k.modify p fun c => { c with state := .ready }) p) q := by
    rw [schedRemove_eq, if_pos (by rw [Kernel.modify_procs_self])]
    apply qRemove_notMem _ hno
    rw [clearCurrent_write]
    exact h.queues.of_eq rfl rfl rfl
  generalize schedRemove (k.modify p fun c => { c with state := .ready }) p = k1 at hq hp hi
  refine ⟨hq.of_eq rfl rfl rfl, fun x => ?_, fun l x hx => ?_, fun i he => ?_, fun x hx => ?_,
    fun l x hx => ?_⟩
  · rw [h.ready]
    by_cases hx : x = p
    · simp [hx, hr]
    · simp [hx, Kernel.modify_procs, hp]
  · simp only [Kernel.modify_procs, hp, if_neg (hne hx)]
    exact h.place l x hx
  · exact h.notIdle i (hi ▸ he)
  · by_cases he : x = p
    · subst he
      simp only [Kernel.modify_procs, hp, if_true] at hx ⊢
      exact ⟨hprio, (h.range x hx).2⟩
    · simp only [Kernel.modify_procs, hp, if_neg he] at hx ⊢
      exact h.range x hx
  · simp only [Kernel.modify_procs, hp, if_neg (hne hx)]
    exact h.frame l x hx

/-- `proc_nice` on the running process puts it on the queue of its new priority. -/
lemma demoted_consistent {p : Slot} {prio : Int} (hs : Sound k) (hprio : PrioInRange prio)
    (hc : k.current = some p) (hu : (k.procs p).used) (hr : (k.procs p).state = .running)
    (hi : k.idleProc ≠ some p) : Consistent (demoted k p prio) ∧
      ∀ c, (demoted k p prio).current = some c → ((demoted k p prio).procs c).state = .running →
        ((demoted k p prio).procs c).used := by
  obtain ⟨q, hq⟩ := hs.consistent
  have h := queuedOff_demote hq hr hprio
  have hw := schedRemove_write (k.modify p fun c => { c with state := .ready }) p
  have hp := schedRemove_procs (k.modify p fun c => { c with state := .ready }) p
  have hcur := schedRemove_current (k.modify p fun c => { c with state := .ready }) p
  have hidle : (schedRemove (k.modify p fun c => { c with state := .ready }) p).idleProc =
      k.idleProc := (congrArg Kernel.idleProc hw :)
  unfold demoted
  generalize schedRemove (k.modify p fun c => { c with state := .ready }) p = k1 at *
  have hcur1 : k1.current = none := by
    rw [hcur]
    exact if_pos hc
  have hself : (k1.modify p fun c => { c with priority := prio }).procs p =
      { k.procs p with state := .ready, priority := prio } := by
    rw [Kernel.modify_procs_self, hp, Kernel.modify_procs_self]
  obtain ⟨k2, hk2⟩ : ∃ k2, k2 = k1.modify p fun c => { c with priority := prio } := ⟨_, rfl⟩
  rw [← hk2] at h hself ⊢
  have hcur2 : k2.current = none := hk2 ▸ hcur1
  have hidle2 : k2.idleProc = k.idleProc := hk2 ▸ hidle
  have hf2 : (k2.procs p).kframe ≠ none := by
    rw [hself]
    exact hs.frame p ⟨hu, by simp [hr]⟩
  by_cases he : k2.schedulerEnabled = false
  · -- without a scheduler the process stays the running one
    have hen : schedEnqueue k2 p = { k2.modify p fun c =>
        { c with state := .running, ticksLeft := timeSliceTicks } with current := some p } := by
      unfold schedEnqueue
      rw [if_pos ⟨he, hcur2⟩]
    rw [hen]
    have hoff := off_modify k2 p (fun c =>
      { c with state := .running, ticksLeft := timeSliceTicks }) (.inl rfl)
    have h3 := h.off hoff fun x hx hxu => by
      subst hx
      rw [Kernel.modify_procs_self] at hxu ⊢
      exact h.range x hxu
    have h4 := h3.settle (by rw [Kernel.modify_procs_self]; simp)
    refine ⟨⟨q, h4.of_eq rfl rfl rfl rfl rfl⟩, fun c hc' _ => ?_⟩
    have hcp : c = p := by simpa using hc'.symm
    subst hcp
    simp [hself, hu]
  · have hon : ¬(k2.schedulerEnabled = false ∧ k2.current = none) := fun h => he h.1
    have hw3 := schedEnqueue_write p hon
    refine ⟨queuedOff_schedEnqueue h (by simp [hself, hu]) hf2 (hidle2 ▸ hi) hon, fun c hc' => ?_⟩
    rw [show (schedEnqueue k2 p).current = k2.current from (congrArg Kernel.current hw3 :),
      hcur2] at hc'
    cases hc'

/-- However a call ends, it leaves consistent queues. -/
theorem ends_consistent {Q : Kernel → Prop} {r : Kernel × Outcome} (hs : Sound k)
    (hc : CurrentOff k) (h : Ends Q s k exec r) : Consistent r.1 := by
  cases h with
  | back h1 _ _ => exact (steps_sound hs h1).consistent
  | leave pc h1 _ hl =>
    obtain ⟨h2, hu⟩ := leaves_consistent (steps_sound hs h1).consistent
      (steps_currentOff hs h1 hc) hl
    exact schedForceYield_consistent _ h2 hu
  | demote _ h1 _ hp hcur hr hi =>
    have hu := (steps_currentOff hs h1 hc).used _ hcur hr
    obtain ⟨h2, hu2⟩ := demoted_consistent (steps_sound hs h1) hp hcur hu hr hi
    exact schedForceYield_consistent _ h2 hu2

/-- The scope that allows everything. -/
def anything : Scope where
  woken _ := True
  terminated _ := True
  noted _ := True
  moved _ := True
  kin := True
  sems := True
  fresh := True
  demotes := True

/-- Every operation that the running process or an interrupt performs keeps the ready queues
consistent, if every live process has a saved frame, the idle process is neither blocked nor
terminated, and only terminated processes are on the zombie list. -/
theorem operation_consistent {k : Kernel} {c exec : Slot} (op : Operation) (h : Consistent k)
    (hc : k.current = some c) (hu : (k.procs c).used) (hr : (k.procs c).state = .running)
    (hop : op.byInterrupt = true ∨ k.idleProc ≠ some c)
    (hf : ∀ p, Live k p → (k.procs p).kframe ≠ none)
    (hi : ∀ i, k.idleProc = some i → Live k i ∧ (k.procs i).state ≠ .blocked)
    (hz : ∀ z, OnZombieList k z → (k.procs z).state = .exited) : Consistent (op.run k exec) := by
  have hs : Sound k := ⟨h, hf, fun i he => (hi i he).2, .inr ⟨c, hc, .inl ⟨hu, hr⟩⟩⟩
  have hoff : CurrentOff k := by
    intro c' hc'
    rw [hc, Option.some.injEq] at hc'
    subst hc'
    exact .inl ⟨hu, hr⟩
  have hx : ∀ d, k.current = some d → Executing k d := by
    intro d hd
    have he := hd
    rw [hc, Option.some.injEq] at he
    subst he
    exact ⟨hd, hu, hr⟩
  have hJ := sealed_rule anything
  have hk : Sealed anything .idle k := by
    refine ⟨OnZombieList k, ⟨fun _ hd => hd.elim, fun _ hd => hd.elim, .inr fun _ => trivial⟩,
      hz, fun z => .head, fun p z => .next⟩
  have hd : ∀ p, Dies anything k p := fun p => ⟨trivial, fun _ _ => trivial⟩
  cases op with
  | create entry prio fg name =>
    have hni : k.idleProc ≠ some c := by
      rcases hop with ho | ho
      · simp [Operation.byInterrupt] at ho
      · exact ho
    show Consistent (procCreate k entry prio fg name).1
    obtain - | e := entry
    · exact h
    obtain - | name := name
    · exact h
    rw [procCreate_some]
    obtain ⟨h1, -⟩ := hJ.collect .idle k hk
    have hs1 := steps_sound hs h1
    have hx1 := steps_executing hs h1 id (hx c hc)
    have hidle := (steps_static hs h1).1
    have hlive : ∀ i, k.idleProc = some i → ((collectZombies k).procs i).used :=
      fun i he => (steps_live hs h1 id (hi i he).1).1
    obtain ⟨h2, -⟩ := @createTail_steps anything trivial trivial (collectZombies k) _
      (clampPrio_inRange prio) (fun i hu => ⟨fun he => by
        rw [hx1.current, Option.some.injEq] at he
        subst he
        simp [hx1.used] at hu, fun he => by simp [hlive i (hidle ▸ he)] at hu⟩) fg name
    exact (steps_sound hs1 h2).consistent
  | block pid => exact ends_consistent hs hoff (ends_procBlock hJ hk fun _ _ => trivial)
  | unblock pid =>
    have he : Ends (Sealed anything .idle) anything k exec (returning (procUnblock k pid)) :=
      ends_procUnblock hJ hk fun _ _ => trivial
    exact ends_consistent hs hoff he
  | nice pid newPrio =>
    have hni : k.idleProc ≠ some c := by
      rcases hop with ho | ho
      · simp [Operation.byInterrupt] at ho
      · exact ho
    exact ends_consistent hs hoff (ends_procNice hJ hs (fun d hd => by
      rw [hc, Option.some.injEq] at hd
      exact hd ▸ hni) hk (fun _ _ => trivial) fun _ _ _ _ => trivial)
  | kill pid =>
    exact ends_consistent hs hoff (ends_procKill hJ trivial trivial (fun _ => trivial) hs hx
      (fun p _ _ => hd p) (.inl fun _ => trivial) (fun _ => id) hk)
  | exit code =>
    exact ends_consistent hs hoff (ends_procExit hJ trivial trivial (fun _ => trivial) hs hx
      (fun p _ => hd p) (.inl fun _ => trivial) hk code)
  | wait targetPid =>
    exact ends_consistent hs hoff (ends_procWait hJ (fun _ => trivial) hk targetPid)
  | schedule curRsp => exact schedule_consistent curRsp h hoff.used

/-- A kernel that has booted, with process 1 current and at most one process in each queue. -/
def sample (procs : Slot → Pcb) (head : Fin maxPrios → Option Slot) (zombie : Option Slot) :
    Kernel :=
  { kernelZero fun _ => false with
    procs := procs, readyHead := head, readyTail := head, schedulerEnabled := true
    current := some 1, idleProc := some 0, zombieHead := zombie }

lemma sample_queuedOff {procs : Slot → Pcb} {head : Fin maxPrios → Option Slot}
    {zombie : Option Slot}
    (hr : ∀ p, (∃ l, head l = some p) ↔ (procs p).used ∧ (procs p).state = .ready)
    (hq : ∀ l p, head l = some p → (procs p).priority = ((l : Nat) : Int) ∧
      (procs p).kframe ≠ none ∧ p ≠ 0)
    (hp : ∀ p, (procs p).used → (0 ≤ (procs p).priority ∧ (procs p).priority ≤ 3) ∧
      0 ≤ (procs p).basePriority ∧ (procs p).basePriority ≤ 3) :
    QueuedOff (fun _ => False) (sample procs head zombie) fun l => (head l).toList := by
  have hm : ∀ l p, p ∈ (head l).toList ↔ head l = some p := by simp
  refine ⟨⟨fun l => ?_, fun l l' hl p h h' => ?_⟩, fun p => ?_, fun l p h => ?_,
    fun i hi l h => ?_, hp, fun l p h => ?_⟩
  · show IsQueue (fun _ => none) (head l) (head l) (head l).toList
    cases head l with
    | none => exact ⟨rfl, rfl⟩
    | some p => exact ⟨⟨rfl, rfl⟩, rfl⟩
  · have h1 := (hq l p ((hm l p).mp h)).1
    have h2 := (hq l' p ((hm l' p).mp h')).1
    apply hl
    apply Fin.ext
    omega
  · simp only [hm, not_false_eq_true, true_and]
    exact hr p
  · exact (hq l p ((hm l p).mp h)).1
  · have h0 : i = 0 := by simpa [sample] using hi.symm
    exact (hq l i ((hm l i).mp h)).2.2 h0
  · exact (hq l p ((hm l p).mp h)).2.1

lemma sample_consistent {procs : Slot → Pcb} {head : Fin maxPrios → Option Slot}
    {zombie : Option Slot}
    (hr : ∀ p, (∃ l, head l = some p) ↔ (procs p).used ∧ (procs p).state = .ready)
    (hq : ∀ l p, head l = some p → (procs p).priority = ((l : Nat) : Int) ∧
      (procs p).kframe ≠ none ∧ p ≠ 0)
    (hp : ∀ p, (procs p).used → (0 ≤ (procs p).priority ∧ (procs p).priority ≤ 3) ∧
      0 ≤ (procs p).basePriority ∧ (procs p).basePriority ≤ 3) :
    Consistent (sample procs head zombie) :=
  ⟨_, sample_queuedOff hr hq hp⟩

/-- A used process of the sample kernels. -/
def samplePcb (p : Slot) (prio : Int) (state : ProcState) : Pcb :=
  { Pcb.zero with
    pid := p.val + 1, priority := prio, basePriority := prio, state := state, used := true
    parentPid := -1, kframe := some ⟨p, .user⟩ }

/-- The processes of the sample kernels: idle, the current one and a third one. -/
def sampleProcs (idle cur other : Pcb) (p : Slot) : Pcb :=
  if p = 0 then idle else if p = 1 then cur else if p = 2 then other else Pcb.zero

/-- The ready queues of the sample kernels. -/
def sampleHead (low high : Option Slot) (l : Fin maxPrios) : Option Slot :=
  if l = 2 then low else if l = 3 then high else none

/-- The current process runs and the third one is queued. -/
def sampleRunning : Kernel :=
  sample (sampleProcs (samplePcb 0 0 .running) (samplePcb 1 2 .running) (samplePcb 2 2 .ready))
    (sampleHead (some 2) none) none

lemma sampleRunning_consistent : Consistent sampleRunning :=
  sample_consistent (by decide +kernel) (by decide +kernel) (by decide +kernel)

theorem operation_consistent_sample : Consistent (Operation.run sampleRunning 1 (.nice 2 3)) := by
  have hz : ∀ z, ¬OnZombieList sampleRunning z := by
    intro z h
    induction h with
    | head h => cases h
    | next _ _ ih => exact ih
  apply @operation_consistent sampleRunning 1 1 (.nice 2 3) sampleRunning_consistent
  · rfl
  · rfl
  · rfl
  · exact .inr (by decide)
  · unfold Live
    decide +kernel
  · intro i hi
    have h0 : i = 0 := by simpa [sampleRunning, sample] using hi.symm
    subst h0
    unfold Live
    decide +kernel
  · exact fun z h => (hz z h).elim

/-- An operation of the live current process breaks consistent queues. -/
def Breaks (k : Kernel) (op : Operation) : Prop :=
  Consistent k ∧ k.current = some 1 ∧ Live k 1 ∧ k.idleProc ≠ some 1 ∧ ¬Consistent (op.run k 1)

/-- The current process is `READY` and queued. -/
def sampleReady : Kernel :=
  sample (sampleProcs (samplePcb 0 0 .running) (samplePcb 1 2 .ready) (samplePcb 2 3 .ready))
    (sampleHead (some 1) (some 2)) none

/-- A blocked process has no saved frame. -/
def sampleNoFrame : Kernel :=
  sample (sampleProcs (samplePcb 0 0 .running) (samplePcb 1 2 .running)
    { samplePcb 2 2 .blocked with kframe := none }) (sampleHead none none) none

/-- The idle process is blocked. -/
def sampleIdleBlocked : Kernel :=
  sample (sampleProcs (samplePcb 0 0 .blocked) (samplePcb 1 2 .running) Pcb.zero)
    (sampleHead none none) none

/-- The slot of the idle process is free. -/
def sampleIdleFree : Kernel :=
  sample (sampleProcs Pcb.zero (samplePcb 1 2 .running) Pcb.zero) (sampleHead none none) none

/-- A queued process is on the zombie list. -/
def sampleZombie : Kernel :=
  sample (sampleProcs (samplePcb 0 0 .running) (samplePcb 1 2 .running) (samplePcb 2 2 .ready))
    (sampleHead (some 2) none) (some 2)

lemma consistent_head {l : Fin maxPrios} {p : Slot} (h : Consistent k)
    (hp : k.readyHead l = some p) : (k.procs p).used ∧ (k.procs p).state = .ready ∧
      (k.procs p).kframe ≠ none ∧ k.idleProc ≠ some p := by
  obtain ⟨q, hq⟩ := h
  have hm : p ∈ q l := by
    have hc := (hq.queues.queue l).1
    rw [hp] at hc
    obtain ⟨l', hl, -⟩ := isChain_head_some hc
    simp [hl]
  obtain ⟨-, hu, hr⟩ := (hq.ready p).mp ⟨l, hm⟩
  exact ⟨hu, hr, hq.frame l p hm, fun hi => hq.notIdle p hi l hm⟩

/-- Each condition of `operation_consistent` on the processes is needed. -/
theorem operation_breaks : Breaks sampleReady (.block 0) ∧ Breaks sampleNoFrame (.unblock 3) ∧
    Breaks sampleIdleBlocked (.unblock 1) ∧
    Breaks sampleIdleFree (.create (some 0) 2 false (some [])) ∧
    Breaks sampleZombie (.unblock 0) := by
  refine ⟨⟨?_, rfl, ?_, by decide, fun h => ?_⟩, ⟨?_, rfl, ?_, by decide, fun h => ?_⟩,
    ⟨?_, rfl, ?_, by decide, fun h => ?_⟩, ⟨?_, rfl, ?_, by decide, fun h => ?_⟩,
    ⟨?_, rfl, ?_, by decide, fun h => ?_⟩⟩
  · exact sample_consistent (by decide +kernel) (by decide +kernel) (by decide +kernel)
  · exact ⟨rfl, by decide⟩
  · have hb : ((Operation.run sampleReady 1 (.block 0)).procs 1).state = .blocked := by
      decide +kernel
    have := (consistent_head (l := 2) (p := 1) h (by decide +kernel)).2.1
    simp [hb] at this
  · exact sample_consistent (by decide +kernel) (by decide +kernel) (by decide +kernel)
  · exact ⟨rfl, by decide⟩
  · have := (consistent_head (l := 2) (p := 2) h (by decide +kernel)).2.2.1
    exact this (by decide +kernel)
  · exact sample_consistent (by decide +kernel) (by decide +kernel) (by decide +kernel)
  · exact ⟨rfl, by decide⟩
  · have := (consistent_head (l := 0) (p := 0) h (by decide +kernel)).2.2.2
    exact this (by decide +kernel)
  · exact sample_consistent (by decide +kernel) (by decide +kernel) (by decide +kernel)
  · exact ⟨rfl, by decide⟩
  · have := (consistent_head (l := 2) (p := 0) h (by decide +kernel)).2.2.2
    exact this (by decide +kernel)
  · exact sample_consistent (by decide +kernel) (by decide +kernel) (by decide +kernel)
  · exact ⟨rfl, by decide⟩
  · have hu : ((Operation.run sampleZombie 1 (.unblock 0)).procs 2).used = false := by
      decide +kernel
    have := (consistent_head (l := 2) (p := 2) h (by decide +kernel)).1
    simp [hu] at this

end Proofs

end TP2Kernel
