import TP2Kernel.Proofs.Creation

/-!
# What an action does to one process

`Fate` lists what can happen to a process in one action; the facts that hold of runs are
read off from it.
-/

namespace TP2Kernel
open Function LinkedList

variable {s : Scope} {k k' : Kernel}

/-- The PCBs belong to the same process, with the same saved frame and stack. -/
def SameSelf (c c' : Pcb) : Prop :=
  c'.pid = c.pid ∧ c'.used = c.used ∧ c'.kframe = c.kframe ∧ c'.kstackBase = c.kstackBase

lemma SameSelf.refl (c : Pcb) : SameSelf c c := ⟨rfl, rfl, rfl, rfl⟩

lemma SameSelf.trans {c c' c'' : Pcb} (h : SameSelf c c') (h' : SameSelf c' c'') :
    SameSelf c c'' :=
  ⟨h'.1.trans h.1, h'.2.1.trans h.2.1, h'.2.2.1.trans h.2.2.1, h'.2.2.2.trans h.2.2.2⟩

lemma SameSched.self {c c' : Pcb} (h : SameSched c c') : SameSelf c c' :=
  ⟨h.pid, h.used, h.kframe, h.kstackBase⟩

/-- The same place in the order in which the scheduler serves processes. -/
def SameRank (c c' : Pcb) : Prop :=
  c'.priority = c.priority ∧ c'.basePriority = c.basePriority ∧ c'.agingTicks = c.agingTicks

lemma SameRank.refl (c : Pcb) : SameRank c c := ⟨rfl, rfl, rfl⟩

lemma SameRank.trans {c c' c'' : Pcb} (h : SameRank c c') (h' : SameRank c' c'') :
    SameRank c c'' :=
  ⟨h'.1.trans h.1, h'.2.1.trans h.2.1, h'.2.2.trans h.2.2⟩

lemma SameSched.rank {c c' : Pcb} (h : SameSched c c') : SameRank c c' := by
  rw [h]
  exact ⟨rfl, rfl, rfl⟩

namespace Proofs

inductive Fate (s : Scope) (k k' : Kernel) (x : Slot) : Prop
  | same (hs : SameSelf (k.procs x) (k'.procs x)) (h : (k'.procs x).state = (k.procs x).state)
      (hr : s.moved x ∨ SameRank (k.procs x) (k'.procs x))
  | woken (hs : SameSelf (k.procs x) (k'.procs x)) (hw : s.woken x)
      (hu : (k.procs x).used) (hb : (k.procs x).state = .blocked)
      (h : (k'.procs x).state = .ready)
  | retired (hs : SameSelf (k.procs x) (k'.procs x)) (ht : s.terminated x)
      (he : (k.procs x).state ≠ .exited) (h : (k'.procs x).state = .exited)
  | reaped (he : (k.procs x).state = .exited) (h : (k'.procs x).state = .exited)
      (hp : (k'.procs x).pid = (k.procs x).pid) (hu : (k'.procs x).used → (k.procs x).used)
  | drafted (hf : s.fresh) (hu : (k.procs x).used = false) (hc : k.current ≠ some x)
      (hi : k.idleProc ≠ some x) (h : (k'.procs x).state = .new)
      (hk : (k'.procs x).used → (k'.procs x).kframe = some ⟨x, .trampoline⟩)
  | entered (hs : SameSelf (k.procs x) (k'.procs x)) (hu : (k.procs x).used)
      (hn : (k.procs x).state = .new) (h : (k'.procs x).state = .ready)
  | suspended (hs : SameSelf (k.procs x) (k'.procs x)) (hi : k.idleProc ≠ some x)
      (hc : k.current ≠ some x) (he : (k.procs x).state ≠ .exited)
      (h : (k'.procs x).state = .blocked)

lemma fate_off {X : Slot → Prop} {x : Slot} (h : Off X k k') (hx : ¬X x) : Fate s k k' x :=
  .same (h.procs x hx).self (h.procs x hx).state (.inr (h.procs x hx).rank)

lemma fate_eq {x : Slot} (h : k'.procs x = k.procs x) : Fate s k k' x := by
  refine .same ?_ ?_ (.inr ?_)
  · rw [h]
    exact .refl _
  · rw [h]
  · rw [h]
    exact .refl _

lemma fate_modify {p : Slot} (hm : s.moved p) (f : Pcb → Pcb)
    (hf : ∀ c, SameSelf c (f c) ∧ (f c).state = c.state) (x : Slot) :
    Fate s k (k.modify p f) x := by
  by_cases hx : x = p
  · subst hx
    refine .same ?_ ?_ (.inl hm)
    · rw [Kernel.modify_procs_self]
      exact (hf _).1
    · rw [Kernel.modify_procs_self]
      exact (hf _).2
  · exact fate_eq (Kernel.modify_procs_of_ne _ _ hx)

lemma schedEnqueue_self {p : Slot} (hon : ¬(k.schedulerEnabled = false ∧ k.current = none)) :
    SameSelf (k.procs p) ((schedEnqueue k p).procs p) ∧
      ((schedEnqueue k p).procs p).state = .ready ∧
      ∀ x, x ≠ p → (schedEnqueue k p).procs x = k.procs x := by
  rw [schedEnqueue_procs p hon]
  refine ⟨by simp [SameSelf], by simp, fun x hx => ?_⟩
  rw [update_of_ne hx]

lemma not_off_schedRemove (h : SchedulerOn k) {p : Slot} (hr : (k.procs p).state = .ready) :
    ¬((schedRemove k p).schedulerEnabled = false ∧ (schedRemove k p).current = none) := by
  have he : (schedRemove k p).schedulerEnabled = k.schedulerEnabled :=
    (congrArg Kernel.schedulerEnabled (schedRemove_write k p) :)
  rintro ⟨h1, h2⟩
  rw [he] at h1
  rcases h with h | ⟨c, hc, hst⟩
  · simp [h] at h1
  · have hcp : c ≠ p := by
      rintro rfl
      simp [hr] at hst
    rw [schedRemove_current, hc, if_neg (by simpa using hcp)] at h2
    cases h2

/-- Everything that an action can do to one process. -/
theorem act_fate (h : Sound k) (ha : Act s k k') (x : Slot) : Fate s k k' x := by
  have hon := not_off h.on
  cases ha with
  | still h => exact fate_off h id
  | note p _ h hp =>
    by_cases hx : x = p
    · subst hx
      exact .same hp.self hp.state (.inr hp.rank)
    · exact fate_off h hx
  | kin _ _ _ hp =>
    obtain ⟨parent, e⟩ := hp x
    refine .same ?_ ?_ (.inr ?_)
    · rw [e]
      exact .refl _
    · rw [e]
    · rw [e]
      exact .refl _
  | sems _ h => exact fate_eq (congrFun (congrArg Kernel.procs h :) x)
  | reap p he h hp hu =>
    by_cases hx : x = p
    · subst hx
      exact .reaped he (hp.state.trans he) hp.pid hu
    · exact fate_off h hx
  | wake p hw hu hb =>
    obtain ⟨h1, h2, h3⟩ := schedEnqueue_self (p := p) (k := k.modify p fun c =>
      { c with state := .ready, ticksLeft := timeSliceTicks, agingTicks := 0 }) hon
    by_cases hx : x = p
    · subst hx
      rw [Kernel.modify_procs_self] at h1
      exact .woken h1 hw hu hb h2
    · exact fate_eq ((h3 x hx).trans (Kernel.modify_procs_of_ne _ _ hx))
  | retire p ht he h hp =>
    by_cases hx : x = p
    · subst hx
      exact .retired hp.self ht he hp.state
    · have hs := h.procs x hx
      rw [unready_procs] at hs
      exact .same hs.self hs.state (.inr hs.rank)
  | draft p hf hu hc hi h _ hp hused =>
    by_cases hx : x = p
    · subst hx
      exact .drafted hf hu hc hi hp fun hu => (hused hu).1
    · exact .same (h.procs x hx).self (h.procs x hx).state (.inr (h.procs x hx).rank)
  | enter p hu hn hf hi =>
    obtain ⟨h1, h2, h3⟩ := schedEnqueue_self (p := p) hon
    by_cases hx : x = p
    · subst hx
      exact .entered h1 hu hn h2
    · exact fate_eq (h3 x hx)
  | suspend p _ hi hc he =>
    by_cases hx : x = p
    · subst hx
      refine .suspended ?_ hi hc he (by rw [Kernel.modify_procs_self])
      rw [Kernel.modify_procs_self, unready_procs]
      exact ⟨rfl, rfl, rfl, rfl⟩
    · apply fate_eq
      rw [Kernel.modify_procs_of_ne _ _ hx, unready_procs]
  | rebase p prio hm =>
    apply fate_modify hm
    exact fun _ => ⟨⟨rfl, rfl, rfl, rfl⟩, rfl⟩
  | reprio p prio hm =>
    apply fate_modify hm
    exact fun _ => ⟨⟨rfl, rfl, rfl, rfl⟩, rfl⟩
  | requeue p prio hm _ _ hu hn =>
    obtain ⟨h1, h2, h3⟩ := @schedEnqueue_self ((schedRemove k p).modify p fun c =>
      { c with priority := prio }) p (not_off_schedRemove h.on hn)
    by_cases hx : x = p
    · subst hx
      rw [Kernel.modify_procs_self, schedRemove_procs] at h1
      exact .same (SameSelf.trans ⟨rfl, rfl, rfl, rfl⟩ h1) (h2.trans hn.symm) (.inl hm)
    · exact fate_eq ((h3 x hx).trans ((Kernel.modify_procs_of_ne _ _ hx).trans
        (congrFun (schedRemove_procs k p) x)))

/-- No action changes who is idle, whether the scheduler is on, or the count of bailouts. -/
lemma act_static (h : Sound k) (ha : Act s k k') : k'.idleProc = k.idleProc ∧
    k'.schedulerEnabled = k.schedulerEnabled ∧ k'.bailouts = k.bailouts := by
  have hon := not_off h.on
  have hq : ∀ {k k' : Kernel}, SameQueues k k' → k'.idleProc = k.idleProc ∧
      k'.schedulerEnabled = k.schedulerEnabled ∧ k'.bailouts = k.bailouts :=
    fun h => ⟨h.idleProc, h.schedulerEnabled, h.bailouts⟩
  have hs : ∀ {k k' : Kernel}, SchedWrite k k' → k'.idleProc = k.idleProc ∧
      k'.schedulerEnabled = k.schedulerEnabled ∧ k'.bailouts = k.bailouts :=
    fun h => ⟨(congrArg Kernel.idleProc h :), (congrArg Kernel.schedulerEnabled h :),
      (congrArg Kernel.bailouts h :)⟩
  have hr : ∀ {k k' : Kernel}, RemoveWrite k k' → k'.idleProc = k.idleProc ∧
      k'.schedulerEnabled = k.schedulerEnabled ∧ k'.bailouts = k.bailouts :=
    fun h => ⟨(congrArg Kernel.idleProc h :), (congrArg Kernel.schedulerEnabled h :),
      (congrArg Kernel.bailouts h :)⟩
  cases ha with
  | still h => exact hq h.queues
  | note p _ h => exact hq h.queues
  | kin _ h => exact hq h
  | sems _ h =>
    rw [h]
    exact ⟨rfl, rfl, rfl⟩
  | reap p _ h => exact hq h.queues
  | wake p => exact hs (schedEnqueue_write p hon)
  | retire p _ _ h =>
    obtain ⟨h1, h2, h3⟩ := hr (unready_write k p)
    obtain ⟨h4, h5, h6⟩ := hq h.queues
    exact ⟨h4.trans h1, h5.trans h2, h6.trans h3⟩
  | draft p _ _ _ _ h =>
    exact ⟨h.queues.idleProc, h.queues.schedulerEnabled, h.queues.bailouts⟩
  | enter p => exact hs (schedEnqueue_write p hon)
  | suspend p =>
    obtain ⟨h1, h2, h3⟩ := hr (unready_write k p)
    exact ⟨h1, h2, h3⟩
  | rebase p prio => exact ⟨rfl, rfl, rfl⟩
  | reprio p prio => exact ⟨rfl, rfl, rfl⟩
  | requeue p prio _ _ _ _ hn =>
    obtain ⟨h1, h2, h3⟩ := hr (schedRemove_write k p)
    obtain ⟨h4, h5, h6⟩ := hs (@schedEnqueue_write ((schedRemove k p).modify p fun c =>
      { c with priority := prio }) p (not_off_schedRemove h.on hn))
    exact ⟨h4.trans h1, h5.trans h2, h6.trans h3⟩

/-- Only a `READY` process that is current can stop being current. -/
lemma act_current (h : Sound k) (ha : Act s k k') :
    k'.current = k.current ∨
      (k'.current = none ∧ ∃ p, k.current = some p ∧ (k.procs p).state = .ready) := by
  have hon := not_off h.on
  have hs : ∀ {k k' : Kernel}, SchedWrite k k' → k'.current = k.current :=
    fun h => (congrArg Kernel.current h :)
  have hrem : ∀ p, (k.procs p).state = .ready → (schedRemove k p).current = k.current ∨
      ((schedRemove k p).current = none ∧ ∃ p, k.current = some p ∧ (k.procs p).state = .ready) := by
    intro p hp
    rw [schedRemove_current]
    split
    · exact .inr ⟨rfl, p, ‹_›, hp⟩
    · exact .inl rfl
  have hun : ∀ p, (unready k p).current = k.current ∨
      ((unready k p).current = none ∧ ∃ p, k.current = some p ∧ (k.procs p).state = .ready) := by
    intro p
    unfold unready
    split
    · exact hrem p ‹_›
    · exact .inl rfl
  cases ha with
  | still h => exact .inl h.queues.current
  | note p _ h => exact .inl h.queues.current
  | kin _ h => exact .inl h.current
  | sems _ h =>
    left
    rw [h]
  | reap p _ h => exact .inl h.queues.current
  | wake p => exact .inl (hs (schedEnqueue_write p hon))
  | retire p _ _ h =>
    rw [h.queues.current]
    exact hun p
  | draft p _ _ _ _ h => exact .inl h.queues.current
  | enter p => exact .inl (hs (schedEnqueue_write p hon))
  | suspend p => exact hun p
  | rebase p prio => exact .inl rfl
  | reprio p prio => exact .inl rfl
  | requeue p prio _ _ _ _ hn =>
    rw [hs (@schedEnqueue_write ((schedRemove k p).modify p fun c =>
      { c with priority := prio }) p (not_off_schedRemove h.on hn))]
    exact hrem p hn

/-- The links of `p` are the same or cut. -/
def Shrinks (k k' : Kernel) (p : Slot) : Prop :=
  (k'.childHead p = k.childHead p ∨ k'.childHead p = none) ∧
    (k'.siblingNext p = k.siblingNext p ∨ k'.siblingNext p = none)

lemma Shrinks.trans {k k' k'' : Kernel} {p : Slot} (h : Shrinks k k' p) (h' : Shrinks k' k'' p) :
    Shrinks k k'' p := by
  refine ⟨?_, ?_⟩
  · rcases h'.1 with e | e
    · rw [e]
      exact h.1
    · exact .inr e
  · rcases h'.2 with e | e
    · rw [e]
      exact h.2
    · exact .inr e

lemma shrinks_of_eq {p : Slot} (hc : k'.childHead = k.childHead)
    (hs : k'.siblingNext = k.siblingNext) : Shrinks k k' p :=
  ⟨.inl (by rw [hc]), .inl (by rw [hs])⟩

lemma SchedWrite.links (h : SchedWrite k k') :
    k'.childHead = k.childHead ∧ k'.siblingNext = k.siblingNext :=
  ⟨(congrArg Kernel.childHead h :), (congrArg Kernel.siblingNext h :)⟩

lemma RemoveWrite.links (h : RemoveWrite k k') :
    k'.childHead = k.childHead ∧ k'.siblingNext = k.siblingNext :=
  ⟨(congrArg Kernel.childHead h :), (congrArg Kernel.siblingNext h :)⟩

lemma off_shrinks {x p : Slot} (h : Off (· = x) k k')
    (hl : (k'.childHead x = k.childHead x ∨ k'.childHead x = none) ∧
      (k'.siblingNext x = k.siblingNext x ∨ k'.siblingNext x = none)) : Shrinks k k' p := by
  by_cases hp : p = x
  · subst hp
    exact hl
  · exact ⟨.inl (h.links p hp).1, .inl (h.links p hp).2⟩

/-- Links are only cut, or the family changes and links lead where they led before or to a
new process. -/
lemma act_links (h : Sound k) (ha : Act s k k') : (∀ p, Shrinks k k' p) ∨
    (s.kin ∧ ∀ c, Linked k' c → Linked k c ∨ (k.procs c).state = .new) := by
  have hon := not_off h.on
  by_cases hkin : s.kin ∧ ∀ c, Linked k' c → Linked k c ∨ (k.procs c).state = .new
  · exact .inr hkin
  refine .inl fun p => ?_
  have hs : ∀ {k k' : Kernel}, SchedWrite k k' → Shrinks k k' p :=
    fun h => shrinks_of_eq h.links.1 h.links.2
  cases ha with
  | still h => exact ⟨.inl (h.links p id).1, .inl (h.links p id).2⟩
  | note x _ h _ hl => exact off_shrinks h ⟨.inl hl.1, .inl hl.2⟩
  | kin hk _ _ _ hl => exact absurd ⟨hk, hl⟩ hkin
  | sems _ h => exact shrinks_of_eq (by rw [h]) (by rw [h])
  | reap x _ h _ _ hl => exact off_shrinks h hl
  | wake x => exact hs (schedEnqueue_write x hon)
  | retire x _ _ h _ hl =>
    have hu := (unready_write k x).links
    have h1 : Shrinks k (unready k x) p := shrinks_of_eq hu.1 hu.2
    refine h1.trans (off_shrinks h ⟨.inl ?_, .inl ?_⟩)
    · rw [hl.1, hu.1]
    · rw [hl.2, hu.2]
  | draft x _ _ _ _ h hl =>
    have h1 : Shrinks k { k with queueNext := update k.queueNext x none } p :=
      ⟨.inl rfl, .inl rfl⟩
    exact h1.trans (off_shrinks h ⟨.inr hl.1, .inr hl.2⟩)
  | enter x => exact hs (schedEnqueue_write x hon)
  | suspend x =>
    have hu := (unready_write k x).links
    exact shrinks_of_eq hu.1 hu.2
  | rebase x prio => exact ⟨.inl rfl, .inl rfl⟩
  | reprio x prio => exact ⟨.inl rfl, .inl rfl⟩
  | requeue x prio _ _ _ _ hn =>
    have hu := (schedRemove_write k x).links
    have h1 : Shrinks k ((schedRemove k x).modify x fun c => { c with priority := prio }) p :=
      shrinks_of_eq hu.1 hu.2
    exact h1.trans (hs (schedEnqueue_write x (not_off_schedRemove h.on hn)))

lemma linked_of_shrinks (h : ∀ p, Shrinks k k' p) {c : Slot} (hc : Linked k' c) : Linked k c := by
  obtain ⟨p, hp | hp⟩ := hc
  · rcases (h p).1 with e | e
    · exact ⟨p, .inl (e ▸ hp)⟩
    · rw [e] at hp
      cases hp
  · rcases (h p).2 with e | e
    · exact ⟨p, .inr (e ▸ hp)⟩
    · rw [e] at hp
      cases hp

lemma onChildList_of_shrinks (h : ∀ p, Shrinks k k' p) {p c : Slot} (hc : OnChildList k' p c) :
    OnChildList k p c := by
  induction hc with
  | head hh =>
    rcases (h p).1 with e | e
    · exact .head (e ▸ hh)
    · rw [e] at hh
      cases hh
  | next _ hn ih =>
    rename_i c d _
    rcases (h c).2 with e | e
    · exact .next ih (e ▸ hn)
    · rw [e] at hn
      cases hn

lemma steps_shrinks (hk : ¬s.kin) (h : Sound k) (hs : Steps s k k') (p : Slot) :
    Shrinks k k' p := by
  induction hs with
  | refl => exact ⟨.inl rfl, .inl rfl⟩
  | tail h' ha ih =>
    exact ih.trans ((act_links (steps_sound h h') ha).resolve_right (fun hl => hk hl.1) p)

lemma act_linked (h : Sound k) (ha : Act s k k') {c : Slot} (hc : Linked k' c) :
    Linked k c ∨ (k.procs c).state = .new := by
  rcases act_links h ha with hs | ⟨-, hl⟩
  · exact .inl (linked_of_shrinks hs hc)
  · exact hl c hc

/-- Every kernel stack belongs to one process and is not freed while it does. -/
structure Stacks (k : Kernel) : Prop where
  own : ∀ p a, (k.procs p).kstackBase = some a → a < k.heap.next ∧ ¬StackFreed k a
  apart : ∀ p q a, (k.procs p).kstackBase = some a → (k.procs q).kstackBase = some a → p = q
  bound : ∀ a, StackFreed k a → a < k.heap.next

/-- Stacks stay where they are, and the freed ones belonged to nobody. -/
lemma stacks_of_same (h : Stacks k) (hp : ∀ p, (k'.procs p).kstackBase = (k.procs p).kstackBase)
    (hn : k.heap.next ≤ k'.heap.next) (hf : ∀ a, StackFreed k' a → StackFreed k a ∨
      (k.heap.next ≤ a ∧ a < k'.heap.next)) : Stacks k' := by
  refine ⟨fun p a ha => ?_, fun p q a ha hb => ?_, fun a ha => ?_⟩
  · rw [hp] at ha
    obtain ⟨h1, h2⟩ := h.own p a ha
    refine ⟨by omega, fun hfr => ?_⟩
    rcases hf a hfr with h3 | h3
    · exact h2 h3
    · omega
  · rw [hp] at ha hb
    exact h.apart p q a ha hb
  · rcases hf a ha with h1 | h1
    · have := h.bound a h1
      omega
    · exact h1.2

lemma stacks_reap (h : Stacks k) {p : Slot} (ho : Off (· = p) k k')
    (hst : (k'.procs p).kstackBase = none ∨
      ((k'.procs p).kstackBase = (k.procs p).kstackBase ∧
        ∀ a, StackFreed k' a → StackFreed k a)) : Stacks k' := by
  have hsame : ∀ x a, (k'.procs x).kstackBase = some a → (k.procs x).kstackBase = some a := by
    intro x a ha
    by_cases hx : x = p
    · subst hx
      rcases hst with e | ⟨e, -⟩
      · rw [e] at ha
        cases ha
      · exact e ▸ ha
    · exact (ho.procs x hx).kstackBase ▸ ha
  have hn := ho.next
  refine ⟨fun x a ha => ?_, fun x y a ha hb => ?_, fun a ha => ?_⟩
  · obtain ⟨h1, h2⟩ := h.own x a (hsame x a ha)
    refine ⟨by omega, fun hfr => ?_⟩
    rcases ho.freed a hfr with h3 | h3 | ⟨y, hy, h3⟩
    · exact h2 h3
    · omega
    · subst hy
      have hxy := h.apart x y a (hsame x a ha) h3
      subst hxy
      rcases hst with e | ⟨-, hall⟩
      · rw [e] at ha
        cases ha
      · exact h2 (hall a hfr)
  · exact h.apart x y a (hsame x a ha) (hsame y a hb)
  · rcases ho.freed a ha with h1 | h1 | ⟨y, -, h1⟩
    · have := h.bound a h1
      omega
    · exact h1.2
    · have := (h.own y a h1).1
      omega

lemma stacks_draft (h : Stacks k) {p : Slot}
    (ho : Off (· = p) { k with queueNext := update k.queueNext p none } k')
    (hused : (k'.procs p).used → ∃ a, (k'.procs p).kstackBase = some a ∧ k.heap.next ≤ a ∧
      a < k'.heap.next ∧ (StackFreed k' a → StackFreed k a))
    (hfree : (k'.procs p).used = false → (k'.procs p).kstackBase = none) : Stacks k' := by
  have hn : k.heap.next ≤ k'.heap.next := ho.next
  have hcase : ∀ x a, (k'.procs x).kstackBase = some a →
      (x ≠ p ∧ (k.procs x).kstackBase = some a) ∨
        (x = p ∧ k.heap.next ≤ a ∧ a < k'.heap.next ∧ (StackFreed k' a → StackFreed k a)) := by
    intro x a ha
    by_cases hx : x = p
    · subst hx
      by_cases hu : (k'.procs x).used = true
      · obtain ⟨b, hb, h1⟩ := hused hu
        rw [hb, Option.some.injEq] at ha
        exact .inr ⟨rfl, ha ▸ h1⟩
      · rw [hfree (by simpa using hu)] at ha
        cases ha
    · exact .inl ⟨hx, (ho.procs x hx).kstackBase ▸ ha⟩
  have hfr : ∀ a, StackFreed k' a → StackFreed k a ∨ (k.heap.next ≤ a ∧ a < k'.heap.next) ∨
      (k.procs p).kstackBase = some a := by
    intro a ha
    rcases ho.freed a ha with h1 | h1 | ⟨y, rfl, h1⟩
    · exact .inl h1
    · exact .inr (.inl h1)
    · exact .inr (.inr h1)
  refine ⟨fun x a ha => ?_, fun x y a ha hb => ?_, fun a ha => ?_⟩
  · rcases hcase x a ha with ⟨hx, h1⟩ | ⟨-, h1, h2, h3⟩
    · obtain ⟨h4, h5⟩ := h.own x a h1
      refine ⟨by omega, fun hf => ?_⟩
      rcases hfr a hf with h6 | h6 | h6
      · exact h5 h6
      · omega
      · exact hx (h.apart x p a h1 h6)
    · refine ⟨h2, fun hf => ?_⟩
      have := h.bound a (h3 hf)
      omega
  · rcases hcase x a ha with ⟨hx, h1⟩ | ⟨rfl, h1, -⟩
    · rcases hcase y a hb with ⟨hy, h2⟩ | ⟨-, h2, -⟩
      · exact h.apart x y a h1 h2
      · have := (h.own x a h1).1
        omega
    · rcases hcase y a hb with ⟨hy, h2⟩ | ⟨rfl, -⟩
      · have := (h.own y a h2).1
        omega
      · rfl
  · rcases hfr a ha with h1 | h1 | h1
    · have := h.bound a h1
      omega
    · exact h1.2
    · have := (h.own p a h1).1
      omega

/-- Every action keeps the stacks apart. -/
theorem act_stacks (hs : Sound k) (h : Stacks k) (ha : Act s k k') : Stacks k' := by
  have hon := not_off hs.on
  have hsched : ∀ {k k' : Kernel}, Stacks k → SchedWrite k k' →
      (∀ p, (k'.procs p).kstackBase = (k.procs p).kstackBase) → Stacks k' := by
    intro k k' h hw hp
    have hh : k'.heap = k.heap := (congrArg Kernel.heap hw :)
    refine stacks_of_same h hp (by rw [hh]) fun a ha => .inl ?_
    rwa [StackFreed, ← hh]
  have hmod : ∀ (k : Kernel) (p : Slot) (f : Pcb → Pcb), (∀ c, (f c).kstackBase = c.kstackBase) →
      ∀ x, ((k.modify p f).procs x).kstackBase = (k.procs x).kstackBase := by
    intro k p f hf x
    rw [Kernel.modify_procs]
    split
    · subst_vars
      exact hf _
    · rfl
  have henq : ∀ {k : Kernel} (p : Slot), ¬(k.schedulerEnabled = false ∧ k.current = none) →
      ∀ x, ((schedEnqueue k p).procs x).kstackBase = (k.procs x).kstackBase := by
    intro k p hon x
    obtain ⟨h1, -, h3⟩ := @schedEnqueue_self k p hon
    by_cases hx : x = p
    · subst hx
      exact h1.2.2.2
    · rw [h3 x hx]
  have hstill : ∀ {k k' : Kernel} {p : Slot}, Stacks k → Off (· = p) k k' →
      (k'.procs p).kstackBase = (k.procs p).kstackBase →
      (∀ a, StackFreed k' a → StackFreed k a) → Stacks k' := by
    intro k k' p h ho hp hf
    refine stacks_of_same h (fun x => ?_) ho.next fun a ha => .inl (hf a ha)
    by_cases hx : x = p
    · exact hx ▸ hp
    · exact (ho.procs x hx).kstackBase
  have hrem : ∀ {k' : Kernel} (p : Slot), RemoveWrite k k' → k'.procs = k.procs → Stacks k' := by
    intro k' p hw hp
    have hh : k'.heap = k.heap := (congrArg Kernel.heap hw :)
    refine stacks_of_same h (fun x => by rw [hp]) (by rw [hh]) fun a ha => .inl ?_
    rwa [StackFreed, ← hh]
  cases ha with
  | still ho =>
    refine stacks_of_same h (fun x => (ho.procs x id).kstackBase) ho.next fun a ha => ?_
    rcases ho.freed a ha with h1 | h1 | ⟨_, h1, -⟩
    · exact .inl h1
    · exact .inr h1
    · exact h1.elim
  | note p _ ho hp _ hf => exact hstill h ho hp.kstackBase hf
  | kin _ _ hh hp =>
    refine stacks_of_same h (fun x => ?_) (by rw [hh]) fun a ha => .inl ?_
    · obtain ⟨parent, e⟩ := hp x
      rw [e]
    · rwa [StackFreed, ← hh]
  | sems _ hw hn _ hf =>
    refine stacks_of_same h (fun x => by rw [hw]) hn fun a ha => .inl (hf a ha)
  | reap p _ ho _ _ _ hst => exact stacks_reap h ho hst
  | wake p =>
    have h1 : Stacks (k.modify p fun c =>
        { c with state := .ready, ticksLeft := timeSliceTicks, agingTicks := 0 }) :=
      stacks_of_same h (hmod k p _ fun _ => rfl) le_rfl fun _ ha => .inl ha
    exact hsched h1 (schedEnqueue_write p hon) (henq p hon)
  | retire p _ _ ho hp _ hf =>
    refine hstill (hrem p (unready_write k p) (unready_procs k p)) ho ?_ fun a ha => ?_
    · rw [unready_procs]
      exact hp.kstackBase
    · have hh : (unready k p).heap = k.heap := (congrArg Kernel.heap (unready_write k p) :)
      rw [StackFreed, hh]
      exact hf a ha
  | draft p _ _ _ _ ho _ _ hused hfree =>
    exact stacks_draft h ho (fun hu => (hused hu).2.2.2) hfree
  | enter p => exact hsched h (schedEnqueue_write p hon) (henq p hon)
  | suspend p =>
    have h1 := hrem p (unready_write k p) (unready_procs k p)
    refine stacks_of_same h1 (hmod _ p _ ?_) le_rfl fun _ ha => .inl ha
    exact fun _ => rfl
  | rebase p prio => exact stacks_of_same h (hmod k p _ fun _ => rfl) le_rfl fun _ ha => .inl ha
  | reprio p prio => exact stacks_of_same h (hmod k p _ fun _ => rfl) le_rfl fun _ ha => .inl ha
  | requeue p prio _ _ _ _ hn =>
    have h1 := hrem p (schedRemove_write k p) (schedRemove_procs k p)
    have h2 : Stacks ((schedRemove k p).modify p fun c => { c with priority := prio }) :=
      stacks_of_same h1 (hmod _ p _ fun _ => rfl) le_rfl fun _ ha => .inl ha
    have hoff := not_off_schedRemove hs.on hn
    exact hsched h2 (schedEnqueue_write p hoff) (henq p hoff)

end Proofs

end TP2Kernel
