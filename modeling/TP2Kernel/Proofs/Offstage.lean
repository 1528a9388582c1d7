import TP2Kernel.Proofs.Events

/-!
# Processes that the scheduler does not find

The scheduler only runs processes that the links of the ready queues lead to, the idle process and
the current one. A process that none of them names, and that is blocked or terminated, stays so
whatever is queued, promoted or dispatched.
-/

namespace TP2Kernel.Proofs
open Function LinkedList

variable {k k' : Kernel} {S : Slot → Prop} {p x : Slot}

/-- The ready queues lead to slots in `S` only. -/
structure Confined (S : Slot → Prop) (k : Kernel) : Prop where
  head : ∀ l x, k.readyHead l = some x → S x
  next : LinkClosed k.queueNext S

namespace Confined

lemma of_eq (h : Confined S k) (hh : k'.readyHead = k.readyHead) (hn : k'.queueNext = k.queueNext) :
    Confined S k' :=
  ⟨fun l x hx => h.head l x (hh ▸ hx), hn ▸ h.next⟩

lemma clear (h : Confined S k) (p : Slot) :
    Confined S { k with queueNext := update k.queueNext p none } :=
  ⟨h.head, h.next.update p nofun⟩

lemma insert (h : Confined S k) (p : Slot) :
    Confined (fun x => S x ∨ x = p) { k with queueNext := update k.queueNext p none } :=
  ⟨fun l x hx => .inl (h.head l x hx), (h.clear p).next.insert (update_self ..)⟩

/-- Unlinking a node whose successor is in `S`. -/
lemma splice (h : Confined S k) (l : Fin maxPrios) (prev : Option Slot) {next : Option Slot}
    (hx : ∀ x, next = some x → S x) : Confined S { k with
      readyHead := update k.readyHead l (spliceHead (k.readyHead l) prev next)
      queueNext := spliceNext k.queueNext prev next } := by
  refine ⟨fun l' x hx' => ?_, h.next.splice prev hx⟩
  dsimp only at hx'
  rw [update_apply] at hx'
  split at hx'
  · cases prev with
    | none => exact hx x hx'
    | some q => exact h.head l x hx'
  · exact h.head l' x hx'

lemma qPush (h : Confined S k) (hp : S p) : Confined S (qPush k p) := by
  have h0 := h.clear p
  unfold TP2Kernel.qPush
  dsimp only
  split
  · refine ⟨fun l x hx => ?_, h0.next⟩
    dsimp only at hx
    rw [update_apply] at hx
    split at hx
    · cases hx
      exact hp
    · exact h.head l x hx
  · refine ⟨h.head, h0.next.update _ fun x hx => ?_⟩
    cases hx
    exact hp
  · exact h0

/-- A process outside `S` enters a queue. -/
lemma push (h : Confined S k) (p : Slot) : Confined (fun x => S x ∨ x = p) (TP2Kernel.qPush k p) := by
  have h1 := (h.insert p).qPush (.inr rfl : S p ∨ p = p)
  have e : TP2Kernel.qPush { k with queueNext := update k.queueNext p none } p = TP2Kernel.qPush k p := by
    unfold TP2Kernel.qPush
    simp
  rw [e] at h1
  exact h1

lemma qPop (h : Confined S k) (l : Fin maxPrios) :
    Confined S (qPop k l).1 ∧ ∀ x, (qPop k l).2 = some x → S x := by
  unfold TP2Kernel.qPop
  split
  · exact ⟨h, nofun⟩
  · rename_i x hx
    have hS := h.head l x hx
    have h1 : Confined S { k with readyHead := update k.readyHead l (k.queueNext x) } := by
      refine ⟨fun l' y hy => ?_, h.next⟩
      dsimp only at hy
      rw [update_apply] at hy
      split at hy
      · exact h.next x y hS hy
      · exact h.head l' y hy
    refine ⟨(h1.clear x).of_eq ?_ ?_, fun y hy => ?_⟩
    · dsimp only
      split
      · rfl
      · rfl
    · dsimp only
      split
      · rfl
      · rfl
    · cases hy
      exact hS

lemma pickNext (h : Confined S k) :
    Confined S (pickNext k).1 ∧ ∀ x, (pickNext k).2 = some x → S x := by
  unfold TP2Kernel.pickNext
  split_ifs
  · exact h.qPop 3
  · exact h.qPop 2
  · exact h.qPop 1
  · exact h.qPop 0
  · exact ⟨h, nofun⟩

lemma qRemoveLoop (h : Confined S k) (p : Slot) (l : Fin maxPrios) (n : Nat)
    (prev : Option Slot) {cursor : Option Slot} (hc : ∀ x, cursor = some x → S x) :
    Confined S (qRemoveLoop p l n prev cursor k) := by
  induction n generalizing prev cursor with
  | zero => exact h
  | succ n ih =>
    cases cursor with
    | none => exact h
    | some x =>
      have hx := h.next x
      simp only [TP2Kernel.qRemoveLoop]
      split
      · have h1 := (h.splice l prev fun y hy => hx y (hc x rfl) hy).clear x
        apply h1.of_eq
        · split
          · rfl
          · rfl
        · split
          · rfl
          · rfl
      · exact ih (some x) fun y hy => hx y (hc x rfl) hy

lemma schedRemove (h : Confined S k) (p : Slot) : Confined S (schedRemove k p) := by
  have h0 : Confined S (if k.current = some p then { k with current := none } else k) := by
    split
    · exact h.of_eq rfl rfl
    · exact h
  unfold TP2Kernel.schedRemove
  generalize (if k.current = some p then { k with current := none } else k) = k0 at h0 ⊢
  dsimp only
  split
  · unfold qRemove
    dsimp only
    split
    · exact h0
    · exact h0.qRemoveLoop p _ _ none fun x hx => h0.head _ x hx
  · exact h0

/-- The ready queues and the list of promoted processes lead to slots in `S` only. -/
structure Aging (S : Slot → Prop) (a : Promoted) : Prop where
  queues : Confined S a.k
  head : ∀ x, a.head = some x → S x

lemma promote {a : Promoted} (h : Aging S a) (hp : S p) (l : Fin maxPrios) (prev : Option Slot) :
    Aging S (promote l prev p a) := by
  have h1 := (h.queues.splice l prev fun y hy => h.queues.next p y hp hy).clear p
  refine ⟨⟨?_, ?_⟩, fun x hx => ?_⟩
  · have h2 := h1.head
    unfold TP2Kernel.promote
    dsimp only
    split
    · exact h2
    · exact h2
  · have h2 := h1.next.splice a.tail (x := some p) fun x hx => by
      cases hx
      exact hp
    unfold TP2Kernel.promote
    dsimp only
    split
    · exact h2
    · exact h2
  · have hx' : spliceHead a.head a.tail (some p) = some x := hx
    cases ht : a.tail with
    | none =>
      rw [ht] at hx'
      cases hx'
      exact hp
    | some q =>
      rw [ht] at hx'
      exact h.head x hx'

lemma agingLoop {a : Promoted} (h : Aging S a) (l : Fin maxPrios) (n : Nat) (prev : Option Slot)
    {node : Option Slot} (hn : ∀ x, node = some x → S x) :
    Aging S (agingLoop l n prev node a) := by
  induction n generalizing prev node a with
  | zero => exact h
  | succ n ih =>
    cases node with
    | none => exact h
    | some x =>
      have hx : ∀ y, a.k.queueNext x = some y → S y := fun y => h.queues.next x y (hn x rfl)
      simp only [TP2Kernel.agingLoop]
      split
      · exact ih (promote h (hn x rfl) l prev) prev hx
      · have h1 : Aging S { a with k := a.k.modify x fun c => { c with agingTicks := agedTicks c } } :=
          ⟨h.queues.of_eq rfl rfl, h.head⟩
        exact ih h1 (some x) hx

lemma requeueLoop (h : Confined S k) (n : Nat) {node : Option Slot}
    (hn : ∀ x, node = some x → S x) : Confined S (requeueLoop n node k) := by
  induction n generalizing node k with
  | zero => exact h
  | succ n ih =>
    cases node with
    | none => exact h
    | some x =>
      have hx : ∀ y, k.queueNext x = some y → S y := fun y => h.next x y (hn x rfl)
      exact ih ((h.clear x).qPush (hn x rfl)) hx

lemma applyAging (h : Confined S k) : Confined S (applyAging k) := by
  have hfold : ∀ (ls : List (Fin maxPrios)) (a : Promoted), Aging S a →
      Aging S (ls.foldl agingLevel a) := by
    intro ls
    induction ls with
    | nil => exact fun a ha => ha
    | cons l ls ih =>
      intro a ha
      exact ih _ (agingLoop ha l _ none fun x hx => ha.queues.head l x hx)
  have h1 := hfold [0, 1, 2, 3] ⟨k, none, none⟩ ⟨h, nofun⟩
  exact h1.queues.requeueLoop _ h1.head

end Confined

/-- The ready queues are written, and of the PCBs anything but the states. -/
structure Requeues (k k' : Kernel) : Prop where
  write : SchedWrite k k'
  state : ∀ x, (k'.procs x).state = (k.procs x).state

namespace Requeues

lemma trans {k'' : Kernel} (h : Requeues k k') (h' : Requeues k' k'') : Requeues k k'' :=
  ⟨h.write.trans h'.write, fun x => (h'.state x).trans (h.state x)⟩

lemma queue (h : QueueWrite k k') : Requeues k k' :=
  ⟨h.schedWrite, fun x => by rw [h.procs_eq]⟩

lemma agingLoop (l : Fin maxPrios) (n : Nat) (prev node : Option Slot) (a : Promoted) :
    Requeues a.k (agingLoop l n prev node a).k := by
  induction n generalizing prev node a with
  | zero => exact queue (.refl _)
  | succ n ih =>
    cases node with
    | none => exact queue (.refl _)
    | some p =>
      simp only [TP2Kernel.agingLoop]
      split
      · apply trans ⟨promote_write l prev p a, fun x => ?_⟩ (ih _ _ _)
        rw [promote_procs, update_apply]
        split
        · rename_i hx
          rw [hx]
        · rfl
      · have h1 : Requeues a.k (a.k.modify p fun c => { c with agingTicks := agedTicks c }) := by
          refine ⟨rfl, fun x => ?_⟩
          rw [Kernel.modify_procs]
          split
          · rename_i hx
            rw [hx]
          · rfl
        exact h1.trans (ih (some p) (a.k.queueNext p)
          { a with k := a.k.modify p fun c => { c with agingTicks := agedTicks c } })

lemma requeueLoop (n : Nat) (node : Option Slot) (k : Kernel) :
    Requeues k (requeueLoop n node k) := by
  induction n generalizing node k with
  | zero => exact queue (.refl _)
  | succ n ih =>
    cases node with
    | none => exact queue (.refl _)
    | some p =>
      have h1 : Requeues k { k with queueNext := update k.queueNext p none } := queue rfl
      exact (h1.trans (queue (qPush_write _ p))).trans (ih _ _)

lemma applyAging (k : Kernel) : Requeues k (applyAging k) := by
  have hfold : ∀ (ls : List (Fin maxPrios)) (a : Promoted),
      Requeues a.k (ls.foldl agingLevel a).k := by
    intro ls
    induction ls with
    | nil => exact fun a => queue (.refl _)
    | cons l ls ih => exact fun a => (agingLoop l _ _ _ a).trans (ih _)
  exact (hfold [0, 1, 2, 3] ⟨k, none, none⟩).trans (requeueLoop _ _ _)

end Requeues

/-- The scheduler finds no way to `p`, which neither runs nor is ready. -/
structure Aside (p : Slot) (S : Slot → Prop) (k : Kernel) : Prop where
  asleep : ¬Awake (k.procs p)
  current : k.current ≠ some p
  idle : k.idleProc ≠ some p
  queues : Confined S k
  out : ¬S p

namespace Aside

lemma requeues {T : Slot → Prop} (h : Aside p S k) (hw : Requeues k k') (hq : Confined T k')
    (ht : ¬T p) : Aside p T k' := by
  have h1 := hw.write
  have h2 := hw.state p
  rw [SchedWrite] at h1
  rw [h1] at hq h2 ⊢
  refine ⟨?_, h.current, h.idle, hq, ht⟩
  rw [Awake, h2]
  exact h.asleep

/-- A write to another process. -/
lemma modify (h : Aside p S k) (hx : x ≠ p) (f : Pcb → Pcb) : Aside p S (k.modify x f) := by
  refine ⟨?_, h.current, h.idle, h.queues.of_eq rfl rfl, h.out⟩
  rw [Kernel.modify_procs_of_ne _ _ (Ne.symm hx)]
  exact h.asleep

lemma mem (h : Aside p S k) (hx : S x) : x ≠ p := by
  rintro rfl
  exact h.out hx

lemma current_some (h : Aside p S k) (hx : x ≠ p) : Aside p S { k with current := some x } :=
  ⟨h.asleep, by simpa using hx, h.idle, h.queues.of_eq rfl rfl, h.out⟩

lemma qPush (h : Aside p S k) (hx : x ≠ p) : Aside p (fun y => S y ∨ y = x) (qPush k x) := by
  apply h.requeues (.queue (qPush_write k x)) (h.queues.push x)
  rintro (hp | rfl)
  · exact h.out hp
  · exact hx rfl

end Aside

/-- `p` is blocked or terminated, and the scheduler does not find it. -/
def Offstage (p : Slot) (k : Kernel) : Prop := ∃ S, Aside p S k

namespace Offstage

/-- Writes outside the scheduler's data. -/
lemma of_eq (h : Offstage p k) (ha : ¬Awake (k'.procs p)) (hc : k'.current = k.current)
    (hi : k'.idleProc = k.idleProc) (hh : k'.readyHead = k.readyHead)
    (hn : k'.queueNext = k.queueNext) : Offstage p k' := by
  obtain ⟨S, h⟩ := h
  exact ⟨S, ha, hc ▸ h.current, hi ▸ h.idle, h.queues.of_eq hh hn, h.out⟩

lemma asleep (h : Offstage p k) : ¬Awake (k.procs p) := by
  obtain ⟨S, h⟩ := h
  exact h.asleep

lemma keep (h : Offstage p k) (x : Slot) {f : Pcb → Pcb}
    (hf : ¬Awake (k.procs x) → ¬Awake (f (k.procs x))) : Offstage p (k.modify x f) := by
  refine h.of_eq ?_ rfl rfl rfl rfl
  rw [Kernel.modify_procs]
  split
  · rename_i hx
    rw [← hx] at hf ⊢
    exact hf h.asleep
  · exact h.asleep

lemma keepState (h : Offstage p k) (x : Slot) {f : Pcb → Pcb}
    (hf : (f (k.procs x)).state = (k.procs x).state) : Offstage p (k.modify x f) := by
  apply h.keep x
  rw [Awake, Awake, hf]
  exact id

lemma ne (h : Offstage p k) (hx : Awake (k.procs x)) : x ≠ p := by
  rintro rfl
  exact h.asleep hx

lemma modify (h : Offstage p k) (hx : x ≠ p) (f : Pcb → Pcb) : Offstage p (k.modify x f) := by
  obtain ⟨S, h⟩ := h
  exact ⟨S, h.modify hx f⟩

lemma current_some (h : Offstage p k) (hx : x ≠ p) : Offstage p { k with current := some x } := by
  obtain ⟨S, h⟩ := h
  exact ⟨S, h.current_some hx⟩

lemma clear (h : Offstage p k) (x : Slot) :
    Offstage p { k with queueNext := update k.queueNext x none } := by
  obtain ⟨S, h⟩ := h
  exact ⟨S, h.asleep, h.current, h.idle, h.queues.clear x, h.out⟩

lemma current_ne (h : Offstage p k) (hx : k.current = some x) : x ≠ p := by
  obtain ⟨S, h⟩ := h
  rintro rfl
  exact h.current hx

lemma idle_ne (h : Offstage p k) (hx : k.idleProc = some x) : x ≠ p := by
  obtain ⟨S, h⟩ := h
  rintro rfl
  exact h.idle hx

lemma qPush (h : Offstage p k) (hx : x ≠ p) : Offstage p (qPush k x) := by
  obtain ⟨S, h⟩ := h
  exact ⟨_, h.qPush hx⟩

lemma schedEnqueue (h : Offstage p k) (hx : x ≠ p) : Offstage p (schedEnqueue k x) := by
  unfold TP2Kernel.schedEnqueue
  split
  · exact (h.modify hx _).current_some hx
  · have h1 := (h.modify hx fun c => { c with priority := clampPrio c.priority }).clear x
    have h2 := h1.modify hx fun c =>
      { c with state := .ready, ticksLeft := timeSliceTicks, agingTicks := 0 }
    exact h2.qPush hx

lemma schedRemove (h : Offstage p k) (x : Slot) : Offstage p (schedRemove k x) := by
  obtain ⟨S, h⟩ := h
  have hw := schedRemove_write k x
  refine ⟨S, ?_, ?_, ?_, h.queues.schedRemove x, h.out⟩
  · rw [schedRemove_procs]
    exact h.asleep
  · rw [schedRemove_current]
    split
    · exact nofun
    · exact h.current
  · rw [show (TP2Kernel.schedRemove k x).idleProc = k.idleProc from (congrArg Kernel.idleProc hw :)]
    exact h.idle

lemma pickNext (h : Offstage p k) :
    Offstage p (pickNext k).1 ∧ ∀ x, (pickNext k).2 = some x → x ≠ p := by
  obtain ⟨S, h⟩ := h
  obtain ⟨hq, hx⟩ := h.queues.pickNext
  exact ⟨⟨S, h.requeues (.queue (pickNext_write k)) hq h.out⟩, fun x e => h.mem (hx x e)⟩

lemma applyAging (h : Offstage p k) : Offstage p (applyAging k) := by
  obtain ⟨S, h⟩ := h
  exact ⟨S, h.requeues (.applyAging k) h.queues.applyAging h.out⟩

lemma dispatch (h : Offstage p k) (hx : x ≠ p) : Offstage p (dispatch k x).1 := by
  rw [dispatch_eq]
  exact (h.modify hx _).current_some hx

lemma selectNext (h : Offstage p k) {prev : Slot} (hp : prev ≠ p) :
    Offstage p (selectNext k prev).1 := by
  obtain ⟨h1, hn⟩ := h.applyAging.pickNext
  unfold TP2Kernel.selectNext
  generalize TP2Kernel.pickNext (TP2Kernel.applyAging k) = r at h1 hn ⊢
  obtain ⟨k1, picked⟩ := r
  dsimp only at h1 hn ⊢
  have hback := h1.current_some hp
  split
  · exact hback
  · rename_i next hnext
    have hne : next ≠ p := by
      cases picked with
      | none => exact h1.idle_ne hnext
      | some y =>
        cases hnext
        exact hn _ rfl
    split
    · exact h1.dispatch hne
    · split
      · rename_i idle hidle
        split
        · exact h1.dispatch (h1.idle_ne hidle)
        · exact hback
      · exact hback

lemma schedulePrev (h : Offstage p k) {prev : Slot} (hp : prev ≠ p) :
    Offstage p (schedulePrev k prev) := by
  have h1 : Offstage p (putBack k prev) := by
    unfold putBack
    split
    · exact (h.modify hp preempted).qPush hp
    · exact h
  rw [schedulePrev_eq]
  split
  · exact h1.modify hp _
  · exact h1

lemma schedule (h : Offstage p k) (rsp : Frame) : Offstage p (schedule k rsp).1 := by
  unfold TP2Kernel.schedule
  split
  · rename_i cur _ hcur
    have hne := h.current_ne hcur
    have h1 := h.modify hne fun c => { c with kframe := some rsp }
    dsimp only
    split
    · have h2 := h1.modify hne fun c => { c with ticksLeft := c.ticksLeft - 1 }
      split
      · exact h2
      · exact (h2.schedulePrev hne).selectNext hne
    · split
      · exact h1
      · exact (h1.schedulePrev hne).selectNext hne
  · obtain ⟨S, h⟩ := h
    exact ⟨S, h.asleep, h.current, h.idle, h.queues.of_eq rfl rfl, h.out⟩

lemma yield (h : Offstage p k) (rsp : Frame) : Offstage p (k.yield rsp).1 := by
  rw [show (k.yield rsp).1 = (schedForceYield k rsp).1 from rfl]
  unfold schedForceYield
  cases hc : k.current with
  | none => exact h.schedule rsp
  | some c => exact (h.modify (h.current_ne hc) fun c => { c with ticksLeft := 0 }).schedule rsp

end Offstage

end TP2Kernel.Proofs
