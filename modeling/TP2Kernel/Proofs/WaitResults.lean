import TP2Kernel.WaitResults

/-!
# Wait results in memory

The pointer operations on the queue of wait results: what is taken, and that head and tail stay
right. They are the operations on lists of results by which the rest of the model replaces them.
-/

namespace TP2Kernel.Proofs
open Function LinkedList WaitQueue

/-- The queue holds these results, oldest first: its links lead from the head through their nodes
to the tail, and the nodes are blocks that were allocated. -/
structure HoldsResults (w : WaitQueue) (l : List WaitResult) : Prop where
  queue : IsQueue w.next w.waitResHead w.waitResTail (l.map WaitResult.node)
  childPid : ∀ r ∈ l, w.childPid r.node = r.childPid
  exitCode : ∀ r ∈ l, w.exitCode r.node = r.exitCode
  allocated : ∀ r ∈ l, r.node < w.heap.next

/-- The result that a call with `targetPid` is to take: the oldest one, of this pid if it is
positive. -/
def oldestResult (l : List WaitResult) (targetPid : ℤ) : Option WaitResult :=
  if targetPid ≤ 0 then l.head? else l.find? fun r => decide (r.childPid = targetPid)

variable {w : WaitQueue} {l l1 l2 : List WaitResult} {r : WaitResult} {targetPid : ℤ}
  {status : Option ℤ} {prev node : Option ℕ} {n : ℕ}

lemma HoldsResults.length_le (h : HoldsResults w l) : l.length ≤ w.heap.next := by
  have hsub : l.map WaitResult.node ⊆ List.range w.heap.next := by
    intro a ha
    obtain ⟨r, hr, rfl⟩ := List.mem_map.mp ha
    exact List.mem_range.mpr (h.allocated r hr)
  have hle := (h.queue.nodup.subperm hsub).length_le
  rwa [List.length_map, List.length_range] at hle

/-- The search stops at the first node of the pid. -/
lemma findNode_found (prev : Option ℕ)
    (hc : IsChain w.next node ((l1 ++ r :: l2).map WaitResult.node))
    (hpid : ∀ x ∈ l1 ++ r :: l2, w.childPid x.node = x.childPid)
    (hl : ∀ x ∈ l1, x.childPid ≠ targetPid) (hr : r.childPid = targetPid)
    (hn : l1.length < n) :
    w.findNode targetPid n prev node =
      (((l1.map WaitResult.node).getLast?).or prev, some r.node) := by
  induction l1 generalizing n prev node with
  | nil =>
    obtain ⟨n, rfl⟩ : ∃ k, n = k + 1 := ⟨n - 1, by omega⟩
    rw [List.nil_append, List.map_cons, isChain_cons] at hc
    rw [hc.1, findNode, if_pos (by rw [hpid r (by simp), hr])]
    rfl
  | cons x l1 ih =>
    obtain ⟨n, rfl⟩ : ∃ k, n = k + 1 := ⟨n - 1, by omega⟩
    rw [List.cons_append, List.map_cons, isChain_cons] at hc
    rw [List.length_cons] at hn
    have hne : w.childPid x.node ≠ targetPid := by
      rw [hpid x (by simp)]
      exact hl x List.mem_cons_self
    rw [hc.1, findNode, if_neg hne, ih _ hc.2 (fun y hy => hpid y (List.mem_cons_of_mem _ hy))
      (fun y hy => hl y (List.mem_cons_of_mem _ hy)) (by omega), List.map_cons,
      List.getLast?_cons]
    cases (l1.map WaitResult.node).getLast? <;> rfl

lemma findNode_none (prev : Option ℕ) (hc : IsChain w.next node (l.map WaitResult.node))
    (hpid : ∀ x ∈ l, w.childPid x.node = x.childPid) (hl : ∀ x ∈ l, x.childPid ≠ targetPid)
    (hn : l.length ≤ n) : (w.findNode targetPid n prev node).2 = none := by
  induction l generalizing n prev node with
  | nil =>
    rw [List.map_nil, isChain_nil] at hc
    rw [hc]
    cases n <;> rfl
  | cons x l ih =>
    obtain ⟨n, rfl⟩ : ∃ k, n = k + 1 := ⟨n - 1, by rw [List.length_cons] at hn; omega⟩
    rw [List.map_cons, isChain_cons] at hc
    rw [List.length_cons] at hn
    have hne : w.childPid x.node ≠ targetPid := by
      rw [hpid x (by simp)]
      exact hl x List.mem_cons_self
    rw [hc.1, findNode, if_neg hne]
    exact ih _ hc.2 (fun y hy => hpid y (List.mem_cons_of_mem _ hy))
      (fun y hy => hl y (List.mem_cons_of_mem _ hy)) (by omega)

lemma oldestResult_eq_some (h : oldestResult l targetPid = some r) :
    ∃ l1 l2, l = l1 ++ r :: l2 ∧ (targetPid ≤ 0 → l1 = []) ∧
      (0 < targetPid → r.childPid = targetPid ∧ ∀ x ∈ l1, x.childPid ≠ targetPid) := by
  rw [oldestResult] at h
  split at h
  · rename_i hle
    obtain ⟨l2, rfl⟩ := List.head?_eq_some_iff.mp h
    exact ⟨[], l2, rfl, fun _ => rfl, fun hlt => absurd hle (not_le.mpr hlt)⟩
  · rename_i hlt
    obtain ⟨hr, l1, l2, rfl, hl⟩ := List.find?_eq_some_iff_append.mp h
    refine ⟨l1, l2, rfl, fun hle => absurd hle hlt, fun _ => ⟨of_decide_eq_true hr, fun x hx => ?_⟩⟩
    simpa using hl x hx

lemma oldestResult_eq_none (h : oldestResult l targetPid = none) :
    (targetPid ≤ 0 → l = []) ∧ (0 < targetPid → ∀ x ∈ l, x.childPid ≠ targetPid) := by
  rw [oldestResult] at h
  split at h
  · rename_i hle
    exact ⟨fun _ => List.head?_eq_none_iff.mp h, fun hlt => absurd hle (not_le.mpr hlt)⟩
  · rename_i hlt
    refine ⟨fun hle => absurd hle hlt, fun _ x hx => ?_⟩
    simpa using List.find?_eq_none.mp h x hx

/-- The queue without a node, whose predecessor is `prev`. -/
def unlinked (w : WaitQueue) (prev : Option ℕ) (node : ℕ) : WaitQueue :=
  { w with
    waitResHead := spliceHead w.waitResHead prev (w.next node)
    next := spliceNext w.next prev (w.next node)
    waitResTail := if w.waitResTail = some node then prev else w.waitResTail
    heap := { w.heap with freed := w.heap.freed ++ [⟨.waitResult, node⟩] } }

lemma HoldsResults.unlinked (h : HoldsResults w (l1 ++ r :: l2)) :
    HoldsResults (unlinked w (l1.map WaitResult.node).getLast? r.node) (l1 ++ l2) := by
  have hsub : ∀ x ∈ l1 ++ l2, x ∈ l1 ++ r :: l2 := by
    intro x hx
    rw [List.mem_append] at hx ⊢
    exact hx.imp_right (List.mem_cons_of_mem r)
  refine ⟨?_, fun x hx => h.childPid x (hsub x hx), fun x hx => h.exitCode x (hsub x hx),
    fun x hx => h.allocated x (hsub x hx)⟩
  have hq := h.queue
  rw [List.map_append, List.map_cons] at hq
  rw [List.map_append]
  exact hq.splice

lemma consume_head {a : ℕ} (ht : targetPid ≤ 0) (hw : w.waitResHead = some a) :
    w.consumeWaitResult targetPid status =
      (unlinked w none a, w.childPid a, status.map fun _ => w.exitCode a) := by
  rw [WaitQueue.consumeWaitResult, if_pos ht, hw]
  dsimp only
  by_cases htail : w.waitResTail = some a
  · rw [if_pos htail]
    simp only [unlinked, htail, if_true, spliceHead_none, spliceNext_none, WaitQueue.mmFree]
  · rw [if_neg htail]
    simp only [unlinked, htail, if_false, spliceHead_none, spliceNext_none, WaitQueue.mmFree]

lemma consume_found {a : ℕ} (ht : ¬targetPid ≤ 0)
    (hw : w.findNode targetPid w.heap.next none w.waitResHead = (prev, some a)) :
    w.consumeWaitResult targetPid status =
      (unlinked w prev a, w.childPid a, status.map fun _ => w.exitCode a) := by
  rw [WaitQueue.consumeWaitResult, if_neg ht, hw]
  dsimp only
  by_cases htail : w.waitResTail = some a
  · rw [if_pos htail]
    simp only [unlinked, htail, if_true, WaitQueue.mmFree]
  · rw [if_neg htail]
    simp only [unlinked, htail, if_false, WaitQueue.mmFree]

/-- A result in the queue is taken: its node is unlinked and released. -/
lemma HoldsResults.consume_some (h : HoldsResults w l) (hr : oldestResult l targetPid = some r)
    (status : Option ℤ) :
    ∃ prev, w.consumeWaitResult targetPid status =
        (Proofs.unlinked w prev r.node, r.childPid, status.map fun _ => r.exitCode) ∧
      HoldsResults (Proofs.unlinked w prev r.node) (l.erase r) := by
  have hlen := h.length_le
  obtain ⟨l1, l2, rfl, hfirst, hpid⟩ := oldestResult_eq_some hr
  have hmem : r ∈ l1 ++ r :: l2 := List.mem_append_right _ List.mem_cons_self
  have hrl : r ∉ l1 := by
    intro hmem
    have hnd := h.queue.nodup
    rw [List.map_append, List.map_cons] at hnd
    exact (List.disjoint_of_nodup_append hnd) (List.mem_map_of_mem hmem) List.mem_cons_self
  refine ⟨(l1.map WaitResult.node).getLast?, ?_, ?_⟩
  · rw [← h.childPid r hmem, ← h.exitCode r hmem]
    by_cases ht : targetPid ≤ 0
    · have hnil := hfirst ht
      subst hnil
      exact consume_head ht h.queue.head_eq
    · obtain ⟨hchild, hothers⟩ := hpid (not_le.mp ht)
      rw [List.length_append, List.length_cons] at hlen
      have hfound := findNode_found none h.queue.chain h.childPid hothers hchild
        (n := w.heap.next) (by omega)
      rw [Option.or_none] at hfound
      exact consume_found ht hfound
  · rw [List.erase_append_right _ hrl, List.erase_cons_head]
    exact h.unlinked

/-- Without a result in the queue the call turns to the pending slot. -/
lemma HoldsResults.consume_none (h : HoldsResults w l) (hr : oldestResult l targetPid = none)
    (status : Option ℤ) :
    w.consumeWaitResult targetPid status = w.consumePending targetPid status := by
  obtain ⟨hfirst, hpid⟩ := oldestResult_eq_none hr
  by_cases ht : targetPid ≤ 0
  · have hnil := hfirst ht
    subst hnil
    have hhead : w.waitResHead = none := h.queue.head_eq
    rw [WaitQueue.consumeWaitResult, if_pos ht, hhead]
  · have hnone := findNode_none none h.queue.chain h.childPid (hpid (not_le.mp ht))
      h.length_le
    rw [WaitQueue.consumeWaitResult, if_neg ht]
    generalize w.findNode targetPid w.heap.next none w.waitResHead = found at *
    obtain ⟨prev', node'⟩ := found
    cases hnone
    rfl

lemma push_fails (hf : w.heap.fails w.heap.next = true) (childPid exitCode : ℤ) :
    w.pushWaitResult childPid exitCode =
      { w with
        heap := { w.heap with next := w.heap.next + 1 }
        pendingExitPid := childPid
        pendingExitCode := exitCode
        pendingExitValid := true } := if_pos hf

/-- The queue with a new node behind its tail. -/
def appended (w : WaitQueue) (childPid exitCode : ℤ) : WaitQueue :=
  { w with
    heap := { w.heap with next := w.heap.next + 1 }
    childPid := update w.childPid w.heap.next childPid
    exitCode := update w.exitCode w.heap.next exitCode
    next := spliceNext (update w.next w.heap.next none) w.waitResTail (some w.heap.next)
    waitResHead := spliceHead w.waitResHead w.waitResTail (some w.heap.next)
    waitResTail := some w.heap.next }

lemma push_succeeds (hf : ¬w.heap.fails w.heap.next = true) (childPid exitCode : ℤ) :
    w.pushWaitResult childPid exitCode = appended w childPid exitCode := by
  refine (if_neg hf).trans ?_
  rw [appended]
  cases w.waitResTail <;> rfl

lemma HoldsResults.appended (h : HoldsResults w l) (childPid exitCode : ℤ) :
    HoldsResults (appended w childPid exitCode) (l ++ [⟨w.heap.next, childPid, exitCode⟩]) := by
  have hne : ∀ x ∈ l, x.node ≠ w.heap.next := fun x hx => (h.allocated x hx).ne
  have hnot : w.heap.next ∉ l.map WaitResult.node := by
    intro hmem
    obtain ⟨x, hx, he⟩ := List.mem_map.mp hmem
    exact hne x hx he
  constructor
  · have hq := h.queue.update_of_notMem hnot none
    rw [List.map_append, List.map_singleton, Proofs.appended]
    dsimp only
    cases htail : w.waitResTail with
    | none =>
      have hnil : l = [] := by
        have hlast := h.queue.tail_eq
        rw [htail] at hlast
        exact List.map_eq_nil_iff.mp (List.getLast?_eq_none_iff.mp hlast.symm)
      rw [hnil]
      exact .push_nil _ _
    | some t =>
      rw [htail] at hq
      exact hq.push hnot (update_self _ _ _)
  all_goals
    intro x hx
    rw [List.mem_append, List.mem_singleton] at hx
    rcases hx with hx | rfl
  · exact (update_of_ne (hne x hx) _ _).trans (h.childPid x hx)
  · exact update_self _ _ _
  · exact (update_of_ne (hne x hx) _ _).trans (h.exitCode x hx)
  · exact update_self _ _ _
  · exact (h.allocated x hx).trans (Nat.lt_succ_self _)
  · exact Nat.lt_succ_self _

/-- The results behind a call of `push_wait_result`: without memory the pending slot is filled. -/
def pushed (w : WaitQueue) (l : List WaitResult) (childPid exitCode : ℤ) : List WaitResult :=
  if w.heap.fails w.heap.next then l else l ++ [⟨w.heap.next, childPid, exitCode⟩]

lemma HoldsResults.push (h : HoldsResults w l) (childPid exitCode : ℤ) :
    HoldsResults (w.pushWaitResult childPid exitCode) (pushed w l childPid exitCode) := by
  rw [pushed]
  split
  · rename_i hf
    rw [push_fails hf]
    exact ⟨h.queue, h.childPid, h.exitCode,
      fun x hx => (h.allocated x hx).trans (Nat.lt_succ_self _)⟩
  · rename_i hf
    rw [push_succeeds hf]
    exact h.appended childPid exitCode

/-- What a call of `consume_wait_result` may do to a queue of the results `l`: its outcome, and
the results that it leaves. -/
inductive Consumes (w : WaitQueue) (l : List WaitResult) (targetPid : ℤ) (status : Option ℤ) :
    WaitQueue × ℤ × Option ℤ → List WaitResult → Prop
  | queued (r : WaitResult) (prev : Option ℕ) (h : oldestResult l targetPid = some r) :
    Consumes w l targetPid status
      (unlinked w prev r.node, r.childPid, status.map fun _ => r.exitCode) (l.erase r)
  | pending (h : oldestResult l targetPid = none) (hvalid : w.pendingExitValid = true)
      (hpid : targetPid ≤ 0 ∨ w.pendingExitPid = targetPid) :
    Consumes w l targetPid status ({ w with pendingExitValid := false }, w.pendingExitPid,
      status.map fun _ => w.pendingExitCode) l
  | nothing (h : oldestResult l targetPid = none)
      (hno : ¬(w.pendingExitValid = true ∧ (targetPid ≤ 0 ∨ w.pendingExitPid = targetPid))) :
    Consumes w l targetPid status (w, -1, status) l

/-- `consume_wait_result` takes the oldest result of the pid, and the pending one only if there is
none; the queue stays well formed, and what is pushed next stands at its end. -/
theorem consumeWaitResult_takes_oldest (h : HoldsResults w l) (targetPid : ℤ)
    (status : Option ℤ) :
    ∃ l', Consumes w l targetPid status (w.consumeWaitResult targetPid status) l' ∧
      HoldsResults (w.consumeWaitResult targetPid status).1 l' ∧
      ∀ childPid exitCode,
        HoldsResults ((w.consumeWaitResult targetPid status).1.pushWaitResult childPid exitCode)
          (pushed (w.consumeWaitResult targetPid status).1 l' childPid exitCode) := by
  cases hr : oldestResult l targetPid with
  | some r =>
    obtain ⟨prev, hc, hl⟩ := h.consume_some hr status
    rw [hc]
    exact ⟨l.erase r, .queued r prev hr, hl, hl.push⟩
  | none =>
    rw [h.consume_none hr, consumePending]
    split
    · rename_i hp
      have hl : HoldsResults { w with pendingExitValid := false } l :=
        ⟨h.queue, h.childPid, h.exitCode, h.allocated⟩
      exact ⟨l, .pending hr hp.1 hp.2, hl, hl.push⟩
    · rename_i hp
      exact ⟨l, .nothing hr hp, h, h.push⟩

/-- Two children have ended, 7 and then 8, whose results are the blocks 0 and 1. -/
def twoResults : WaitQueue where
  next := fun a => if a = 0 then some 1 else none
  childPid := fun a => if a = 0 then 7 else 8
  exitCode := fun _ => 0
  waitResHead := some 0
  waitResTail := some 1
  pendingExitPid := -1
  pendingExitCode := 0
  pendingExitValid := false
  heap := { next := 2, fails := fun _ => false, freed := [] }

/-- Taking the last result moves the tail back. -/
theorem consumeWaitResult_takes_last :
    ∃ l', Consumes twoResults [⟨0, 7, 0⟩, ⟨1, 8, 0⟩] 8 none
        (twoResults.consumeWaitResult 8 none) l' ∧
      HoldsResults (twoResults.consumeWaitResult 8 none).1 l' ∧
      (twoResults.consumeWaitResult 8 none).2.1 = 8 ∧
      (twoResults.consumeWaitResult 8 none).1.waitResTail = some 0 := by
  have h : HoldsResults twoResults [⟨0, 7, 0⟩, ⟨1, 8, 0⟩] :=
    ⟨⟨⟨rfl, rfl, rfl⟩, rfl⟩, by decide, by decide, by decide⟩
  obtain ⟨l', hc, hl, -⟩ := consumeWaitResult_takes_oldest h 8 none
  exact ⟨l', hc, hl, by decide, by decide⟩

/-- The queue in memory is the one of the process in slot `p`. -/
structure Represents (k : Kernel) (p : Slot) (w : WaitQueue) : Prop where
  results : HoldsResults w (k.procs p).waitRes
  pendingExitPid : w.pendingExitPid = (k.procs p).pendingExitPid
  pendingExitCode : w.pendingExitCode = (k.procs p).pendingExitCode
  pendingExitValid : w.pendingExitValid = (k.procs p).pendingExitValid
  heap : w.heap = k.heap

variable {k : Kernel} {p : Slot}

/-- The operations in memory are those on the list of results. -/
theorem pushWaitResult_represents (h : Represents k p w) (childPid exitCode : ℤ) :
    Represents (TP2Kernel.pushWaitResult k p childPid exitCode) p
      (w.pushWaitResult childPid exitCode) := by
  have hpush := h.results.push childPid exitCode
  have hheap := h.heap
  rw [TP2Kernel.pushWaitResult, Kernel.mmMalloc, ← hheap]
  by_cases hf : w.heap.fails w.heap.next = true
  · rw [pushed, if_pos hf, push_fails hf] at hpush
    rw [push_fails hf, if_pos hf]
    dsimp only
    refine ⟨?_, ?_, ?_, ?_, rfl⟩
    · rw [Kernel.modify_procs_self]
      exact hpush
    all_goals rw [Kernel.modify_procs_self]
  · rw [pushed, if_neg hf, push_succeeds hf] at hpush
    rw [push_succeeds hf, if_neg hf]
    dsimp only
    refine ⟨?_, ?_, ?_, ?_, rfl⟩
    all_goals rw [Kernel.modify_procs_self]
    · exact hpush
    · exact h.pendingExitPid
    · exact h.pendingExitCode
    · exact h.pendingExitValid

/-- The status that `proc_wait` passes is 0. -/
theorem consumeWaitResult_represents (h : Represents k p w) (targetPid : ℤ) :
    Represents (TP2Kernel.consumeWaitResult k p targetPid).1 p
        (w.consumeWaitResult targetPid (some 0)).1 ∧
      (w.consumeWaitResult targetPid (some 0)).2 =
        ((TP2Kernel.consumeWaitResult k p targetPid).2.1,
          some (TP2Kernel.consumeWaitResult k p targetPid).2.2) := by
  have hmatch : matchingResult (k.procs p) targetPid =
      oldestResult (k.procs p).waitRes targetPid := rfl
  rw [TP2Kernel.consumeWaitResult, hmatch]
  cases hr : oldestResult (k.procs p).waitRes targetPid with
  | some r =>
    obtain ⟨prev, hc, hl⟩ := h.results.consume_some hr (some 0)
    rw [hc]
    dsimp only [Kernel.mmFree]
    refine ⟨⟨?_, ?_, ?_, ?_, ?_⟩, rfl⟩
    · rw [Kernel.modify_procs_self]
      exact hl
    · rw [Kernel.modify_procs_self]
      exact h.pendingExitPid
    · rw [Kernel.modify_procs_self]
      exact h.pendingExitCode
    · rw [Kernel.modify_procs_self]
      exact h.pendingExitValid
    · rw [unlinked, h.heap]
      rfl
  | none =>
    rw [h.results.consume_none hr, consumePending, pendingMatches, h.pendingExitValid,
      h.pendingExitPid, h.pendingExitCode]
    dsimp only
    by_cases hp : (k.procs p).pendingExitValid = true ∧
        (targetPid ≤ 0 ∨ (k.procs p).pendingExitPid = targetPid)
    · have hp' : ((k.procs p).pendingExitValid && (decide (targetPid ≤ 0) ||
          decide ((k.procs p).pendingExitPid = targetPid))) = true := by simpa using hp
      rw [if_pos hp, if_pos hp']
      refine ⟨⟨?_, ?_, ?_, ?_, h.heap⟩, rfl⟩
      all_goals rw [Kernel.modify_procs_self]
      exact ⟨h.results.queue, h.results.childPid, h.results.exitCode, h.results.allocated⟩
    · have hp' : ¬((k.procs p).pendingExitValid && (decide (targetPid ≤ 0) ||
          decide ((k.procs p).pendingExitPid = targetPid))) = true := by simpa using hp
      rw [if_neg hp, if_neg hp']
      exact ⟨h, rfl⟩

lemma cleanupLoop_eq (hc : IsChain w.next node (l.map WaitResult.node)) (hn : l.length ≤ n) :
    cleanupLoop n node w =
      { w with heap := { w.heap with
          freed := w.heap.freed ++ l.map fun r => ⟨.waitResult, r.node⟩ } } := by
  induction l generalizing n node w with
  | nil =>
    rw [List.map_nil, isChain_nil] at hc
    rw [hc, List.map_nil, List.append_nil]
    cases n <;> rfl
  | cons r l ih =>
    obtain ⟨n, rfl⟩ : ∃ k, n = k + 1 := ⟨n - 1, by rw [List.length_cons] at hn; omega⟩
    rw [List.map_cons, isChain_cons] at hc
    rw [List.length_cons] at hn
    rw [hc.1, cleanupLoop, ih (w := w.mmFree r.node) hc.2 (by omega), WaitQueue.mmFree]
    dsimp only
    rw [List.append_assoc]
    rfl

theorem cleanupWaitResults_represents (h : Represents k p w) :
    Represents (TP2Kernel.cleanupWaitResults k p) p w.cleanupWaitResults := by
  rw [TP2Kernel.cleanupWaitResults, Kernel.mmFrees_eq, WaitQueue.cleanupWaitResults,
    cleanupLoop_eq h.results.queue.chain h.results.length_le]
  refine ⟨?_, ?_, ?_, ?_, ?_⟩
  · rw [Kernel.modify_procs_self]
    exact ⟨⟨rfl, rfl⟩, by simp, by simp, by simp⟩
  · rw [Kernel.modify_procs_self]
  · rw [Kernel.modify_procs_self]
  · rw [Kernel.modify_procs_self]
  · dsimp only [Kernel.modify]
    rw [h.heap]

end TP2Kernel.Proofs
