import TP2Kernel.Invariants

/-!
# Ready queues as lists

The pointer operations of `sched.c` on `ready_head`, `ready_tail` and `queue_next` are
list operations on the four queues they represent.
-/

namespace TP2Kernel.ReadyQueues
open Function LinkedList

variable {k : Kernel} {q : Fin maxPrios → List Slot}

lemma of_eq {k' : Kernel} (h : ReadyQueues k q) (hn : k'.queueNext = k.queueNext)
    (hh : k'.readyHead = k.readyHead) (ht : k'.readyTail = k.readyTail) : ReadyQueues k' q :=
  ⟨by rw [hn, hh, ht]; exact h.queue, h.disjoint⟩

lemma update_next (h : ReadyQueues k q) {p : Slot} (hp : ∀ l, p ∉ q l) (x : Option Slot) :
    ReadyQueues { k with queueNext := update k.queueNext p x } q :=
  ⟨fun l => (h.queue l).update_of_notMem (hp l) x, h.disjoint⟩

lemma unique {q' : Fin maxPrios → List Slot} (h : ReadyQueues k q) (h' : ReadyQueues k q') :
    q = q' :=
  funext fun l => isChain_unique (h.queue l).chain (h'.queue l).chain

lemma head_none (h : ReadyQueues k q) {l : Fin maxPrios} : k.readyHead l = none ↔ q l = [] := by
  rw [(h.queue l).head_eq, List.head?_eq_none_iff]

end TP2Kernel.ReadyQueues

namespace TP2Kernel.Proofs
open Function LinkedList

/-- Only the ready queues differ. -/
def QueueWrite (k k' : Kernel) : Prop :=
  k' = { k with queueNext := k'.queueNext, readyHead := k'.readyHead, readyTail := k'.readyTail }

lemma QueueWrite.refl (k : Kernel) : QueueWrite k k := rfl

lemma QueueWrite.trans {k k' k'' : Kernel} (h : QueueWrite k k') (h' : QueueWrite k' k'') :
    QueueWrite k k'' := by
  unfold QueueWrite at *
  rw [h', h]

lemma qPush_write (k : Kernel) (p : Slot) : QueueWrite k (qPush k p) := by
  unfold qPush
  dsimp only
  split <;> rfl

lemma disjoint_push {q : Fin maxPrios → List Slot} {p : Slot} (lv : Fin maxPrios)
    (hd : ∀ l l', l ≠ l' → ∀ p ∈ q l, p ∉ q l') (hp : ∀ l, p ∉ q l) :
    ∀ l l', l ≠ l' → ∀ x ∈ update q lv (q lv ++ [p]) l, x ∉ update q lv (q lv ++ [p]) l' := by
  intro l l' hne x hx hx'
  have h1 : x ∈ q l ∨ (x = p ∧ l = lv) := by
    by_cases hl : l = lv
    · subst hl
      simpa using hx
    · exact .inl (by simpa [hl] using hx)
  have h2 : x ∈ q l' ∨ (x = p ∧ l' = lv) := by
    by_cases hl : l' = lv
    · subst hl
      simpa using hx'
    · exact .inl (by simpa [hl] using hx')
  rcases h1 with h1 | ⟨hxp, hl⟩
  · rcases h2 with h2 | ⟨hxp, -⟩
    · exact hd l l' hne x h1 h2
    · exact hp l (hxp ▸ h1)
  · rcases h2 with h2 | ⟨-, hl'⟩
    · exact hp l' (hxp ▸ h2)
    · exact hne (hl.trans hl'.symm)

/-- `q_push` appends a process that is in no queue to the queue of its priority. -/
theorem qPush_queues {k : Kernel} {q : Fin maxPrios → List Slot} {p : Slot}
    (h : ReadyQueues k q) (hp : ∀ l, p ∉ q l) :
    ReadyQueues (qPush k p)
      (update q (level (k.procs p).priority) (q (level (k.procs p).priority) ++ [p])) := by
  refine ⟨fun l => ?_, disjoint_push _ h.disjoint hp⟩
  have h' := h.update_next hp none
  unfold qPush
  dsimp only
  generalize level (k.procs p).priority = lv
  have hlv := h'.queue lv
  split
  · rename_i hh
    have hq : q lv = [] := isChain_head_none (hh ▸ hlv.chain)
    by_cases hl : l = lv
    · subst hl
      simpa [hq] using IsQueue.push_nil k.queueNext p
    · simpa [hl] using h'.queue l
  · rename_i hd tl hh ht
    have htl : tl ∈ q lv := List.mem_of_getLast? (hlv.tail_eq.symm.trans ht)
    by_cases hl : l = lv
    · subst hl
      simpa using IsQueue.push (ht ▸ hlv) (hp l) (by simp)
    · have := (h'.queue l).update_of_notMem (h.disjoint lv l (Ne.symm hl) tl htl) (some p)
      simpa [hl] using this
  · rename_i hd hh ht
    have hnil : q lv = [] := by
      have := hlv.tail_eq
      dsimp only at this
      rw [ht] at this
      exact List.getLast?_eq_none_iff.mp this.symm
    have := hlv.head_eq
    dsimp only at this
    rw [hh, hnil] at this
    simp at this

lemma qPop_write (k : Kernel) (l : Fin maxPrios) : QueueWrite k (qPop k l).1 := by
  unfold qPop
  split
  · rfl
  · dsimp only
    split <;> rfl

/-- `q_pop` takes the head of a queue. -/
theorem qPop_queues {k : Kernel} {q : Fin maxPrios → List Slot} {lv : Fin maxPrios} {p : Slot}
    {rest : List Slot} (h : ReadyQueues k q) (hq : q lv = p :: rest) :
    (qPop k lv).2 = some p ∧ ReadyQueues (qPop k lv).1 (update q lv rest) := by
  have hhead : k.readyHead lv = some p := by rw [(h.queue lv).head_eq, hq, List.head?_cons]
  unfold qPop
  simp only [hhead, true_and]
  have hpop := (hq ▸ h.queue lv : IsQueue _ _ _ (p :: rest)).pop
  refine ⟨fun l => ?_, ?_⟩
  · by_cases hl : l = lv
    · subst hl
      by_cases hn : k.queueNext p = none
      · simpa [hn] using hpop
      · simpa [hn] using hpop
    · have hp : p ∉ q l := h.disjoint lv l (Ne.symm hl) p (by simp [hq])
      have := (h.queue l).update_of_notMem hp none
      by_cases hn : k.queueNext p = none
      · simpa [hl, hn] using this
      · simpa [hl, hn] using this
  · intro l l' hne x hx hx'
    refine h.disjoint l l' hne x ?_ ?_
    · by_cases hl : l = lv
      · subst hl
        simp only [update_self] at hx
        simp [hq, hx]
      · simpa [hl] using hx
    · by_cases hl : l' = lv
      · subst hl
        simp only [update_self] at hx'
        simp [hq, hx']
      · simpa [hl] using hx'

lemma qRemoveLoop_write (p : Slot) (lv : Fin maxPrios) (n : Nat) (prev cursor : Option Slot)
    (k : Kernel) : QueueWrite k (qRemoveLoop p lv n prev cursor k) := by
  induction n generalizing prev cursor with
  | zero => rfl
  | succ n ih =>
    cases cursor with
    | none => rfl
    | some c =>
      simp only [qRemoveLoop]
      split
      · split <;> rfl
      · exact ih _ _

lemma qRemove_write (k : Kernel) (p : Slot) : QueueWrite k (qRemove k p) := by
  unfold qRemove
  dsimp only
  split
  · rfl
  · exact qRemoveLoop_write _ _ _ _ _ _

lemma disjoint_shrink {q : Fin maxPrios → List Slot} (lv : Fin maxPrios) {l' : List Slot}
    (hd : ∀ l l', l ≠ l' → ∀ p ∈ q l, p ∉ q l') (hs : ∀ p ∈ l', p ∈ q lv) :
    ∀ l m, l ≠ m → ∀ x ∈ update q lv l' l, x ∉ update q lv l' m := by
  intro l m hne x hx hx'
  refine hd l m hne x ?_ ?_
  · by_cases hl : l = lv
    · subst hl
      exact hs x (by simpa using hx)
    · simpa [hl] using hx
  · by_cases hl : m = lv
    · subst hl
      exact hs x (by simpa using hx')
    · simpa [hl] using hx'

/-- Unlinking a node of one queue with its predecessor at hand. -/
lemma splice_queues {k : Kernel} {q : Fin maxPrios → List Slot} {lv : Fin maxPrios} {p : Slot}
    {kept rest : List Slot} (h : ReadyQueues k q) (hq : q lv = kept ++ p :: rest) {k' : Kernel}
    (hn : k'.queueNext = update (spliceNext k.queueNext kept.getLast? (k.queueNext p)) p none)
    (hh : k'.readyHead = update k.readyHead lv
      (spliceHead (k.readyHead lv) kept.getLast? (k.queueNext p)))
    (ht : k'.readyTail = update k.readyTail lv
      (if k.readyTail lv = some p then kept.getLast? else k.readyTail lv)) :
    ReadyQueues k' (update q lv (kept ++ rest)) := by
  refine ⟨fun l => ?_, disjoint_shrink lv h.disjoint (fun x hx => by rw [hq]; grind)⟩
  rw [hn, hh, ht]
  by_cases hl : l = lv
  · subst hl
    have hsp := (hq ▸ h.queue l : IsQueue _ _ _ (kept ++ p :: rest)).splice
    have hnd := (h.queue l).nodup
    rw [hq] at hnd
    have hp : p ∉ kept ++ rest := by grind
    simpa using hsp.update_of_notMem hp none
  · have hout : ∀ x ∈ q l, x ∉ kept ++ p :: rest := fun x hx => by
      rw [← hq]
      exact h.disjoint l lv hl x hx
    have : IsQueue (update (spliceNext k.queueNext kept.getLast? (k.queueNext p)) p none)
        (k.readyHead l) (k.readyTail l) (q l) := by
      apply (h.queue l).congr
      intro x hx
      have hx' := hout x hx
      rw [update_of_ne (by grind), spliceNext_of_notMem _ _ _ (by grind)]
    simpa [hl] using this

lemma qRemoveLoop_queues {k : Kernel} {q : Fin maxPrios → List Slot} {lv : Fin maxPrios}
    {p : Slot} (h : ReadyQueues k q) {n : Nat} {kept rest : List Slot}
    (hq : q lv = kept ++ rest) (hp : p ∉ kept) (hc : IsChain k.queueNext rest.head? rest)
    (hn : rest.length ≤ n) :
    ReadyQueues (qRemoveLoop p lv n kept.getLast? rest.head? k) (update q lv ((q lv).erase p)) := by
  induction rest generalizing n kept with
  | nil =>
    have he : (q lv).erase p = q lv := by
      rw [hq, List.append_nil, List.erase_of_not_mem hp]
    rw [he, update_eq_self]
    cases n <;> simpa [qRemoveLoop] using h
  | cons c rest ih =>
    obtain ⟨n, rfl⟩ : ∃ m, n = m + 1 := ⟨n - 1, by simp only [List.length_cons] at hn; omega⟩
    simp only [List.head?_cons, qRemoveLoop]
    split
    · rename_i hcp
      subst hcp
      have he : (q lv).erase c = kept ++ rest := by
        rw [hq, List.erase_append_right _ hp, List.erase_cons_head]
      rw [he]
      split
      · rename_i ht
        exact splice_queues h hq rfl rfl (by rw [if_pos ht])
      · rename_i ht
        exact splice_queues h hq rfl rfl (by rw [if_neg ht, update_eq_self])
    · rename_i hcp
      have hrest : k.queueNext c = rest.head? := isChain_head_eq hc.2
      have hq' : q lv = (kept ++ [c]) ++ rest := by simpa using hq
      have hlen : rest.length ≤ n := by simpa using hn
      have := ih hq' (by simp [hp, Ne.symm hcp]) (hrest ▸ hc.2) hlen
      rw [hrest]
      simpa using this

/-- `q_remove` takes a process out of the queue of its priority, and changes nothing when
it is not there. -/
theorem qRemove_queues {k : Kernel} {q : Fin maxPrios → List Slot} {p : Slot}
    (h : ReadyQueues k q) (h0 : 0 ≤ (k.procs p).priority) (h3 : (k.procs p).priority ≤ 3) :
    ReadyQueues (qRemove k p)
      (update q (level (k.procs p).priority) ((q (level (k.procs p).priority)).erase p)) := by
  have hr : ¬((k.procs p).priority < minPrio ∨ highestPrio < (k.procs p).priority) := by
    simp only [minPrio, highestPrio]
    omega
  unfold qRemove
  rw [if_neg hr]
  generalize level (k.procs p).priority = lv
  have hq := h.queue lv
  have := @qRemoveLoop_queues k q lv p h maxProcs [] (q lv) rfl (by simp)
    (by rw [← hq.head_eq]; exact hq.chain) (by simpa using isChain_length_le hq.chain)
  rw [← hq.head_eq] at this
  exact this

lemma pickNext_write (k : Kernel) : QueueWrite k (pickNext k).1 := by
  unfold pickNext
  repeat' split
  all_goals first | exact qPop_write _ _ | rfl

lemma above_zero : ∀ l : Fin maxPrios, 0 < l → l = 1 ∨ l = 2 ∨ l = 3 := by decide

lemma above_one : ∀ l : Fin maxPrios, 1 < l → l = 2 ∨ l = 3 := by decide

lemma above_two : ∀ l : Fin maxPrios, 2 < l → l = 3 := by decide

lemma above_three : ∀ l : Fin maxPrios, ¬3 < l := by decide

/-- `pick_next` takes the head of the highest queue that is not empty. -/
theorem pickNext_queues {k : Kernel} {q : Fin maxPrios → List Slot} (h : ReadyQueues k q) :
    ((pickNext k).2 = none ∧ (pickNext k).1 = k ∧ ∀ l, q l = []) ∨
    ∃ lv p rest, (pickNext k).2 = some p ∧ q lv = p :: rest ∧ (∀ l, lv < l → q l = []) ∧
      ReadyQueues (pickNext k).1 (update q lv rest) := by
  have hpop : ∀ lv, q lv ≠ [] → (∀ l, lv < l → q l = []) → pickNext k = qPop k lv →
      ∃ lv p rest, (pickNext k).2 = some p ∧ q lv = p :: rest ∧ (∀ l, lv < l → q l = []) ∧
        ReadyQueues (pickNext k).1 (update q lv rest) := by
    intro lv hne hup he
    obtain ⟨p, rest, hq⟩ := List.exists_cons_of_ne_nil hne
    obtain ⟨h2, h1⟩ := qPop_queues h hq
    exact ⟨lv, p, rest, by rw [he, h2], hq, hup, by rw [he]; exact h1⟩
  have hh : ∀ l, k.readyHead l ≠ none ↔ q l ≠ [] := fun l => not_congr h.head_none
  by_cases h3 : q 3 = []
  · by_cases h2 : q 2 = []
    · by_cases h1 : q 1 = []
      · by_cases h0 : q 0 = []
        · refine .inl ⟨?_, ?_, ?_⟩
          · simp [pickNext, hh, h0, h1, h2, h3]
          · simp [pickNext, hh, h0, h1, h2, h3]
          · intro l
            fin_cases l <;> assumption
        · refine .inr (hpop 0 h0 (fun l hl => ?_) (by simp [pickNext, hh, h0, h1, h2, h3]))
          rcases above_zero l hl with rfl | rfl | rfl <;> assumption
      · refine .inr (hpop 1 h1 (fun l hl => ?_) (by simp [pickNext, hh, h1, h2, h3]))
        rcases above_one l hl with rfl | rfl <;> assumption
    · refine .inr (hpop 2 h2 (fun l hl => ?_) (by simp [pickNext, hh, h2, h3]))
      rw [above_two l hl, h3]
  · refine .inr (hpop 3 h3 (fun l hl => ?_) (by simp [pickNext, hh, h3]))
    exact absurd hl (above_three l)

end TP2Kernel.Proofs
