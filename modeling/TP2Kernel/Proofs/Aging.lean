import TP2Kernel.Proofs.ReadyQueues

/-!
# Aging of the ready queues

`apply_aging` walks the four queues, unlinks every process that its new aging promotes and
then puts the promoted processes back. The walk keeps the promoted processes in a queue of
their own, apart from the ready queues.
-/

namespace TP2Kernel.Proofs
open Function LinkedList

/-- Only the ready queues and PCBs differ. -/
def SchedWrite (k k' : Kernel) : Prop :=
  k' = { k with
    queueNext := k'.queueNext, readyHead := k'.readyHead, readyTail := k'.readyTail
    procs := k'.procs }

lemma SchedWrite.refl (k : Kernel) : SchedWrite k k := rfl

lemma SchedWrite.trans {k k' k'' : Kernel} (h : SchedWrite k k') (h' : SchedWrite k' k'') :
    SchedWrite k k'' := by
  unfold SchedWrite at *
  rw [h', h]

lemma QueueWrite.procs_eq {k k' : Kernel} (h : QueueWrite k k') : k'.procs = k.procs := by
  unfold QueueWrite at h
  rw [h]

lemma QueueWrite.schedWrite {k k' : Kernel} (h : QueueWrite k k') : SchedWrite k k' := by
  unfold QueueWrite at h
  unfold SchedWrite
  rw [h]

/-- What `apply_aging` makes of the PCB of a queued process. -/
def aged (c : Pcb) : Pcb :=
  if promotes c then { c with priority := c.priority + 1, agingTicks := 0 }
  else { c with agingTicks := agedTicks c }

/-- The ready queues hold `q`, the promoted list holds `pr`, and no process is in both. -/
structure AgingInv (a : Promoted) (q : Fin maxPrios → List Slot) (pr : List Slot) : Prop where
  queues : ReadyQueues a.k q
  promoted : IsQueue a.k.queueNext a.head a.tail pr
  apart : ∀ p ∈ pr, ∀ l, p ∉ q l

/-- Adding a node behind the tail of a list that may be empty. -/
lemma isQueue_append {next : Slot → Option Slot} {head tail : Option Slot} {l : List Slot}
    {a : Slot} (h : IsQueue next head tail l) (ha : a ∉ l) (hn : next a = none) :
    IsQueue (spliceNext next tail (some a)) (spliceHead head tail (some a)) (some a) (l ++ [a]) := by
  cases tail with
  | none =>
    have hl : l = [] := List.getLast?_eq_none_iff.mp h.tail_eq.symm
    subst hl
    exact ⟨by simp [hn], by simp⟩
  | some t => exact h.push ha hn

lemma promote_procs (lv : Fin maxPrios) (prev : Option Slot) (p : Slot) (a : Promoted) :
    (promote lv prev p a).k.procs = update a.k.procs p
      { a.k.procs p with priority := (a.k.procs p).priority + 1, agingTicks := 0 } := by
  simp only [promote, Kernel.modify]
  split <;> rfl

lemma promote_write (lv : Fin maxPrios) (prev : Option Slot) (p : Slot) (a : Promoted) :
    SchedWrite a.k (promote lv prev p a).k := by
  simp only [promote, Kernel.modify]
  split <;> rfl

lemma promote_inv {lv : Fin maxPrios} {p : Slot} {a : Promoted} {q : Fin maxPrios → List Slot}
    {pr kept rest : List Slot} (h : AgingInv a q pr) (hq : q lv = kept ++ p :: rest) :
    AgingInv (promote lv kept.getLast? p a) (update q lv (kept ++ rest)) (pr ++ [p]) := by
  have hp : p ∈ q lv := by simp [hq]
  have hpr : p ∉ pr := fun hm => h.apart p hm lv hp
  have hkept : ∀ x ∈ kept, x ∈ q lv := fun x hx => by simp [hq, hx]
  -- the ready queues once `p` is unlinked, with the link of `p` cleared
  obtain ⟨k1, hk1⟩ : ∃ k1 : Kernel, k1 = { a.k with
      queueNext := update (spliceNext a.k.queueNext kept.getLast? (a.k.queueNext p)) p none
      readyHead := update a.k.readyHead lv
        (spliceHead (a.k.readyHead lv) kept.getLast? (a.k.queueNext p))
      readyTail := update a.k.readyTail lv
        (if a.k.readyTail lv = some p then kept.getLast? else a.k.readyTail lv) } := ⟨_, rfl⟩
  have hs : ReadyQueues k1 _ := splice_queues h.queues hq (by rw [hk1]) (by rw [hk1]) (by rw [hk1])
  have hpn : k1.queueNext p = none := by rw [hk1]; exact update_self _ _ _
  have hpro : IsQueue k1.queueNext a.head a.tail pr := by
    apply h.promoted.congr
    intro x hx
    have hxp : x ≠ p := fun he => hpr (he ▸ hx)
    have hxk : x ∉ kept := fun hm => h.apart x hx lv (hkept x hm)
    simp only [hk1]
    rw [update_of_ne hxp, spliceNext_of_notMem _ _ _ hxk]
  have hnext : (promote lv kept.getLast? p a).k.queueNext =
      spliceNext k1.queueNext a.tail (some p) := by
    simp only [promote, Kernel.modify, hk1]
    split <;> rfl
  have hhead : (promote lv kept.getLast? p a).k.readyHead = k1.readyHead := by
    simp only [promote, Kernel.modify, hk1]
    split <;> rfl
  have htail : (promote lv kept.getLast? p a).k.readyTail = k1.readyTail := by
    simp only [promote, Kernel.modify, hk1]
    split
    · rfl
    · rw [update_eq_self]
  have hout : ∀ x ∈ update q lv (kept ++ rest) lv, x ∈ q lv := by
    intro x hx
    simp only [update_self, List.mem_append] at hx
    simp only [hq, List.mem_append, List.mem_cons]
    tauto
  have happart : ∀ x ∈ pr, ∀ l, x ∉ update q lv (kept ++ rest) l := by
    intro x hx l hxl
    by_cases hl : l = lv
    · subst hl
      exact h.apart x hx l (hout x hxl)
    · exact h.apart x hx l (by simpa [hl] using hxl)
  refine ⟨⟨fun l => ?_, hs.disjoint⟩, ?_, ?_⟩
  · rw [hnext, hhead, htail, h.promoted.tail_eq]
    apply (hs.queue l).congr
    intro x hx
    exact spliceNext_of_notMem _ _ _ fun hm => happart x hm l hx
  · rw [hnext]
    exact isQueue_append hpro hpr hpn
  · intro x hx l
    rcases List.mem_append.mp hx with hx | hx
    · exact happart x hx l
    · obtain rfl : x = p := by simpa using hx
      have hnd := (h.queues.queue lv).nodup
      rw [hq] at hnd
      by_cases hl : l = lv
      · subst hl
        rw [update_self]
        grind
      · rw [update_of_ne hl]
        exact h.queues.disjoint lv l (Ne.symm hl) x hp

/-- The walk over one level moves the promoted processes of that level, in order, behind
the promoted ones of the levels before. -/
theorem agingLoop_inv {lv : Fin maxPrios} {n : Nat} {a : Promoted}
    {q : Fin maxPrios → List Slot} {pr kept rest : List Slot} (h : AgingInv a q pr)
    (hq : q lv = kept ++ rest) (hn : rest.length ≤ n) :
    AgingInv (agingLoop lv n kept.getLast? rest.head? a)
        (update q lv (kept ++ rest.filter fun p => !promotes (a.k.procs p)))
        (pr ++ rest.filter fun p => promotes (a.k.procs p)) ∧
      (agingLoop lv n kept.getLast? rest.head? a).k.procs =
        (fun p => if p ∈ rest then aged (a.k.procs p) else a.k.procs p) ∧
      SchedWrite a.k (agingLoop lv n kept.getLast? rest.head? a).k := by
  induction rest generalizing n a q pr kept with
  | nil =>
    have hk : agingLoop lv n kept.getLast? none a = a := by cases n <;> rfl
    rw [List.head?_nil, hk]
    refine ⟨by simpa [← hq] using h, by simp, .refl _⟩
  | cons p rest ih =>
    obtain ⟨n, rfl⟩ : ∃ m, n = m + 1 := ⟨n - 1, by simp only [List.length_cons] at hn; omega⟩
    have hnd := (h.queues.queue lv).nodup
    rw [hq] at hnd
    have hp : p ∉ rest := by grind
    have hnext : a.k.queueNext p = rest.head? := by
      have hc := (h.queues.queue lv).chain
      rw [hq] at hc
      exact isChain_head_eq (isChain_suffix hc).2
    have hlen : rest.length ≤ n := by simpa using hn
    simp only [List.head?_cons, agingLoop, hnext]
    by_cases hpr : promotes (a.k.procs p)
    · rw [if_pos hpr]
      have hothers : ∀ x ∈ rest, (promote lv kept.getLast? p a).k.procs x = a.k.procs x := by
        intro x hx
        rw [promote_procs, update_of_ne]
        exact fun he => hp (he ▸ hx)
      obtain ⟨h1, h2, h3⟩ := ih (promote_inv h hq) (by rw [update_self]) hlen
      refine ⟨?_, ?_, (promote_write _ _ _ _).trans h3⟩
      · have e1 : (rest.filter fun x => !promotes ((promote lv kept.getLast? p a).k.procs x)) =
            (p :: rest).filter fun x => !promotes (a.k.procs x) := by
          rw [List.filter_cons_of_neg (by simp [hpr])]
          exact List.filter_congr fun x hx => by rw [hothers x hx]
        have e2 : pr ++ [p] ++ (rest.filter fun x =>
            promotes ((promote lv kept.getLast? p a).k.procs x)) =
            pr ++ (p :: rest).filter fun x => promotes (a.k.procs x) := by
          rw [List.filter_cons_of_pos (by simp [hpr]), List.append_assoc, List.singleton_append]
          exact congrArg _ (congrArg _ (List.filter_congr fun x hx => by rw [hothers x hx]))
        rw [e1, e2, update_idem] at h1
        exact h1
      · rw [h2]
        funext x
        by_cases hx : x ∈ rest
        · simp [hx, hothers x hx]
        · by_cases hxp : x = p
          · subst hxp
            simp [hx, promote_procs, aged, hpr]
          · simp [hx, hxp, promote_procs]
    · rw [if_neg hpr]
      have hinv : AgingInv { a with k := a.k.modify p fun c => { c with agingTicks := agedTicks c } }
          q pr := ⟨h.queues.of_eq rfl rfl rfl, h.promoted, h.apart⟩
      have hothers : ∀ x ∈ rest,
          (a.k.modify p fun c => { c with agingTicks := agedTicks c }).procs x = a.k.procs x := by
        intro x hx
        exact Kernel.modify_procs_of_ne _ _ fun he => hp (he ▸ hx)
      have hq' : q lv = (kept ++ [p]) ++ rest := by simpa using hq
      obtain ⟨h1, h2, h3⟩ := ih hinv hq' hlen
      simp only [List.getLast?_append, List.getLast?_singleton, Option.some_or] at h1 h2 h3
      refine ⟨?_, ?_, h3⟩
      · have e1 : kept ++ [p] ++ (rest.filter fun x => !promotes
            ((a.k.modify p fun c => { c with agingTicks := agedTicks c }).procs x)) =
            kept ++ (p :: rest).filter fun x => !promotes (a.k.procs x) := by
          rw [List.filter_cons_of_pos (by simp [hpr]), List.append_assoc, List.singleton_append]
          exact congrArg _ (congrArg _ (List.filter_congr fun x hx => by rw [hothers x hx]))
        have e2 : (rest.filter fun x => promotes
            ((a.k.modify p fun c => { c with agingTicks := agedTicks c }).procs x)) =
            (p :: rest).filter fun x => promotes (a.k.procs x) := by
          rw [List.filter_cons_of_neg (by simp [hpr])]
          exact List.filter_congr fun x hx => by rw [hothers x hx]
        rw [e1, e2] at h1
        exact h1
      · rw [h2]
        funext x
        by_cases hx : x ∈ rest
        · simp [hx, hothers x hx]
        · by_cases hxp : x = p
          · subst hxp
            simp [hx, aged, hpr]
          · simp [hx, hxp, Kernel.modify_procs_of_ne]

/-- The ready queues without the promoted processes. -/
def keptQueues (c : Slot → Pcb) (q : Fin maxPrios → List Slot) (l : Fin maxPrios) : List Slot :=
  (q l).filter fun p => !promotes (c p)

/-- The promoted processes in the order of the walk, lowest level first. -/
def promotedList (c : Slot → Pcb) (q : Fin maxPrios → List Slot) : List Slot :=
  [0, 1, 2, 3].flatMap fun l => (q l).filter fun p => promotes (c p)

/-- The PCBs after the walk over the levels in `ls`. -/
def agedProcs (c : Slot → Pcb) (q : Fin maxPrios → List Slot) (ls : List (Fin maxPrios))
    (p : Slot) : Pcb :=
  if ∃ l ∈ ls, p ∈ q l then aged (c p) else c p

lemma agingLevels_inv {ls : List (Fin maxPrios)} {a : Promoted} {q q0 : Fin maxPrios → List Slot}
    {pr : List Slot} {c : Slot → Pcb} (h : AgingInv a q pr) (hls : ls.Nodup)
    (hq : ∀ l ∈ ls, q l = q0 l) (hc : ∀ l ∈ ls, ∀ p ∈ q0 l, a.k.procs p = c p)
    (hd : ∀ l l', l ≠ l' → ∀ p ∈ q0 l, p ∉ q0 l') :
    AgingInv (ls.foldl agingLevel a)
        (fun l => if l ∈ ls then keptQueues c q0 l else q l)
        (pr ++ ls.flatMap fun l => (q0 l).filter fun p => promotes (c p)) ∧
      (ls.foldl agingLevel a).k.procs = agedProcs a.k.procs q0 ls ∧
      SchedWrite a.k (ls.foldl agingLevel a).k := by
  induction ls generalizing a q pr with
  | nil => exact ⟨by simpa using h, by funext p; simp [agedProcs], .refl _⟩
  | cons lv ls ih =>
    obtain ⟨hlv, hls⟩ := List.nodup_cons.mp hls
    have hqlv : q lv = q0 lv := hq lv (by simp)
    have hlen : (q lv).length ≤ maxProcs := by
      simpa using isChain_length_le (h.queues.queue lv).chain
    have hqlv0 : q lv = [] ++ q lv := rfl
    obtain ⟨h1, h2, h3⟩ := agingLoop_inv h hqlv0 hlen
    have hstep : agingLoop lv maxProcs [].getLast? (q lv).head? a = agingLevel a lv := by
      rw [agingLevel, (h.queues.queue lv).head_eq, List.getLast?_nil]
    rw [hstep] at h1 h2 h3
    have hcl : ∀ p ∈ q0 lv, a.k.procs p = c p := hc lv (by simp)
    have hc' : ∀ l ∈ ls, ∀ p ∈ q0 l, (agingLevel a lv).k.procs p = c p := by
      intro l hl p hp
      have hne : l ≠ lv := fun he => hlv (he ▸ hl)
      rw [h2, hqlv]
      simp only [if_neg (hd l lv hne p hp)]
      exact hc l (by simp [hl]) p hp
    have hq' : ∀ l ∈ ls, update q lv ([] ++ (q lv).filter fun p => !promotes (a.k.procs p)) l =
        q0 l := by
      intro l hl
      have hne : l ≠ lv := fun he => hlv (he ▸ hl)
      rw [update_of_ne hne, hq l (by simp [hl])]
    obtain ⟨i1, i2, i3⟩ := ih h1 hls hq' hc'
    refine ⟨?_, ?_, h3.trans i3⟩
    · have e1 : ∀ p ∈ q lv, promotes (a.k.procs p) = promotes (c p) :=
        fun p hp => by rw [hcl p (hqlv ▸ hp)]
      have e2 : (fun l => if l ∈ ls then keptQueues c q0 l else update q lv
          ([] ++ (q lv).filter fun p => !promotes (a.k.procs p)) l) =
          fun l => if l ∈ lv :: ls then keptQueues c q0 l else q l := by
        funext l
        by_cases hl : l = lv
        · subst hl
          simp only [hlv, if_false, update_self, List.nil_append, List.mem_cons, true_or, if_true,
            keptQueues, ← hqlv]
          exact List.filter_congr fun p hp => by rw [e1 p hp]
        · simp [hl]
      have e3 : (q lv).filter (fun p => promotes (a.k.procs p)) =
          (q0 lv).filter fun p => promotes (c p) := by
        rw [← hqlv]
        exact List.filter_congr fun p hp => e1 p hp
      simp only [List.foldl_cons, List.flatMap_cons]
      rw [e2, e3, List.append_assoc] at i1
      exact i1
    · rw [List.foldl_cons, i2, h2, hqlv]
      funext p
      by_cases hp : p ∈ q0 lv
      · have hno : ¬∃ l ∈ ls, p ∈ q0 l := fun ⟨l, hl, hpl⟩ =>
          hd lv l (fun he => hlv (he ▸ hl)) p hp hpl
        simp [agedProcs, hp, hno]
      · simp [agedProcs, hp]

/-- Push processes one after the other, each to the queue of its priority. -/
def pushAll (c : Slot → Pcb) : List Slot → (Fin maxPrios → List Slot) → Fin maxPrios → List Slot
  | [], q => q
  | p :: ps, q => pushAll c ps
      (update q (level (c p).priority) (q (level (c p).priority) ++ [p]))

lemma mem_pushAll {c : Slot → Pcb} {ps : List Slot} {q : Fin maxPrios → List Slot}
    {l : Fin maxPrios} {x : Slot} :
    x ∈ pushAll c ps q l ↔ x ∈ q l ∨ (x ∈ ps ∧ level (c x).priority = l) := by
  induction ps generalizing q with
  | nil => simp [pushAll]
  | cons p ps ih =>
    rw [pushAll, ih]
    by_cases hl : l = level (c p).priority
    · subst hl
      by_cases hx : x = p
      · simp [hx]
      · simp [hx]
    · rw [update_of_ne hl]
      by_cases hx : x = p
      · subst hx
        simp [Ne.symm hl]
      · simp [hx]

lemma qPush_next {k : Kernel} {p x : Slot} (hx : x ≠ p)
    (ht : ∀ l, k.readyTail l ≠ some x) : (qPush k p).queueNext x = k.queueNext x := by
  unfold qPush
  dsimp only
  split
  · simp [hx]
  · rename_i t _ htl
    have htx : x ≠ t := fun he => ht _ (he ▸ htl)
    simp [hx, htx]
  · simp [hx]

theorem requeueLoop_queues {k : Kernel} {q : Fin maxPrios → List Slot} {pr : List Slot} {n : Nat}
    (h : ReadyQueues k q) (hp : IsChain k.queueNext pr.head? pr) (ha : ∀ p ∈ pr, ∀ l, p ∉ q l)
    (hn : pr.length ≤ n) :
    ReadyQueues (requeueLoop n pr.head? k) (pushAll k.procs pr q) ∧
      QueueWrite k (requeueLoop n pr.head? k) := by
  induction pr generalizing n k q with
  | nil =>
    have hk : requeueLoop n none k = k := by cases n <;> rfl
    rw [List.head?_nil, hk]
    exact ⟨h, .refl _⟩
  | cons p pr ih =>
    obtain ⟨n, rfl⟩ : ∃ m, n = m + 1 := ⟨n - 1, by simp only [List.length_cons] at hn; omega⟩
    have hlen : pr.length ≤ n := by simpa using hn
    have hnd := isChain_nodup hp
    have hppr : p ∉ pr := by grind
    simp only [List.head?_cons, requeueLoop]
    have hnext : k.queueNext p = pr.head? := isChain_head_eq hp.2
    rw [hnext]
    obtain ⟨k1, hk1⟩ : ∃ k1 : Kernel, k1 = { k with queueNext := update k.queueNext p none } :=
      ⟨_, rfl⟩
    rw [← hk1]
    have h1 : ReadyQueues k1 q := hk1 ▸ h.update_next (ha p (by simp)) none
    have h2 := qPush_queues h1 (ha p (by simp))
    have hw := qPush_write k1 p
    have hpr : k1.procs = k.procs := by rw [hk1]
    have hc : IsChain (qPush k1 p).queueNext pr.head? pr := by
      refine (isChain_congr fun x hx => ?_).mpr (hnext ▸ hp.2)
      have hxp : x ≠ p := fun he => hppr (he ▸ hx)
      rw [qPush_next hxp, hk1]
      · exact update_of_ne hxp _ _
      · intro l ht
        have hm : x ∈ q l := List.mem_of_getLast? ((h1.queue l).tail_eq.symm.trans ht)
        exact ha x (by simp [hx]) l hm
    have ha' : ∀ x ∈ pr, ∀ l, x ∉ update q (level (k1.procs p).priority)
        (q (level (k1.procs p).priority) ++ [p]) l := by
      intro x hx l hm
      have hxp : x ≠ p := fun he => hppr (he ▸ hx)
      by_cases hl : l = level (k1.procs p).priority
      · subst hl
        simp only [update_self, List.mem_append, List.mem_singleton] at hm
        rcases hm with hm | hm
        · exact ha x (by simp [hx]) _ hm
        · exact hxp hm
      · rw [update_of_ne hl] at hm
        exact ha x (by simp [hx]) l hm
    obtain ⟨i1, i2⟩ := ih h2 hc ha' hlen
    refine ⟨?_, .trans (.trans ?_ hw) i2⟩
    · rw [hw.procs_eq, hpr] at i1
      exact i1
    · rw [hk1]
      rfl

/-- The ready queues after `apply_aging`. -/
def agedQueues (c : Slot → Pcb) (q : Fin maxPrios → List Slot) : Fin maxPrios → List Slot :=
  pushAll (agedProcs c q [0, 1, 2, 3]) (promotedList c q) (keptQueues c q)

/-- `apply_aging` ages every queued process and moves the promoted ones to the queue of
their new priority. -/
theorem applyAging_queues {k : Kernel} {q : Fin maxPrios → List Slot} (h : ReadyQueues k q) :
    ReadyQueues (applyAging k) (agedQueues k.procs q) ∧
      (applyAging k).procs = agedProcs k.procs q [0, 1, 2, 3] ∧ SchedWrite k (applyAging k) := by
  have h0 : AgingInv { k := k, head := none, tail := none } q [] := ⟨h, ⟨rfl, rfl⟩, by simp⟩
  obtain ⟨h1, h2, h3⟩ := @agingLevels_inv [0, 1, 2, 3] _ q q _ k.procs h0
    (by decide) (fun _ _ => rfl) (fun _ _ _ _ => rfl) h.disjoint
  have hall : ∀ l : Fin maxPrios, l ∈ [(0 : Fin maxPrios), 1, 2, 3] := by decide
  simp only [hall, if_true, List.nil_append] at h1
  have hhead := isChain_head_eq h1.promoted.chain
  have hlen : (promotedList k.procs q).length ≤ maxProcs :=
    (isChain_length_le h1.promoted.chain).trans_eq (Fintype.card_fin _)
  obtain ⟨r1, r2⟩ := requeueLoop_queues h1.queues (hhead ▸ h1.promoted.chain) h1.apart hlen
  rw [← hhead] at r1 r2
  refine ⟨?_, ?_, h3.trans r2.schedWrite⟩
  · rw [h2] at r1
    exact r1
  · exact r2.procs_eq.trans h2

end TP2Kernel.Proofs
