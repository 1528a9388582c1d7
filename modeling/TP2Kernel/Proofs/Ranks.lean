import TP2Kernel.Proofs.Priorities

/-!
# Ranks of waiting processes

A selection lowers the rank of every queued process that it does not dispatch, and the actions of
other processes do not raise it.
-/

namespace TP2Kernel.Proofs
open Function LinkedList FeedbackQueue

variable {k k' : Kernel} {q q' : Levels maxPrios Slot} {p x cur idle : Slot} {s : Scope}
  {σ σ' : System} {e : Event} {c : Prop}

lemma rank_top (hq : ReadyQueues k q) (h : ¬(k.procs p).priority < highestPrio) :
    rank k p = ((q 3).idxOf p : Nat) := by
  have hlen : (q 3).length ≤ maxProcs := by
    have h1 := isChain_length_le (hq.queue 3).chain
    rwa [Fintype.card_fin] at h1
  rw [rank, if_neg h, follow_eq (hq.queue 3).chain hlen]

lemma rank_low (h : (k.procs p).priority < highestPrio) : rank k p =
    (highestPrio - (k.procs p).priority) * agingThreshold - (k.procs p).agingTicks + maxProcs := by
  rw [rank, if_pos h]

lemma idxOf_lt_maxProcs (hq : ReadyQueues k q) {l : Fin maxPrios} (hp : p ∈ q l) :
    (q l).idxOf p < maxProcs := by
  have h1 := isChain_length_le (hq.queue l).chain
  rw [Fintype.card_fin] at h1
  exact (List.idxOf_lt_length_of_mem hp).trans_le h1

/-- The rank of a waiting process is between 0 and 30 + `MAX_PROCS`. -/
lemma rank_bounds (h : Consistent k) (ha : AgesBelow k) (hp : Waiting k p) :
    0 ≤ rank k p ∧ rank k p ≤ 30 + maxProcs := by
  obtain ⟨q, hq⟩ := h
  obtain ⟨⟨h0, h3⟩, -⟩ := hq.range p hp.1
  simp only [minPrio, highestPrio] at h0 h3
  by_cases hl : (k.procs p).priority < highestPrio
  · obtain ⟨h1, h2⟩ := ha p hp.1 hp.2 hl
    rw [rank_low hl]
    simp only [highestPrio, agingThreshold, maxProcs] at hl h1 h2 ⊢
    omega
  · obtain ⟨l, hm⟩ := (hq.ready p).mpr ⟨id, hp⟩
    have hl3 : l = 3 := by
      have hpl := hq.place l p hm
      simp only [highestPrio] at hl
      ext
      have := l.isLt
      simp only [maxPrios] at this
      change l.val = 3
      omega
    subst hl3
    have hlt := idxOf_lt_maxProcs hq.queues hm
    rw [rank_top hq.queues hl]
    simp only [maxProcs] at hlt ⊢
    omega

/-- Putting the previous process back changes nothing for a waiting one. -/
lemma returnedProcs_waiting (hp : Waiting k p) (rsp : Frame) :
    (returnedProcs k cur rsp p).priority = (k.procs p).priority ∧
      (returnedProcs k cur rsp p).agingTicks = (k.procs p).agingTicks ∧
      (returnedProcs k cur rsp p).used = (k.procs p).used ∧
      (returnedProcs k cur rsp p).state = .ready := by
  by_cases hx : p = cur
  · subst hx
    have hr : ¬requeued k p p := fun h => by simpa [hp.2] using h.2.1
    unfold returnedProcs
    dsimp only
    rw [if_pos rfl, if_neg hr]
    split
    · exact ⟨rfl, rfl, rfl, hp.2⟩
    · exact ⟨rfl, rfl, rfl, hp.2⟩
  · rw [returnedProcs_of_ne rsp hx]
    exact ⟨rfl, rfl, rfl, hp.2⟩

lemma returnedQueues_idxOf {l : Fin maxPrios} (hp : p ∈ q l) :
    p ∈ returnedQueues k cur q l ∧ (returnedQueues k cur q l).idxOf p = (q l).idxOf p := by
  unfold returnedQueues
  split
  · by_cases hl : l = level (k.procs cur).basePriority
    · rw [← hl, append, update_self]
      exact ⟨List.mem_append_left _ hp, List.idxOf_append_of_mem hp⟩
    · rw [append, update_of_ne hl]
      exact ⟨hp, rfl⟩
  · exact ⟨hp, rfl⟩

/-- A selection that does not dispatch a waiting process lowers its rank. -/
theorem schedule_rank (h : QueuedOff (fun _ => False) k q) (ha : AgesBelow k)
    (hsel : AtSelection k cur) (hp : Waiting k p) (rsp : Frame)
    (hne : (schedule k rsp).1.current ≠ some p) :
    Waiting (schedule k rsp).1 p ∧ rank (schedule k rsp).1 p < rank k p := by
  obtain ⟨l, hm⟩ := (h.ready p).mpr ⟨id, hp⟩
  have hpl := h.place l p hm
  obtain ⟨hm', hidx⟩ := @returnedQueues_idxOf k q p cur l hm
  obtain ⟨hprio, haging, hused, hstate⟩ := @returnedProcs_waiting k p cur hp rsp
  cases schedule_selection h hsel rsp with
  | @process l' next rest _ top queues left passed _ _ _ current =>
    have hpn : p ≠ next := by
      rintro rfl
      exact hne current
    have hpass := passed l p hm' hpn
    have hw : Waiting (schedule k rsp).1 p := by
      rw [Waiting, hpass]
      exact ⟨hused.trans hp.1, hstate⟩
    refine ⟨hw, ?_⟩
    have hpr : ((schedule k rsp).1.procs p).priority = (k.procs p).priority +
        if rises (fun p => ripe (returnedProcs k cur rsp p)) l p then 1 else 0 := by
      rw [hpass, TP2Kernel.Proofs.passed]
      dsimp only
      rw [hprio]
      split
      · rfl
      · rw [add_zero]
    have hag : ((schedule k rsp).1.procs p).agingTicks =
        if rises (fun p => ripe (returnedProcs k cur rsp p)) l p then 0
        else min ((k.procs p).agingTicks + 1) agingThreshold := by
      rw [hpass, TP2Kernel.Proofs.passed, haging]
    by_cases htop : l.val + 1 = maxPrios
    · -- On the highest level the process moves one step forward.
      have hr : rises (fun p => ripe (returnedProcs k cur rsp p)) l p = false := by
        simp [rises, htop]
      rw [hr] at hpr
      obtain ⟨rfl, hi⟩ := top.idxOf_rest htop hm' hpn
      have hl3 : l' = 3 := by
        ext
        exact Nat.succ.inj htop
      subst hl3
      have hnl : ¬(k.procs p).priority < highestPrio := by
        rw [hpl, highestPrio]
        decide
      rw [rank_top queues (by simpa [hpr] using hnl), rank_top h.queues hnl, update_self]
      omega
    · have hlt : (k.procs p).priority < highestPrio := by
        rw [hpl, highestPrio]
        have := l.isLt
        simp only [maxPrios] at this htop
        omega
      obtain ⟨ha0, ha9⟩ := ha p hp.1 hp.2 hlt
      rw [rank_low hlt]
      by_cases hr : rises (fun p => ripe (returnedProcs k cur rsp p)) l p = true
      · have hripe : agingThreshold ≤ (k.procs p).agingTicks + 1 := by
          rw [rises, Bool.and_eq_true, ripe, decide_eq_true_eq, decide_eq_true_eq] at hr
          rw [← haging]
          exact hr.2
        rw [if_pos hr] at hpr hag
        by_cases h3 : ((schedule k rsp).1.procs p).priority < highestPrio
        · rw [rank_low h3, hpr, hag]
          simp only [highestPrio, agingThreshold, maxProcs] at *
          omega
        · have hl1 : l.val + 1 = (3 : Fin maxPrios).val := by
            have hl4 : l.val < 4 := l.isLt
            have hl3 : l.val + 1 ≠ 4 := htop
            simp only [hpr, hpl, highestPrio] at h3
            change l.val + 1 = 3
            omega
          have hraise : p ∈ raise (fun p => ripe (returnedProcs k cur rsp p))
              (returnedQueues k cur q) 3 := by
            rw [rises, Bool.and_eq_true] at hr
            exact mem_raise.mpr (.inr ⟨l, hl1, hm', hr.2⟩)
          obtain rfl : l' = 3 := le_antisymm (Fin.le_last l') (top.level_le hraise)
          rw [top.head] at hraise
          have hrest := (List.mem_cons.mp hraise).resolve_left hpn
          rw [← @update_self _ _ _ 3 rest
            (raise (fun p => ripe (returnedProcs k cur rsp p)) (returnedQueues k cur q))] at hrest
          have hidx3 := idxOf_lt_maxProcs queues hrest
          rw [rank_top queues h3, hpl]
          have hl2 : (l.val : Int) = 2 := by
            have : l.val = 2 := Nat.succ.inj hl1
            rw [this]
            rfl
          rw [hl2]
          simp only [highestPrio, agingThreshold, maxProcs] at *
          omega
      · rw [if_neg hr] at hpr hag
        rw [add_zero] at hpr
        rw [rank_low (by rwa [hpr]), hpr, hag, min_eq_left (by omega)]
        omega
  | idle empty =>
    rw [empty l] at hm'
    cases hm'
  | stuck empty =>
    rw [empty l] at hm'
    cases hm'

lemma returnedProcs_ages (ha : AgesBelow k) (rsp : Frame)
    (hu : (returnedProcs k cur rsp x).used) (hr : (returnedProcs k cur rsp x).state = .ready)
    (hl : (returnedProcs k cur rsp x).priority < highestPrio) :
    0 ≤ (returnedProcs k cur rsp x).agingTicks ∧
      (returnedProcs k cur rsp x).agingTicks < agingThreshold := by
  by_cases hx : requeued k cur x
  · obtain rfl := hx.1
    rw [(returnedProcs_self k x rsp).2.2.1, if_pos hx]
    decide
  · have hk : (returnedProcs k cur rsp x).used = (k.procs x).used ∧
        (returnedProcs k cur rsp x).state = (k.procs x).state := by
      by_cases hc : x = cur
      · subst hc
        unfold returnedProcs
        dsimp only
        rw [if_pos rfl, if_neg hx]
        split
        · exact ⟨rfl, rfl⟩
        · exact ⟨rfl, rfl⟩
      · rw [returnedProcs_of_ne rsp hc]
        exact ⟨rfl, rfl⟩
    rw [hk.1] at hu
    rw [hk.2] at hr
    obtain ⟨hp, hg, -⟩ := @returnedProcs_waiting k x cur ⟨hu, hr⟩ rsp
    rw [hp] at hl
    rw [hg]
    exact ha x hu hr hl

lemma selection_ages {r : Kernel × Option Frame} {rsp : Frame}
    (h : QueuedOff (fun _ => False) k q) (ha : AgesBelow k)
    (hs : Selection k cur (returnedProcs k cur rsp) (returnedQueues k cur q) r) :
    AgesBelow r.1 := by
  intro x hu hr hl
  have hc := @returnedProcs_ages k x cur ha rsp
  cases hs with
  | @process l' next _ _ _ _ _ passed rest _ _ _ pcb =>
    have hxn : x ≠ next := by
      rintro rfl
      rw [pcb] at hr
      cases hr
    by_cases hx : ∃ l, x ∈ returnedQueues k cur q l
    · obtain ⟨l, hm⟩ := hx
      have hripe := (returned_ready h rsp hm).2.2.2
      rw [passed l x hm hxn, TP2Kernel.Proofs.passed] at hu hr hl ⊢
      dsimp only at hu hr hl ⊢
      split
      · decide
      · rename_i hnr
        rw [if_neg hnr] at hl
        obtain ⟨h0, h9⟩ := hc hu hr hl
        have hnot : ripe (returnedProcs k cur rsp x) = false := by
          by_contra hrp
          rw [Bool.not_eq_false] at hrp
          have hpl := hripe hrp
          apply hnr
          rw [rises, hrp, Bool.and_true, decide_eq_true_eq]
          simp only [highestPrio] at hl
          simp only [maxPrios]
          omega
        rw [ripe, decide_eq_false_iff_not] at hnot
        omega
    · rw [rest x (fun l hm => hx ⟨l, hm⟩) hxn] at hu hr hl ⊢
      exact hc hu hr hl
  | @idle i _ _ _ _ _ pcb rest =>
    have hxi : x ≠ i := by
      rintro rfl
      rw [pcb] at hr
      cases hr
    rw [rest x hxi] at hu hr hl ⊢
    exact hc hu hr hl
  | stuck _ _ _ _ rest =>
    rw [rest] at hu hr hl ⊢
    exact hc hu hr hl

/-- The same state, priority and aging. -/
def SameTurn (a a' : Pcb) : Prop :=
  a'.used = a.used ∧ a'.state = a.state ∧ a'.priority = a.priority ∧ a'.agingTicks = a.agingTicks

lemma SameTurn.ages (ha : AgesBelow k) (h : SameTurn (k.procs x) (k'.procs x))
    (hu : (k'.procs x).used) (hr : (k'.procs x).state = .ready)
    (hl : (k'.procs x).priority < highestPrio) :
    0 ≤ (k'.procs x).agingTicks ∧ (k'.procs x).agingTicks < agingThreshold := by
  obtain ⟨e1, e2, e3, e4⟩ := h
  rw [e1] at hu
  rw [e2] at hr
  rw [e3] at hl
  rw [e4]
  exact ha x hu hr hl

/-- The same waiting processes, with the same priorities and aging, in the same queues. -/
structure SameWaits (k k' : Kernel) : Prop where
  procs : ∀ x, SameTurn (k.procs x) (k'.procs x)
  next : k'.queueNext = k.queueNext
  head : k'.readyHead = k.readyHead

lemma SameWaits.rank (h : SameWaits k k') (p : Slot) : rank k' p = rank k p := by
  rw [TP2Kernel.rank, TP2Kernel.rank, (h.procs p).2.2.1, (h.procs p).2.2.2, h.next, h.head]

lemma SameWaits.ages (h : SameWaits k k') (ha : AgesBelow k) : AgesBelow k' :=
  fun x => (h.procs x).ages ha

lemma SameWaits.waiting (h : SameWaits k k') (hp : Waiting k p) : Waiting k' p := by
  rw [Waiting, (h.procs p).1, (h.procs p).2.1]
  exact hp

lemma sameWaits_modify (k : Kernel) (p : Slot) {f : Pcb → Pcb}
    (hf : SameTurn (k.procs p) (f (k.procs p))) : SameWaits k (k.modify p f) := by
  refine ⟨fun x => ?_, rfl, rfl⟩
  rw [Kernel.modify_procs]
  split
  · rename_i hx
    rw [hx]
    exact hf
  · exact ⟨rfl, rfl, rfl, rfl⟩

/-- A call that does not get to the selection. -/
lemma schedule_stays (hsel : ¬∃ cur, AtSelection k cur) (rsp : Frame) :
    SameWaits k (schedule k rsp).1 := by
  by_cases hon : k.schedulerEnabled = true ∧ k.current ≠ none
  · obtain ⟨he, hcur⟩ := hon
    obtain ⟨cur, hc⟩ := Option.ne_none_iff_exists'.mp hcur
    have hgo : (k.procs cur).state = .running ∧ 1 < (k.procs cur).ticksLeft := by
      by_contra hno
      exact hsel ⟨cur, he, hc, hno⟩
    have h0 : 0 < (saved rsp (k.procs cur)).ticksLeft := by
      simp only [saved]
      split
      · omega
      · omega
    rw [schedule_some he hc, if_pos ⟨h0, hgo.1⟩]
    exact sameWaits_modify k cur ⟨rfl, rfl, rfl, rfl⟩
  · rw [schedule_off hon]
    exact ⟨fun _ => ⟨rfl, rfl, rfl, rfl⟩, rfl, rfl⟩

/-- The aging of all stays below the threshold and, where `c` holds, `n` selections pass the
process `p` by. -/
structure Waits (c : Prop) (p : Slot) (n : Nat) (k k' : Kernel) : Prop where
  ages : AgesBelow k'
  waiting : c → Waiting k p → Waiting k' p ∧ rank k' p + n ≤ rank k p

lemma Waits.refl (ha : AgesBelow k) : Waits c p 0 k k := ⟨ha, fun _ hp => ⟨hp, by simp⟩⟩

lemma Waits.trans {k'' : Kernel} {m n : Nat} (h : Waits c p m k k') (h' : Waits c p n k' k'') :
    Waits c p (m + n) k k'' := by
  refine ⟨h'.ages, fun hc hp => ?_⟩
  obtain ⟨hp1, hr1⟩ := h.waiting hc hp
  obtain ⟨hp2, hr2⟩ := h'.waiting hc hp1
  refine ⟨hp2, ?_⟩
  push_cast
  omega

lemma Waits.mono {m n : Nat} (h : Waits c p n k k') (hmn : m ≤ n) : Waits c p m k k' := by
  refine ⟨h.ages, fun hc hp => ?_⟩
  obtain ⟨hp1, hr1⟩ := h.waiting hc hp
  exact ⟨hp1, by omega⟩

lemma SameWaits.waits (h : SameWaits k k') (ha : AgesBelow k) : Waits c p 0 k k' :=
  ⟨h.ages ha, fun _ hp => ⟨h.waiting hp, by rw [h.rank p]; simp⟩⟩

theorem schedule_waits (h : Consistent k) (ha : AgesBelow k) (hsel : AtSelection k cur)
    (rsp : Frame) (hne : c → (schedule k rsp).1.current ≠ some p) :
    Waits c p 1 k (schedule k rsp).1 := by
  obtain ⟨q, hq⟩ := h
  refine ⟨selection_ages hq ha (schedule_selection hq hsel rsp), fun hc hp => ?_⟩
  obtain ⟨hw, hr⟩ := schedule_rank hq ha hsel hp rsp (hne hc)
  exact ⟨hw, by push_cast; omega⟩

lemma sameTurn_of_sched {a a' : Pcb} (h : SameSched a a') : SameTurn a a' :=
  ⟨h.used, h.state, h.priority, h.rank.2.2⟩

lemma sameTurn_of_eq {a a' : Pcb} (h : a' = a) : SameTurn a a' := h ▸ ⟨rfl, rfl, rfl, rfl⟩

/-- An action changes nothing about a waiting process that it neither moves nor terminates. -/
lemma act_turn (h : Sound k) (ha : Act s k k') (hm : ¬s.moved x) (ht : ¬s.terminated x)
    (hx : Waiting k x) : SameTurn (k.procs x) (k'.procs x) := by
  have hon := not_off h.on
  cases ha with
  | still h => exact sameTurn_of_sched (h.procs x id)
  | note p _ h hp =>
    by_cases hxp : x = p
    · subst hxp
      exact sameTurn_of_sched hp
    · exact sameTurn_of_sched (h.procs x hxp)
  | kin _ _ _ hp =>
    obtain ⟨parent, e⟩ := hp x
    rw [e]
    exact ⟨rfl, rfl, rfl, rfl⟩
  | sems _ h => exact sameTurn_of_eq (congrFun (congrArg Kernel.procs h :) x)
  | reap p he h =>
    refine sameTurn_of_sched (h.procs x ?_)
    rintro rfl
    simp [hx.2] at he
  | wake p _ _ hb =>
    have hxp : x ≠ p := by
      rintro rfl
      simp [hx.2] at hb
    have hw := schedEnqueue_procs (k := k.modify p readied) p hon
    change SameTurn (k.procs x) ((schedEnqueue (k.modify p readied) p).procs x)
    rw [hw, update_of_ne hxp, Kernel.modify_procs_of_ne _ _ hxp]
    exact ⟨rfl, rfl, rfl, rfl⟩
  | retire p hs _ h =>
    have hxp : x ≠ p := fun hxp => ht (hxp ▸ hs)
    have h1 := h.procs x hxp
    rw [unready_procs] at h1
    exact sameTurn_of_sched h1
  | draft p _ hu _ _ h =>
    refine sameTurn_of_sched (h.procs x ?_)
    rintro rfl
    simp [hx.1] at hu
  | enter p _ hn =>
    have hxp : x ≠ p := by
      rintro rfl
      simp [hx.2] at hn
    rw [schedEnqueue_procs p hon, update_of_ne hxp]
    exact ⟨rfl, rfl, rfl, rfl⟩
  | suspend p hs =>
    have hxp : x ≠ p := fun hxp => hm (hxp ▸ hs)
    rw [Kernel.modify_procs_of_ne _ _ hxp, unready_procs]
    exact ⟨rfl, rfl, rfl, rfl⟩
  | rebase p _ hs =>
    have hxp : x ≠ p := fun hxp => hm (hxp ▸ hs)
    rw [Kernel.modify_procs_of_ne _ _ hxp]
    exact ⟨rfl, rfl, rfl, rfl⟩
  | reprio p _ hs =>
    have hxp : x ≠ p := fun hxp => hm (hxp ▸ hs)
    rw [Kernel.modify_procs_of_ne _ _ hxp]
    exact ⟨rfl, rfl, rfl, rfl⟩
  | requeue p prio hs _ _ _ hr =>
    have hxp : x ≠ p := fun hxp => hm (hxp ▸ hs)
    have hself := @schedEnqueue_self ((schedRemove k p).modify p fun c =>
      { c with priority := prio }) p (not_off_schedRemove h.on hr)
    rw [hself.2.2 x hxp, Kernel.modify_procs_of_ne _ _ hxp, schedRemove_procs]
    exact ⟨rfl, rfl, rfl, rfl⟩

lemma zero_below : 0 ≤ (0 : Int) ∧ (0 : Int) < agingThreshold := by decide

lemma enqueued_ages (hon : ¬(k.schedulerEnabled = false ∧ k.current = none)) (p : Slot)
    (h : x ≠ p → (k.procs x).used → (k.procs x).state = .ready →
      (k.procs x).priority < highestPrio →
      0 ≤ (k.procs x).agingTicks ∧ (k.procs x).agingTicks < agingThreshold)
    (hu : ((schedEnqueue k p).procs x).used) (hr : ((schedEnqueue k p).procs x).state = .ready)
    (hl : ((schedEnqueue k p).procs x).priority < highestPrio) :
    0 ≤ ((schedEnqueue k p).procs x).agingTicks ∧
      ((schedEnqueue k p).procs x).agingTicks < agingThreshold := by
  rw [schedEnqueue_procs p hon] at *
  by_cases hx : x = p
  · subst hx
    rw [update_self]
    exact zero_below
  · rw [update_of_ne hx] at *
    exact h hx hu hr hl

lemma act_ages (h : Sound k) (ha : Act s k k') (hk : AgesBelow k) : AgesBelow k' := by
  have hon := not_off h.on
  intro x hu hr hl
  cases ha with
  | still h => exact (sameTurn_of_sched (h.procs x id)).ages hk hu hr hl
  | note p _ h hp =>
    by_cases hxp : x = p
    · subst hxp
      exact (sameTurn_of_sched hp).ages hk hu hr hl
    · exact (sameTurn_of_sched (h.procs x hxp)).ages hk hu hr hl
  | kin _ _ _ hp =>
    obtain ⟨parent, e⟩ := hp x
    exact SameTurn.ages hk (e ▸ ⟨rfl, rfl, rfl, rfl⟩) hu hr hl
  | sems _ h =>
    exact (sameTurn_of_eq (congrFun (congrArg Kernel.procs h :) x)).ages hk hu hr hl
  | reap p he h hp =>
    by_cases hxp : x = p
    · subst hxp
      rw [hp.state, he] at hr
      cases hr
    · exact (sameTurn_of_sched (h.procs x hxp)).ages hk hu hr hl
  | wake p =>
    refine enqueued_ages (k := k.modify p readied) hon p (fun hxp hu hr hl => ?_) hu hr hl
    rw [Kernel.modify_procs_of_ne _ _ hxp] at hu hr hl ⊢
    exact hk x hu hr hl
  | retire p _ _ h hp =>
    by_cases hxp : x = p
    · subst hxp
      rw [hp.state] at hr
      cases hr
    · have h1 := h.procs x hxp
      rw [unready_procs] at h1
      exact (sameTurn_of_sched h1).ages hk hu hr hl
  | draft p _ _ _ _ h _ hp =>
    by_cases hxp : x = p
    · subst hxp
      rw [hp] at hr
      cases hr
    · exact (sameTurn_of_sched (h.procs x hxp)).ages hk hu hr hl
  | enter p => exact enqueued_ages hon p (fun _ => hk x) hu hr hl
  | suspend p =>
    rw [Kernel.modify_procs, unready_procs] at hu hr hl ⊢
    split at hr
    · cases hr
    · rename_i hxp
      rw [if_neg hxp] at hu hl ⊢
      exact hk x hu hr hl
  | rebase p =>
    rw [Kernel.modify_procs] at hu hr hl ⊢
    split at hr
    · rename_i hxp
      rw [if_pos hxp]
      exact zero_below
    · rename_i hxp
      rw [if_neg hxp] at hu hl ⊢
      exact hk x hu hr hl
  | reprio p _ _ _ _ hn =>
    rw [Kernel.modify_procs] at hu hr hl ⊢
    split at hr
    · exact absurd hr hn
    · rename_i hxp
      rw [if_neg hxp] at hu hl ⊢
      exact hk x hu hr hl
  | requeue p prio _ _ _ _ hrp =>
    refine enqueued_ages (k := (schedRemove k p).modify p fun c => { c with priority := prio })
      (not_off_schedRemove h.on hrp) p (fun hxp hu hr hl => ?_) hu hr hl
    rw [Kernel.modify_procs_of_ne _ _ hxp, schedRemove_procs] at hu hr hl ⊢
    exact hk x hu hr hl

/-- No queue moves the process `p` back. -/
def Forward (p : Slot) (q q' : Levels maxPrios Slot) : Prop :=
  ∀ l, p ∈ q l → p ∈ q' l ∧ (q' l).idxOf p ≤ (q l).idxOf p

lemma Forward.refl (p : Slot) (q : Levels maxPrios Slot) : Forward p q q := fun _ h => ⟨h, le_rfl⟩

lemma Forward.trans {q'' : Levels maxPrios Slot} (h : Forward p q q') (h' : Forward p q' q'') :
    Forward p q q'' := fun l hp =>
  ⟨(h' l (h l hp).1).1, (h' l (h l hp).1).2.trans (h l hp).2⟩

lemma enqueue_forward (hq : ReadyQueues k q) (hx : ∀ l, x ∉ q l)
    (hon : ¬(k.schedulerEnabled = false ∧ k.current = none)) :
    ∃ q', ReadyQueues (schedEnqueue k x) q' ∧ ∀ p, Forward p q q' := by
  rw [schedEnqueue_eq hon]
  generalize hk : ({ k.modify x fun c => { c with
    priority := clampPrio c.priority, state := .ready, ticksLeft := timeSliceTicks
    agingTicks := 0 } with queueNext := update k.queueNext x none } : Kernel) = k1
  have h1 : ReadyQueues k1 q := hk ▸ (hq.update_next hx none).of_eq rfl rfl rfl
  refine ⟨_, qPush_queues h1 hx, fun p l hp => ?_⟩
  by_cases hl : l = level (k1.procs x).priority
  · rw [← hl, update_self, List.idxOf_append_of_mem hp]
    exact ⟨List.mem_append_left _ hp, le_rfl⟩
  · rw [update_of_ne hl]
    exact ⟨hp, le_rfl⟩

lemma remove_forward (h : QueuedOff (fun _ => False) k q) (hr : (k.procs x).state = .ready) :
    ∃ q', ReadyQueues (schedRemove k x) q' ∧ (∀ l, x ∉ q' l) ∧ ∀ p, p ≠ x → Forward p q q' := by
  have hq := (queuedOff_clearCurrent h x).queues
  rw [schedRemove_eq, if_pos hr]
  by_cases hu : (k.procs x).used
  · obtain ⟨l, hl⟩ := (h.ready x).mpr ⟨id, hu, hr⟩
    obtain ⟨h0, h3⟩ := (h.range x hu).1
    have hrem := qRemove_queues (p := x) hq (by rwa [clearCurrent_procs])
      (by rwa [clearCurrent_procs])
    rw [clearCurrent_procs, level_eq (h.place l x hl)] at hrem
    have hmem := mem_erase_queue (hq.queue l).nodup hq.disjoint hl
    refine ⟨_, hrem, fun m hm => ((hmem m x).mp hm).2 rfl, fun p hp m hm => ⟨?_, ?_⟩⟩
    · exact (hmem m p).mpr ⟨hm, hp⟩
    · by_cases hml : m = l
      · rw [hml, update_self]
        exact idxOf_erase_le hp (q l)
      · rw [update_of_ne hml]
  · have hno : ∀ l, x ∉ q l := fun l hl => hu ((h.ready x).mp ⟨l, hl⟩).2.1
    exact ⟨q, qRemove_notMem hq hno, hno, fun p _ => .refl p q⟩

lemma unready_forward (h : QueuedOff (fun _ => False) k q) (x : Slot) :
    ∃ q', ReadyQueues (unready k x) q' ∧ ∀ p, p ≠ x → Forward p q q' := by
  unfold unready
  split
  · rename_i hr
    obtain ⟨q', hq', -, hf⟩ := remove_forward h hr
    exact ⟨q', hq', hf⟩
  · exact ⟨q, h.queues, fun p _ => .refl p q⟩

lemma demoted_forward (h : QueuedOff (fun _ => False) k q) (hen : k.schedulerEnabled = true)
    {prio : Int} (hr : (k.procs x).state = .running) :
    ∃ q', ReadyQueues (demoted k x prio) q' ∧ ∀ p, Forward p q q' := by
  have hout : ∀ l, x ∉ q l := fun l hl => by
    simp [((h.ready x).mp ⟨l, hl⟩).2.2] at hr
  have hw := schedRemove_write (k.modify x fun c => { c with state := .ready }) x
  have hc := clearCurrent_write (k.modify x fun c => { c with state := .ready }) x
  have h1 : ReadyQueues (schedRemove (k.modify x fun c => { c with state := .ready }) x) q := by
    rw [schedRemove_eq, if_pos (by rw [Kernel.modify_procs_self])]
    apply qRemove_notMem _ hout
    rw [hc]
    exact h.queues.of_eq rfl rfl rfl
  have hon : ¬((schedRemove (k.modify x fun c => { c with state := .ready }) x).schedulerEnabled =
      false ∧ (schedRemove (k.modify x fun c => { c with state := .ready }) x).current = none) := by
    rw [show (schedRemove (k.modify x fun c => { c with state := .ready }) x).schedulerEnabled =
      true from (congrArg Kernel.schedulerEnabled hw :).trans hen]
    simp
  unfold demoted
  generalize schedRemove (k.modify x fun c => { c with state := .ready }) x = k1 at h1 hon
  exact enqueue_forward (k := k1.modify x fun c => { c with priority := prio })
    (h1.of_eq rfl rfl rfl) hout hon

lemma act_forward (h : Sound k) (hq : QueuedOff (fun _ => False) k q) (ha : Act s k k')
    (hm : ¬s.moved p) (ht : ¬s.terminated p) : ∃ q', ReadyQueues k' q' ∧ Forward p q q' := by
  have hon := not_off h.on
  have hout : ∀ x, ¬((k.procs x).used ∧ (k.procs x).state = .ready) → ∀ l, x ∉ q l :=
    fun x hx l hl => hx ((hq.ready x).mp ⟨l, hl⟩).2
  have hsame : SameQueues k k' → ∃ q', ReadyQueues k' q' ∧ Forward p q q' :=
    fun hs => ⟨q, hs.queues hq.queues, .refl p q⟩
  cases ha with
  | still h => exact hsame h.queues
  | note _ _ h => exact hsame h.queues
  | kin _ h => exact hsame h
  | sems _ h =>
    refine ⟨q, hq.queues.of_eq ?_ ?_ ?_, .refl p q⟩
    · exact (congrArg Kernel.queueNext h :)
    · exact (congrArg Kernel.readyHead h :)
    · exact (congrArg Kernel.readyTail h :)
  | reap _ _ h => exact hsame h.queues
  | wake x _ _ hb =>
    have h1 : ReadyQueues (k.modify x readied) q := hq.queues.of_eq rfl rfl rfl
    obtain ⟨q', hq', hf⟩ := enqueue_forward h1 (hout x fun hx => by simp [hx.2] at hb) hon
    exact ⟨q', hq', hf p⟩
  | retire x hs _ h =>
    obtain ⟨q', hq', hf⟩ := unready_forward hq x
    exact ⟨q', h.queues.queues hq', hf p fun hpx => ht (hpx ▸ hs)⟩
  | draft x _ hu _ _ h =>
    have h1 := hq.queues.update_next (hout x fun hx => by simp [hx.1] at hu) none
    exact ⟨q, h.queues.queues h1, .refl p q⟩
  | enter x _ hn =>
    obtain ⟨q', hq', hf⟩ := enqueue_forward hq.queues (hout x fun hx => by simp [hx.2] at hn) hon
    exact ⟨q', hq', hf p⟩
  | suspend x hs =>
    obtain ⟨q', hq', hf⟩ := unready_forward hq x
    exact ⟨q', hq'.of_eq rfl rfl rfl, hf p fun hpx => hm (hpx ▸ hs)⟩
  | rebase => exact ⟨q, hq.queues.of_eq rfl rfl rfl, .refl p q⟩
  | reprio => exact ⟨q, hq.queues.of_eq rfl rfl rfl, .refl p q⟩
  | requeue x prio hs _ _ _ hr =>
    obtain ⟨q1, hq1, hno, hf1⟩ := remove_forward hq hr
    have h2 : ReadyQueues ((schedRemove k x).modify x fun c => { c with priority := prio }) q1 :=
      hq1.of_eq rfl rfl rfl
    obtain ⟨q', hq', hf⟩ := enqueue_forward h2 hno (not_off_schedRemove h.on hr)
    exact ⟨q', hq', (hf1 p fun hpx => hm (hpx ▸ hs)).trans (hf p)⟩

/-- The rank of a waiting process whose turn is the same and that no queue moves back. -/
lemma rank_le_of_forward (hq : ReadyQueues k q) (hq' : ReadyQueues k' q')
    (hp : ∃ l, p ∈ q l ∧ (k.procs p).priority = ((l : Nat) : Int))
    (ht : SameTurn (k.procs p) (k'.procs p)) (hf : Forward p q q') : rank k' p ≤ rank k p := by
  by_cases hl : (k.procs p).priority < highestPrio
  · rw [rank_low hl, rank_low (ht.2.2.1 ▸ hl), ht.2.2.1, ht.2.2.2]
  · obtain ⟨l, hm, hpl⟩ := hp
    have hl3 : l = 3 := by
      have hl4 : l.val < 4 := l.isLt
      simp only [hpl, highestPrio] at hl
      ext
      change l.val = 3
      omega
    rw [rank_top hq hl, rank_top hq' (ht.2.2.1 ▸ hl)]
    exact_mod_cast (hf 3 (hl3 ▸ hm)).2

theorem act_waits (h : Sound k) (ha : Act s k k') (hm : c → ¬s.moved p)
    (ht : c → ¬s.terminated p) (hk : AgesBelow k) : Waits c p 0 k k' := by
  refine ⟨act_ages h ha hk, fun hc hp => ?_⟩
  obtain ⟨q, hq⟩ := h.consistent
  have hturn := act_turn h ha (hm hc) (ht hc) hp
  obtain ⟨q', hq', hf⟩ := act_forward h hq ha (hm hc) (ht hc)
  obtain ⟨l, hl⟩ := (hq.ready p).mpr ⟨id, hp⟩
  refine ⟨⟨hturn.1.trans hp.1, hturn.2.1.trans hp.2⟩, ?_⟩
  rw [Nat.cast_zero, add_zero]
  exact rank_le_of_forward hq.queues hq' ⟨l, hl, hq.place l p hl⟩ hturn hf

theorem steps_waits (h : Sound k) (hs : Steps s k k') (hm : c → ¬s.moved p)
    (ht : c → ¬s.terminated p) (hk : AgesBelow k) : Waits c p 0 k k' := by
  induction hs with
  | refl => exact .refl hk
  | tail hs ha ih => exact ih.trans (act_waits (steps_sound h hs) ha hm ht ih.ages)

end TP2Kernel.Proofs
