import TP2Kernel.Lib.FeedbackQueue
import TP2Kernel.Proofs.Consistency
import TP2Kernel.Proofs.Frames

/-!
# The scheduler as a multilevel feedback queue

`schedule` puts the previous process back, ages and promotes the queued processes on linked lists,
and takes the first one. On the lists that the ready queues hold, this is `raise` and the removal
of the head of the highest level.
-/

namespace TP2Kernel.Proofs
open Function LinkedList FeedbackQueue

variable {k k' : Kernel} {q : Levels maxPrios Slot} {c : Slot → Pcb} {cur next p : Slot}

/-- The wait of a process reaches the threshold with this call. -/
def ripe (a : Pcb) : Bool := decide (agingThreshold ≤ a.agingTicks + 1)

lemma promotes_eq (a : Pcb) : promotes a = (decide (a.priority < highestPrio) && ripe a) := by
  unfold promotes ripe agedTicks
  congr 1
  simp only [decide_eq_decide]
  split
  · constructor
    · intro
      omega
    · exact fun _ => le_rfl
  · exact Iff.rfl

lemma agedTicks_eq (a : Pcb) : agedTicks a = min (a.agingTicks + 1) agingThreshold := by
  unfold agedTicks
  split
  · omega
  · omega

/-- Pushing a list one by one appends to each queue the part that belongs there. -/
lemma pushAll_eq (c : Slot → Pcb) (ps : List Slot) (q : Levels maxPrios Slot)
    (l : Fin maxPrios) :
    pushAll c ps q l = q l ++ ps.filter fun p => decide (level (c p).priority = l) := by
  induction ps generalizing q with
  | nil => simp [pushAll]
  | cons p ps ih =>
    rw [pushAll, ih]
    by_cases hl : level (c p).priority = l
    · subst hl
      simp
    · rw [update_of_ne (Ne.symm hl)]
      simp [hl]

/-- A process that waits long enough has the priority of its queue. -/
def Leveled (c : Slot → Pcb) (q : Levels maxPrios Slot) : Prop :=
  ∀ l, ∀ p ∈ q l, ripe (c p) = true → (c p).priority = ((l : Nat) : Int)

lemma Leveled.promotes (h : Leveled c q) {l : Fin maxPrios} (hp : p ∈ q l) :
    promotes (c p) = rises (fun p => ripe (c p)) l p := by
  rw [promotes_eq, rises]
  by_cases hr : ripe (c p) = true
  · have hlt : (c p).priority < highestPrio ↔ l.val + 1 < maxPrios := by
      rw [h l p hp hr, highestPrio]
      simp only [maxPrios]
      omega
    rw [hr, decide_eq_decide.mpr hlt]
  · rw [Bool.not_eq_true] at hr
    rw [hr, Bool.and_false, Bool.and_false]

/-- The promoted processes of one level are due and enter the next one. -/
lemma Leveled.level_next (h : Leveled c q) (l m : Fin maxPrios) :
    ((q m).filter fun p => TP2Kernel.promotes (c p)).filter (fun p =>
        decide (level (agedProcs c q [0, 1, 2, 3] p).priority = l)) =
      if m.val + 1 = l.val then (q m).filter fun p => ripe (c p) else [] := by
  have hlev : ∀ p ∈ q m, TP2Kernel.promotes (c p) = true →
      (level (agedProcs c q [0, 1, 2, 3] p).priority).val = m.val + 1 := by
    intro p hp hr
    obtain ⟨-, he⟩ | ⟨hno, -⟩ := agedProcs_cases c q p
    · have hr' := hr
      rw [promotes_eq, Bool.and_eq_true, decide_eq_true_eq] at hr'
      have hpl := h m p hp hr'.2
      have hlt : m.val + 1 < maxPrios := by
        have := hr'.1
        rw [hpl, highestPrio] at this
        simp only [maxPrios]
        omega
      have hprio : (aged (c p)).priority = (((⟨m.val + 1, hlt⟩ : Fin maxPrios) : Nat) : Int) := by
        rw [aged, if_pos hr]
        dsimp only
        rw [hpl]
        push_cast
        rfl
      rw [he, level_eq hprio]
    · exact absurd hp (hno m)
  split
  · rename_i hml
    rw [List.filter_filter]
    apply List.filter_congr
    intro p hp
    rw [h.promotes hp]
    have htop : m.val + 1 < maxPrios := by
      rw [hml]
      exact l.isLt
    by_cases hr : ripe (c p) = true
    · have hpr : TP2Kernel.promotes (c p) = true := by
        rw [h.promotes hp, rises, hr]
        simpa using htop
      have hl : level (agedProcs c q [0, 1, 2, 3] p).priority = l := by
        ext
        rw [hlev p hp hpr, hml]
      simp [hl, rises, hr, htop]
    · rw [Bool.not_eq_true] at hr
      simp [rises, hr]
  · rename_i hml
    rw [List.filter_eq_nil_iff]
    intro p hp
    rw [List.mem_filter] at hp
    have hl := hlev p hp.1 hp.2
    simp only [decide_eq_true_eq]
    rintro rfl
    exact hml hl.symm

/-- Of the levels, only the one below a level promotes to it. -/
lemma levels_below (f : Levels maxPrios Slot) (l : Fin maxPrios) :
    ([0, 1, 2, 3].flatMap fun m : Fin maxPrios => if m.val + 1 = l.val then f m else []) =
      below f l := by
  have h0 : ((0 : Fin maxPrios) : Nat) = 0 := rfl
  have h1 : ((1 : Fin maxPrios) : Nat) = 1 := rfl
  have h2 : ((2 : Fin maxPrios) : Nat) = 2 := rfl
  have h3 : ((3 : Fin maxPrios) : Nat) = 3 := rfl
  simp only [List.flatMap_cons, List.flatMap_nil, List.append_nil, h0, h1, h2, h3, below]
  obtain ⟨l, hl⟩ := l
  obtain rfl | rfl | rfl | rfl : l = 0 ∨ l = 1 ∨ l = 2 ∨ l = 3 := by
    simp only [maxPrios] at hl
    omega
  all_goals simp
  all_goals rfl

/-- The queues after `apply_aging` are those of the feedback queue. -/
theorem agedQueues_eq (h : Leveled c q) :
    agedQueues c q = raise (fun p => ripe (c p)) q := by
  funext l
  have hk : keptQueues c q l = (q l).filter fun p => !rises (fun p => ripe (c p)) l p :=
    List.filter_congr fun p hp => by rw [h.promotes hp]
  have hb : (below q l).filter (fun p => ripe (c p)) =
      below (fun m => (q m).filter fun p => ripe (c p)) l := by
    unfold below
    split
    · rfl
    · rfl
  rw [agedQueues, pushAll_eq, hk, raise, hb, ← levels_below, promotedList, List.filter_flatMap]
  congr 2
  funext m
  exact h.level_next l m

/-- A selection has passed a queued process by: it waits longer, or it moves up. -/
def passed (up : Bool) (a : Pcb) : Pcb :=
  { a with
    agingTicks := if up then 0 else min (a.agingTicks + 1) agingThreshold
    priority := if up then a.priority + 1 else a.priority }

/-- A selection where `q` are the queues and `c` the PCBs when the previous process `cur` is put
back. -/
inductive Selection (k : Kernel) (cur : Slot) (c : Slot → Pcb) (q : Levels maxPrios Slot) :
    Kernel × Option Frame → Prop
  /-- The head of the highest level is dispatched. -/
  | process {l : Fin maxPrios} {next : Slot} {rest : List Slot} {r : Kernel × Option Frame}
      (top : IsTop (raise (fun p => ripe (c p)) q) l next rest)
      (queues : ReadyQueues r.1 (update (raise (fun p => ripe (c p)) q) l rest))
      (left : ∀ x, (∃ l', x ∈ update (raise (fun p => ripe (c p)) q) l rest l') ↔
        (∃ l', x ∈ q l') ∧ x ≠ next)
      (passed : ∀ l', ∀ p ∈ q l', p ≠ next →
        r.1.procs p = passed (rises (fun p => ripe (c p)) l' p) (c p))
      (rest : ∀ p, (∀ l', p ∉ q l') → p ≠ next → r.1.procs p = c p)
      (ready : (c next).state = .ready) (notIdle : k.idleProc ≠ some next)
      (current : r.1.current = some next)
      (pcb : r.1.procs next = { c next with
        state := .running, ticksLeft := timeSliceTicks
        priority := (c next).basePriority, agingTicks := 0 })
      (frame : r.2 = (c next).kframe) (frame_ne : r.2 ≠ none) : Selection k cur c q r
  /-- No process is queued, and the idle process is dispatched. -/
  | idle {i : Slot} {r : Kernel × Option Frame} (empty : ∀ l, q l = [])
      (idle : k.idleProc = some i) (queues : ReadyQueues r.1 fun _ => [])
      (current : r.1.current = some i)
      (pcb : r.1.procs i = { c i with state := .running, ticksLeft := timeSliceTicks })
      (rest : ∀ p, p ≠ i → r.1.procs p = c p)
      (frame : r.2 = (c i).kframe) (frame_ne : r.2 ≠ none) : Selection k cur c q r
  /-- No process is queued, and there is no idle process with a frame. -/
  | stuck {r : Kernel × Option Frame} (empty : ∀ l, q l = [])
      (idle : ∀ i, k.idleProc = some i → (c i).kframe = none)
      (queues : ReadyQueues r.1 fun _ => []) (current : r.1.current = some cur)
      (rest : r.1.procs = c) (frame : r.2 = none) : Selection k cur c q r

lemma agedProcs_mem {l : Fin maxPrios} (hp : p ∈ q l) :
    agedProcs c q [0, 1, 2, 3] p = aged (c p) := by
  obtain ⟨-, h⟩ | ⟨hno, -⟩ := agedProcs_cases c q p
  · exact h
  · exact absurd hp (hno l)

lemma agedProcs_notMem (hp : ∀ l, p ∉ q l) : agedProcs c q [0, 1, 2, 3] p = c p := by
  obtain ⟨⟨l, hl⟩, -⟩ | ⟨-, h⟩ := agedProcs_cases c q p
  · exact absurd hl (hp l)
  · exact h

lemma Leveled.aged_eq (h : Leveled c q) {l : Fin maxPrios} (hp : p ∈ q l) :
    aged (c p) = passed (rises (fun p => ripe (c p)) l p) (c p) := by
  rw [← h.promotes hp]
  unfold aged passed
  split
  · rfl
  · rw [agedTicks_eq]

/-- `selectNext` on queues of `READY` processes with frames. -/
theorem selectNext_selects (h : ReadyQueues k q) (hpl : Leveled k.procs q)
    (hr : ∀ l, ∀ p ∈ q l, (k.procs p).state = .ready ∧ (k.procs p).kframe ≠ none ∧
      k.idleProc ≠ some p) (prev : Slot) :
    Selection k prev k.procs q (selectNext k prev) := by
  obtain ⟨h1, h2, h3⟩ := applyAging_queues h
  rw [agedQueues_eq hpl] at h1
  have hidle : (applyAging k).idleProc = k.idleProc := (congrArg Kernel.idleProc h3 :)
  unfold selectNext
  generalize applyAging k = ka at h1 h2 h3 hidle
  obtain ⟨hp, hk, hempty⟩ | ⟨l, p, rest, hp, hq, habove, hpop⟩ := pickNext_queues h1
  · have hq0 : ∀ l, q l = [] := raise_eq_nil.mp hempty
    have hnil : ReadyQueues ka fun _ => [] := by
      have he : raise (fun p => ripe (k.procs p)) q = fun _ => [] := funext hempty
      exact he ▸ h1
    have hpr : ka.procs = k.procs := by
      rw [h2]
      funext p
      exact agedProcs_notMem fun l => by simp [hq0 l]
    simp only [hp, hk, Option.none_or]
    obtain hi | ⟨i, hi⟩ := Option.eq_none_or_eq_some ka.idleProc
    · rw [hi]
      exact .stuck hq0 (fun i hi' => by rw [← hidle, hi] at hi'; cases hi')
        (hnil.of_eq rfl rfl rfl) rfl hpr rfl
    · simp only [hi]
      by_cases hf : (ka.procs i).kframe = none
      · simp only [hf, ne_eq, not_true_eq_false, if_false, and_false]
        refine .stuck hq0 (fun j hj => ?_) (hnil.of_eq rfl rfl rfl) rfl hpr rfl
        obtain rfl : i = j := by rwa [← hidle, hi, Option.some.injEq] at hj
        rw [← hpr]
        exact hf
      · rw [if_pos hf, dispatch_eq]
        refine .idle hq0 (hidle ▸ hi) (hnil.of_eq rfl rfl rfl) rfl ?_ (fun x hx => ?_)
          (by rw [hpr]) hf
        · dsimp only
          rw [Kernel.modify_procs_self, hpr]
          simp [started, hi]
        · dsimp only
          rw [Kernel.modify_procs_of_ne _ _ hx, hpr]
  · have htop : IsTop (raise (fun p => ripe (k.procs p)) q) l p rest := ⟨hq, habove⟩
    have hm : p ∈ raise (fun p => ripe (k.procs p)) q l := by simp [hq]
    obtain ⟨m, hpm⟩ := exists_mem_raise.mp ⟨l, hm⟩
    obtain ⟨hst, hfr, hni⟩ := hr m p hpm
    have hprocs : (pickNext ka).1.procs = ka.procs := (pickNext_write ka).procs_eq
    have hid : (pickNext ka).1.idleProc = k.idleProc :=
      (congrArg Kernel.idleProc (pickNext_write ka) :).trans hidle
    have hself : ka.procs p = aged (k.procs p) := by rw [h2, agedProcs_mem hpm]
    have hkf : (ka.procs p).kframe = (k.procs p).kframe := by rw [hself, aged_eq]
    simp only [hp, Option.some_or, hprocs, hkf, ne_eq, hfr, not_false_eq_true, if_true]
    rw [dispatch_eq]
    refine .process htop (hpop.of_eq rfl rfl rfl) (fun x => ?_) (fun m x hx hne => ?_)
      (fun x hx hne => ?_) hst hni rfl ?_ ?_ ?_
    · rw [htop.exists_mem_pop (h1.queue l).nodup fun m hml => h1.disjoint l m hml.symm p hm,
        exists_mem_raise]
    · dsimp only
      rw [Kernel.modify_procs_of_ne _ _ hne, hprocs, h2, agedProcs_mem hx]
      exact hpl.aged_eq hx
    · dsimp only
      rw [Kernel.modify_procs_of_ne _ _ hne, hprocs, h2]
      exact agedProcs_notMem hx
    · dsimp only
      rw [Kernel.modify_procs_self, hprocs, hself, aged_eq]
      simp [started, hid, hni]
    · dsimp only
      rw [hprocs, hkf]
    · dsimp only
      rw [hprocs, hkf]
      exact hfr

/-- The queues with the previous process put back, if it is running and not idle. -/
def returnedQueues (k : Kernel) (cur : Slot) (q : Levels maxPrios Slot) : Levels maxPrios Slot :=
  if (k.procs cur).state = .running ∧ k.idleProc ≠ some cur then
    append q (level (k.procs cur).basePriority) cur
  else q

/-- The PCBs when the previous process, whose frame is saved, is put back. -/
def returnedProcs (k : Kernel) (cur : Slot) (rsp : Frame) (p : Slot) : Pcb :=
  let c := if p = cur then saved rsp (k.procs cur) else k.procs p
  if requeued k cur p then preempted c
  else if p = cur ∧ (c.state = .blocked ∨ c.state = .exited) then { c with ticksLeft := 0 }
  else c

lemma returnedProcs_of_ne (rsp : Frame) (hp : p ≠ cur) :
    returnedProcs k cur rsp p = k.procs p := by
  simp [returnedProcs, requeued, hp]

lemma returnedProcs_self (k : Kernel) (cur : Slot) (rsp : Frame) :
    (returnedProcs k cur rsp cur).kframe = some rsp ∧
      (returnedProcs k cur rsp cur).priority =
        (if requeued k cur cur then (k.procs cur).basePriority else (k.procs cur).priority) ∧
      (returnedProcs k cur rsp cur).agingTicks =
        (if requeued k cur cur then 0 else (k.procs cur).agingTicks) ∧
      (returnedProcs k cur rsp cur).state =
        if requeued k cur cur then .ready else (k.procs cur).state := by
  unfold returnedProcs
  dsimp only
  rw [if_pos rfl]
  split
  · exact ⟨rfl, rfl, rfl, rfl⟩
  · split
    · exact ⟨rfl, rfl, rfl, rfl⟩
    · exact ⟨rfl, rfl, rfl, rfl⟩

lemma schedulePrev_procs (k : Kernel) (cur : Slot) (rsp : Frame) :
    (schedulePrev (k.modify cur (saved rsp)) cur).procs = returnedProcs k cur rsp := by
  have hre : ∀ p, requeued (k.modify cur (saved rsp)) cur p ↔ requeued k cur p := fun p => by
    simp [requeued, Kernel.modify, saved]
  funext p
  rw [schedulePrev_eq]
  by_cases hp : p = cur
  · rw [hp]
    by_cases hr : requeued k cur cur
    · have hpb : (putBack (k.modify cur (saved rsp)) cur).procs cur =
          preempted (saved rsp (k.procs cur)) := by
        rw [putBack_procs, if_pos ((hre cur).mpr hr), Kernel.modify_procs_self]
      rw [hpb, if_neg (by simp [preempted]), hpb]
      simp [returnedProcs, hr]
    · have hpb : (putBack (k.modify cur (saved rsp)) cur).procs cur = saved rsp (k.procs cur) := by
        rw [putBack_procs, if_neg (mt (hre cur).mp hr), Kernel.modify_procs_self]
      rw [hpb]
      split
      · rename_i hs
        rw [Kernel.modify_procs_self, hpb]
        simp [returnedProcs, hr, hs]
      · rename_i hs
        rw [hpb]
        simp [returnedProcs, hr, hs]
  · have hpb : (putBack (k.modify cur (saved rsp)) cur).procs p = k.procs p := by
      rw [putBack_procs, if_neg (fun h => hp h.1), Kernel.modify_procs_of_ne _ _ hp]
    rw [returnedProcs_of_ne rsp hp]
    split
    · rw [Kernel.modify_procs_of_ne _ _ hp, hpb]
    · exact hpb

lemma schedulePrev_queues (h : QueuedOff (fun _ => False) k q) (cur : Slot) (rsp : Frame) :
    ReadyQueues (schedulePrev (k.modify cur (saved rsp)) cur) (returnedQueues k cur q) := by
  have h1 : ReadyQueues (k.modify cur (saved rsp)) q := h.queues.of_eq rfl rfl rfl
  have h2 : ReadyQueues (putBack (k.modify cur (saved rsp)) cur) (returnedQueues k cur q) := by
    have hs : ((k.modify cur (saved rsp)).procs cur).state = (k.procs cur).state := by
      rw [Kernel.modify_procs_self]
      rfl
    unfold putBack returnedQueues
    rw [hs, show (k.modify cur (saved rsp)).idleProc = k.idleProc from rfl]
    split
    · rename_i hr
      have hno : ∀ l, cur ∉ q l := fun l hm => by
        have := ((h.ready cur).mp ⟨l, hm⟩).2.2
        simp [hr.1] at this
      have h3 : ReadyQueues ((k.modify cur (saved rsp)).modify cur preempted) q :=
        h1.of_eq rfl rfl rfl
      have h4 := qPush_queues h3 hno
      rw [Kernel.modify_procs_self, Kernel.modify_procs_self] at h4
      exact h4
    · exact h1
  rw [schedulePrev_eq]
  split
  · exact h2.of_eq rfl rfl rfl
  · exact h2

lemma mem_returnedQueues {l : Fin maxPrios} (hp : p ∈ returnedQueues k cur q l) :
    requeued k cur p ∨ p ∈ q l := by
  unfold returnedQueues at hp
  split at hp
  · rename_i hr
    by_cases hl : l = level (k.procs cur).basePriority
    · rw [hl, append, update_self, List.mem_append, List.mem_singleton] at hp
      obtain hp | rfl := hp
      · exact .inr (hl ▸ hp)
      · exact .inl ⟨rfl, hr⟩
    · rw [append, update_of_ne hl] at hp
      exact .inr hp
  · exact .inr hp

/-- Every process in these queues is `READY` and has a frame. -/
lemma returned_ready (h : QueuedOff (fun _ => False) k q) (rsp : Frame) {l : Fin maxPrios}
    (hp : p ∈ returnedQueues k cur q l) : (returnedProcs k cur rsp p).state = .ready ∧
      (returnedProcs k cur rsp p).kframe ≠ none ∧ k.idleProc ≠ some p ∧
      (ripe (returnedProcs k cur rsp p) = true →
        (returnedProcs k cur rsp p).priority = ((l : Nat) : Int)) := by
  obtain ⟨hframe, hprio, haging, hstate⟩ := returnedProcs_self k cur rsp
  by_cases hr : requeued k cur p
  · obtain rfl := hr.1
    rw [if_pos hr] at hprio haging hstate
    refine ⟨hstate, by simp [hframe], hr.2.2, fun hripe => ?_⟩
    simp [ripe, haging, agingThreshold] at hripe
  · have hm := (mem_returnedQueues hp).resolve_left hr
    have hready := ((h.ready p).mp ⟨l, hm⟩).2.2
    have hidle : k.idleProc ≠ some p := fun hi => h.notIdle p hi l hm
    by_cases hpc : p = cur
    · rw [hpc] at hr hready hm hidle ⊢
      rw [if_neg hr] at hprio haging hstate
      refine ⟨hstate.trans hready, by simp [hframe], hidle, fun _ => ?_⟩
      rw [hprio]
      exact h.place l cur hm
    · rw [returnedProcs_of_ne rsp hpc]
      exact ⟨hready, h.frame l p hm, hidle, fun _ => h.place l p hm⟩

/-- A call of `schedule` gets to the selection: the current process is not running or uses up its
quantum. -/
structure AtSelection (k : Kernel) (cur : Slot) : Prop where
  enabled : k.schedulerEnabled = true
  current : k.current = some cur
  free : ¬((k.procs cur).state = .running ∧ 1 < (k.procs cur).ticksLeft)

lemma schedule_selection (h : QueuedOff (fun _ => False) k q) (hsel : AtSelection k cur)
    (rsp : Frame) :
    Selection k cur (returnedProcs k cur rsp) (returnedQueues k cur q) (schedule k rsp) := by
  have hgo : ¬(0 < (saved rsp (k.procs cur)).ticksLeft ∧ (k.procs cur).state = .running) := by
    rintro ⟨ht, hs⟩
    simp only [saved] at ht
    split at ht
    · exact hsel.free ⟨hs, by omega⟩
    · omega
  have hq := schedulePrev_queues h cur rsp
  have hp := schedulePrev_procs k cur rsp
  have hi : (schedulePrev (k.modify cur (saved rsp)) cur).idleProc = k.idleProc := by
    have hw : DispatchWrite (k.modify cur (saved rsp)) (schedulePrev (k.modify cur (saved rsp)) cur) :=
      (Redispatch.schedulePrev _ cur).write
    exact (congrArg Kernel.idleProc hw :)
  rw [schedule_some hsel.enabled hsel.current, if_neg hgo]
  generalize schedulePrev (k.modify cur (saved rsp)) cur = k1 at hq hp hi
  have hsel1 : Selection k1 cur k1.procs (returnedQueues k cur q) (selectNext k1 cur) := by
    apply selectNext_selects hq
    · intro l p hm
      rw [hp]
      exact (returned_ready h rsp hm).2.2.2
    · intro l p hm
      rw [hp, hi]
      obtain ⟨hs, hf, hni, -⟩ := returned_ready h rsp hm
      exact ⟨hs, hf, hni⟩
  rw [hp] at hsel1
  generalize selectNext k1 cur = r at hsel1
  cases hsel1 with
  | process top queues left passed rest ready notIdle current pcb frame frame_ne =>
    exact .process top queues left passed rest ready (hi ▸ notIdle) current pcb frame frame_ne
  | idle empty idle queues current pcb rest frame frame_ne =>
    exact .idle empty (hi ▸ idle) queues current pcb rest frame frame_ne
  | stuck empty idle queues current rest frame =>
    exact .stuck empty (fun i hi' => idle i (hi ▸ hi')) queues current rest frame

/-- Every call of `schedule` that selects, over consistent ready queues. -/
theorem schedule_selects (h : QueuedOff (fun _ => False) k q) (hsel : AtSelection k cur)
    (rsp : Frame) :
    Selection k cur (returnedProcs k cur rsp) (returnedQueues k cur q) (schedule k rsp) :=
  schedule_selection h hsel rsp

/-- The running process gave up the processor, and a process of the highest level is queued beside
one of the level below that has waited for nine selections. -/
def sampleRipe : Kernel :=
  sample (fun p => if p = 3 then { samplePcb 3 2 .ready with agingTicks := 9 } else
    sampleProcs (samplePcb 0 0 .running) (samplePcb 1 2 .blocked) (samplePcb 2 3 .ready) p)
    (sampleHead (some 3) (some 2)) none

/-- The head of the highest level is dispatched, and the other process is promoted behind it. -/
theorem schedule_selects_sample : Selection sampleRipe 1 (returnedProcs sampleRipe 1 ⟨1, .user⟩)
      (returnedQueues sampleRipe 1 fun l => (sampleHead (some 3) (some 2) l).toList)
      (schedule sampleRipe ⟨1, .user⟩) ∧
    (schedule sampleRipe ⟨1, .user⟩).1.current = some 2 ∧
    ((schedule sampleRipe ⟨1, .user⟩).1.procs 3).priority = 3 := by
  have hq : QueuedOff (fun _ => False) sampleRipe fun l => (sampleHead (some 3) (some 2) l).toList :=
    sample_queuedOff (by decide +kernel) (by decide +kernel) (by decide +kernel)
  exact ⟨schedule_selects hq ⟨rfl, rfl, by decide +kernel⟩ ⟨1, .user⟩, by decide +kernel,
    by decide +kernel⟩

/-- The running process gave up the processor, and two processes of the highest level are queued,
of which the second one has waited for ten selections. -/
def sampleAged : Kernel :=
  { sample (fun p => if p = 3 then { samplePcb 3 3 .ready with agingTicks := 10 } else
      sampleProcs (samplePcb 0 0 .running) (samplePcb 1 2 .blocked) (samplePcb 2 3 .ready) p)
      (sampleHead none (some 2)) none with
    queueNext := update (fun _ => none) 2 (some 3)
    readyTail := sampleHead none (some 3) }

def sampleAgedQueues (l : Fin maxPrios) : List Slot := if l = 3 then [2, 3] else []

lemma sampleAged_queuedOff : QueuedOff (fun _ => False) sampleAged sampleAgedQueues := by
  refine ⟨⟨fun l => ?_, by decide⟩, by decide +kernel, by decide +kernel, fun i hi => ?_,
    fun p => ?_, by decide +kernel⟩
  · by_cases hl : l = 3
    · rw [hl]
      exact ⟨⟨rfl, rfl, rfl⟩, rfl⟩
    · have hh : sampleAged.readyHead l = none ∧ sampleAged.readyTail l = none := by
        revert l
        decide
      rw [sampleAgedQueues, if_neg hl, hh.1, hh.2]
      exact ⟨rfl, rfl⟩
  · obtain rfl : 0 = i := Option.some.inj hi
    decide
  · unfold PrioInRange
    revert p
    decide +kernel

/-- The running process gave up the processor, and none is queued. -/
def sampleAlone (idle : Pcb) : Kernel :=
  sample (sampleProcs idle (samplePcb 1 2 .blocked) Pcb.zero) (sampleHead none none) none

/-- Process 1 gives the processor to `next`. -/
def GivesWay (k : Kernel) (next : Slot) : Prop :=
  Consistent k ∧ AtSelection k 1 ∧ (schedule k ⟨1, .user⟩).1.current = some next

/-- The idle process has another priority than its base priority. -/
def sampleIdleRaised : Kernel := sampleAlone { samplePcb 0 0 .running with priority := 1 }

/-- The idle process has no frame. -/
def sampleIdleBare : Kernel := sampleAlone { samplePcb 0 0 .running with kframe := none }

/-- The wait of a process of the highest level stays ten. The idle process keeps its priority, is
dispatched in whatever state, and not without a frame. -/
theorem selection_limits :
    (GivesWay sampleAged 2 ∧ (sampleAged.procs 3).state = .ready ∧
      (sampleAged.procs 3).agingTicks = 10 ∧
      ((schedule sampleAged ⟨1, .user⟩).1.procs 3).agingTicks = 10) ∧
    (GivesWay sampleIdleRaised 0 ∧
      ((schedule sampleIdleRaised ⟨1, .user⟩).1.procs 0).priority ≠
        ((schedule sampleIdleRaised ⟨1, .user⟩).1.procs 0).basePriority) ∧
    (GivesWay (sampleAlone (samplePcb 0 0 .blocked)) 0 ∧
      ((sampleAlone (samplePcb 0 0 .blocked)).procs 0).state = .blocked) ∧
    (GivesWay sampleIdleBare 1 ∧ (∀ l, sampleIdleBare.readyHead l = none) ∧
      sampleIdleBare.idleProc = some 0) := by
  refine ⟨⟨⟨⟨_, sampleAged_queuedOff⟩, ⟨rfl, rfl, by decide +kernel⟩, by decide +kernel⟩, ?_⟩,
    ⟨⟨?_, ⟨rfl, rfl, by decide +kernel⟩, by decide +kernel⟩, by decide +kernel⟩,
    ⟨⟨?_, ⟨rfl, rfl, by decide +kernel⟩, by decide +kernel⟩, rfl⟩,
    ⟨?_, ⟨rfl, rfl, by decide +kernel⟩, by decide +kernel⟩, by decide, rfl⟩
  · decide +kernel
  all_goals exact sample_consistent (by decide +kernel) (by decide +kernel) (by decide +kernel)

end TP2Kernel.Proofs
