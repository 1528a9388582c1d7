import TP2Kernel.Proofs.Families

/-!
# Families in a run

The calls that neither create nor terminate a process leave the lists of children and the
parents alone. A creation adds one child to the list of the current process, and a termination
takes the process and its children from all lists.
-/

namespace TP2Kernel.Proofs
open Function LinkedList

variable {k k' k'' : Kernel} {kids : Slot → List Slot} {L L' : Slot → Prop} {p q c i x : Slot}
  {idle : Slot} {σ σ' : System} {e : Event}

/-- The same live processes with the same parents and links. -/
structure SameKin (k k' : Kernel) : Prop where
  live : ∀ x, Live k' x ↔ Live k x
  pid : ∀ x, Live k x → (k'.procs x).pid = (k.procs x).pid
  parent : ∀ x, Live k x → (k'.procs x).parentPid = (k.procs x).parentPid
  shrinks : ∀ x, Shrinks k k' x
  links : ∀ x, Live k x → k'.childHead x = k.childHead x ∧ k'.siblingNext x = k.siblingNext x

namespace SameKin

lemma refl (k : Kernel) : SameKin k k :=
  ⟨fun _ => .rfl, fun _ _ => rfl, fun _ _ => rfl, fun _ => shrinks_of_eq rfl rfl,
    fun _ _ => ⟨rfl, rfl⟩⟩

lemma trans (h : SameKin k k') (h' : SameKin k' k'') : SameKin k k'' := by
  have hlive : ∀ x, Live k x → Live k' x := fun x => (h.live x).mpr
  refine ⟨fun x => (h'.live x).trans (h.live x), fun x hx => ?_, fun x hx => ?_,
    fun x => (h.shrinks x).trans (h'.shrinks x), fun x hx => ?_⟩
  · exact (h'.pid x (hlive x hx)).trans (h.pid x hx)
  · exact (h'.parent x (hlive x hx)).trans (h.parent x hx)
  obtain ⟨e1, e2⟩ := h.links x hx
  obtain ⟨e3, e4⟩ := h'.links x (hlive x hx)
  exact ⟨e3.trans e1, e4.trans e2⟩

/-- Nothing changes but what the family does not depend on. -/
lemma of_eq (hp : ∀ x, (k'.procs x).used = (k.procs x).used ∧
      ((k'.procs x).state = .exited ↔ (k.procs x).state = .exited) ∧
      (k'.procs x).pid = (k.procs x).pid ∧ (k'.procs x).parentPid = (k.procs x).parentPid)
    (hc : k'.childHead = k.childHead) (hs : k'.siblingNext = k.siblingNext) : SameKin k k' := by
  refine ⟨fun x => ?_, fun x _ => (hp x).2.2.1, fun x _ => (hp x).2.2.2,
    fun _ => shrinks_of_eq hc hs, fun x _ => ⟨congrFun hc x, congrFun hs x⟩⟩
  rw [Live, Live, (hp x).1, ne_eq, (hp x).2.1]

lemma turn (h : Turn k k') : SameKin k k' := by
  refine .of_eq (fun x => ⟨h.used x, h.exited x, ?_, ?_⟩) (congrArg Kernel.childHead h.write :)
    (congrArg Kernel.siblingNext h.write :)
  · rw [h.procs x]
  · rw [h.procs x]

/-- The lists stay the same. -/
lemma family (h : SameKin k k') (hf : Family k kids) : Family k' kids := by
  have hdead : ∀ x, ¬Live k x → kids x = [] ∧ k.siblingNext x = none := by
    intro x hx
    refine ⟨List.eq_nil_iff_forall_not_mem.mpr fun c hc => hx (hf.child hc).1, ?_⟩
    exact hf.forest.root x fun q hq => hx (hf.child hq).2.1
  have hhead : k'.childHead = k.childHead := by
    funext x
    by_cases hx : Live k x
    · exact (h.links x hx).1
    · have e := hf.forest.head_none (hdead x hx).1
      rcases (h.shrinks x).1 with h1 | h1
      · exact h1
      · rw [h1, e]
  have hnext : k'.siblingNext = k.siblingNext := by
    funext x
    by_cases hx : Live k x
    · exact (h.links x hx).2
    · rcases (h.shrinks x).2 with h1 | h1
      · exact h1
      · rw [h1, (hdead x hx).2]
  refine ⟨?_, fun {q c} hc => ?_, fun {c} hc => ?_, hf.ranked⟩
  · rw [hhead, hnext]
    exact hf.forest
  · obtain ⟨h1, h2, h3⟩ := hf.child hc
    rw [h.live, h.live, h.parent c h2, h.pid q h1]
    exact ⟨h1, h2, h3⟩
  · have hc' := (h.live c).mp hc
    rw [h.parent c hc']
    exact hf.parent hc'

end SameKin

/-- Everything may happen except that a process is created or terminated, or that the links
change. -/
def homely : Scope := { anything with terminated := fun _ => False, kin := False, fresh := False }

lemma homely_sub : homely.Sub (losing fun _ => False) :=
  ⟨fun _ => id, fun _ => id, fun _ => id, fun _ => id, False.elim, id, id, id⟩

lemma act_kin (h : Sound k) (ha : Act homely k k') (x : Slot) :
    (k'.procs x).parentPid = (k.procs x).parentPid ∧ (k'.procs x).pid = (k.procs x).pid ∧
      (Live k x → k'.childHead x = k.childHead x ∧ k'.siblingNext x = k.siblingNext x) := by
  have hon := not_off h.on
  have henq : ∀ (k : Kernel) (p : Slot), ¬(k.schedulerEnabled = false ∧ k.current = none) →
      ((schedEnqueue k p).procs x).parentPid = (k.procs x).parentPid ∧
      ((schedEnqueue k p).procs x).pid = (k.procs x).pid ∧
      (schedEnqueue k p).childHead x = k.childHead x ∧
      (schedEnqueue k p).siblingNext x = k.siblingNext x := by
    intro k p hon
    obtain ⟨e1, e2⟩ := (schedEnqueue_write p hon).links
    rw [schedEnqueue_procs p hon, e1, e2]
    by_cases hx : x = p
    · subst hx
      simp
    · simp [hx]
  have hmod : ∀ (k : Kernel) (p : Slot) (f : Pcb → Pcb),
      (∀ c, (f c).parentPid = c.parentPid ∧ (f c).pid = c.pid) →
      ((k.modify p f).procs x).parentPid = (k.procs x).parentPid ∧
      ((k.modify p f).procs x).pid = (k.procs x).pid := by
    intro k p f hf
    rw [Kernel.modify_procs]
    split
    · rename_i hx
      rw [hx]
      exact hf _
    · exact ⟨rfl, rfl⟩
  have hoff : ∀ {p : Slot}, Off (· = p) k k' → x ≠ p →
      (k'.procs x).parentPid = (k.procs x).parentPid ∧ (k'.procs x).pid = (k.procs x).pid ∧
        (Live k x → k'.childHead x = k.childHead x ∧ k'.siblingNext x = k.siblingNext x) :=
    fun h hx => ⟨(h.procs x hx).parentPid, (h.procs x hx).pid, fun _ => h.links x hx⟩
  cases ha with
  | still h => exact ⟨(h.procs x id).parentPid, (h.procs x id).pid, fun _ => h.links x id⟩
  | note p _ h hp hl =>
    by_cases hx : x = p
    · rw [hx]
      exact ⟨hp.parentPid, hp.pid, fun _ => hl⟩
    · exact hoff h hx
  | kin hs => exact hs.elim
  | sems _ h =>
    rw [h]
    exact ⟨rfl, rfl, fun _ => ⟨rfl, rfl⟩⟩
  | reap p he h hp =>
    by_cases hx : x = p
    · rw [hx]
      exact ⟨hp.parentPid, hp.pid, fun hl => absurd he hl.2⟩
    · exact hoff h hx
  | wake p =>
    obtain ⟨e1, e2, e3⟩ := henq (k.modify p fun c =>
      { c with state := .ready, ticksLeft := timeSliceTicks, agingTicks := 0 }) p hon
    obtain ⟨e4, e5⟩ := hmod k p (fun c =>
      { c with state := .ready, ticksLeft := timeSliceTicks, agingTicks := 0 }) fun _ => ⟨rfl, rfl⟩
    exact ⟨e1.trans e4, e2.trans e5, fun _ => e3⟩
  | retire p hs => exact hs.elim
  | draft p hs => exact hs.elim
  | enter p =>
    obtain ⟨e1, e2, e3⟩ := henq k p hon
    exact ⟨e1, e2, fun _ => e3⟩
  | suspend p =>
    obtain ⟨e1, e2⟩ := hmod (unready k p) p (fun c => { c with state := .blocked, ticksLeft := 0 })
      fun _ => ⟨rfl, rfl⟩
    obtain ⟨e3, e4⟩ := (unready_write k p).links
    rw [unready_procs] at e1 e2
    exact ⟨e1, e2, fun _ => ⟨congrFun e3 x, congrFun e4 x⟩⟩
  | rebase p prio =>
    obtain ⟨e1, e2⟩ := hmod k p (fun c => { c with basePriority := prio, agingTicks := 0 })
      fun _ => ⟨rfl, rfl⟩
    exact ⟨e1, e2, fun _ => ⟨rfl, rfl⟩⟩
  | reprio p prio =>
    obtain ⟨e1, e2⟩ := hmod k p (fun c => { c with priority := prio }) fun _ => ⟨rfl, rfl⟩
    exact ⟨e1, e2, fun _ => ⟨rfl, rfl⟩⟩
  | requeue p prio _ _ _ _ hn =>
    obtain ⟨e1, e2, e3⟩ := henq ((schedRemove k p).modify p fun c => { c with priority := prio }) p
      (not_off_schedRemove h.on hn)
    obtain ⟨e4, e5⟩ := hmod (schedRemove k p) p (fun c => { c with priority := prio })
      fun _ => ⟨rfl, rfl⟩
    obtain ⟨e6, e7⟩ := (schedRemove_write k p).links
    rw [schedRemove_procs] at e4 e5
    exact ⟨e1.trans e4, e2.trans e5, fun _ =>
      ⟨e3.1.trans (congrFun e6 x), e3.2.trans (congrFun e7 x)⟩⟩

theorem steps_kin (h : Sound k) (hs : Steps homely k k') : SameKin k k' := by
  have hl := fun {k'} (hs : Steps homely k k') =>
    steps_loses h (Steps.mono homely_sub hs)
  induction hs with
  | refl => exact .refl k
  | tail h1 ha ih =>
    rename_i k1 k2
    have h2 := hl (h1.tail ha)
    refine ⟨fun x => ⟨h2.dead x, h2.live x id⟩, fun x hx => ?_, fun x hx => ?_, fun x => ?_,
      fun x hx => ?_⟩
    · exact (act_kin (steps_sound h h1) ha x).2.1.trans (ih.pid x hx)
    · exact (act_kin (steps_sound h h1) ha x).1.trans (ih.parent x hx)
    · exact steps_shrinks id h (h1.tail ha) x
    · obtain ⟨e1, e2⟩ := ih.links x hx
      obtain ⟨e3, e4⟩ := (act_kin (steps_sound h h1) ha x).2.2 ((ih.live x).mpr hx)
      exact ⟨e3.trans e1, e4.trans e2⟩

/-- The same processes, and nobody but `p` gets another parent. -/
structure SameBut (p : Slot) (k k' : Kernel) : Prop where
  used : ∀ x, (k'.procs x).used = (k.procs x).used
  state : ∀ x, (k'.procs x).state = (k.procs x).state
  pid : ∀ x, (k'.procs x).pid = (k.procs x).pid
  parent : ∀ x, x ≠ p → (k'.procs x).parentPid = (k.procs x).parentPid

lemma SameBut.trans (h : SameBut p k k') (h' : SameBut p k' k'') : SameBut p k k'' :=
  ⟨fun x => (h'.used x).trans (h.used x), fun x => (h'.state x).trans (h.state x),
    fun x => (h'.pid x).trans (h.pid x),
    fun x hx => (h'.parent x hx).trans (h.parent x hx)⟩

lemma SameBut.of_sched (hs : ∀ x, SameSched (k.procs x) (k'.procs x)) : SameBut p k k' :=
  ⟨fun x => (hs x).used, fun x => (hs x).state, fun x => (hs x).pid, fun x _ => (hs x).parentPid⟩

lemma SameBut.modify (k : Kernel) (p : Slot) (f : Pcb → Pcb)
    (hf : ∀ c, (f c).used = c.used ∧ (f c).state = c.state ∧ (f c).pid = c.pid) :
    SameBut p k (k.modify p f) := by
  have h : ∀ x, (k.modify p f).procs x = if x = p then f (k.procs p) else k.procs x :=
    fun x => Kernel.modify_procs ..
  refine ⟨fun x => ?_, fun x => ?_, fun x => ?_, fun x hx => ?_⟩
  all_goals rw [h]
  · split
    · rename_i hx
      rw [hx]
      exact (hf _).1
    · rfl
  · split
    · rename_i hx
      rw [hx]
      exact (hf _).2.1
    · rfl
  · split
    · rename_i hx
      rw [hx]
      exact (hf _).2.2
    · rfl
  · rw [if_neg hx]

/-- The parent loses the child, and the child its parent. -/
lemma farewell_forest (h : Forest k.childHead k.siblingNext kids) (hn : Numbers k)
    (hp : ∀ q, p ∈ kids q → (k.procs q).used ∧ (k.procs p).parentPid = (k.procs q).pid) :
    Forest (farewell k p).childHead (farewell k p).siblingNext (fun x => (kids x).erase p) ∧
      SameBut p k (farewell k p) := by
  obtain ⟨k1, hk1⟩ : ∃ k1, k1 = k.modify p fun c => { c with zombieReapable := true } := ⟨_, rfl⟩
  have hs1 : SameBut p k k1 := by
    rw [hk1]
    exact .modify k p _ fun _ => ⟨rfl, rfl, rfl⟩
  have hparent : (k1.procs p).parentPid = (k.procs p).parentPid := by
    rw [hk1, Kernel.modify_procs_self]
  have h1 : Forest k1.childHead k1.siblingNext kids := by
    rw [hk1]
    exact h
  have hn1 : Numbers k1 := hn.numbered (fun x hx => ⟨hs1.used x ▸ hx, hs1.pid x⟩)
    (by rw [hk1]; exact hn.next)
  have hfind : ∀ q, p ∈ kids q → procByPid k1 (k1.procs p).parentPid = some q ∧
      0 < (k1.procs p).parentPid := by
    intro q hq
    obtain ⟨hu, e⟩ := hp q hq
    have hu1 : (k1.procs q).used := (hs1.used q).trans hu
    rw [hparent, e, ← hs1.pid q]
    exact ⟨hn1.find hu1, hn1.pos q hu1⟩
  have hnone : (∀ q, p ∉ kids q) → (fun x => (kids x).erase p) = kids := fun hno =>
    funext fun x => List.erase_of_not_mem (hno x)
  unfold farewell
  dsimp only
  rw [← hk1]
  split
  · rename_i hneg
    rw [hnone fun q hq => absurd (hfind q hq).2 (by omega)]
    exact ⟨h1, hs1⟩
  · split
    · rename_i hno
      rw [hnone fun q hq => by
        rw [(hfind q hq).1] at hno
        cases hno]
      exact ⟨h1, hs1⟩
    · rename_i parent hpar
      have h2 := unlinkChild_forest h1 parent p
      have hkin := unlinkChildLoop_links parent p maxProcs none (k1.childHead parent) k1
      have hprocs : (unlinkChild k1 parent p).procs = k1.procs := (congrArg Kernel.procs hkin :)
      have hk : update kids parent ((kids parent).erase p) = fun x => (kids x).erase p := by
        funext x
        by_cases hx : x = parent
        · rw [hx, update_self]
        · rw [update_of_ne hx, List.erase_of_not_mem]
          intro hm
          have e := (hfind x hm).1
          rw [hpar, Option.some.injEq] at e
          exact hx e.symm
      rw [hk] at h2
      generalize unlinkChild k1 parent p = k2 at h2 hprocs ⊢
      have hs2 : SameBut p k1 k2 := .of_sched fun x => by rw [hprocs]; exact .refl _
      have hs3 : SameBut p k2 (pushWaitResult k2 parent (k2.procs p).pid (k2.procs p).exitCode) :=
        .of_sched fun x => (pushWaitResult_sched k2 parent _ _ x).1
      have hlinks : (pushWaitResult k2 parent (k2.procs p).pid (k2.procs p).exitCode).childHead =
          k2.childHead ∧ (pushWaitResult k2 parent (k2.procs p).pid
            (k2.procs p).exitCode).siblingNext = k2.siblingNext := by
        rw [pushWaitResult_eq]
        exact ⟨rfl, rfl⟩
      generalize pushWaitResult k2 parent (k2.procs p).pid (k2.procs p).exitCode = k3 at hs3 hlinks ⊢
      refine ⟨?_, ((hs1.trans hs2).trans hs3).trans (.modify k3 p _ fun _ => ⟨rfl, rfl, rfl⟩)⟩
      change Forest k3.childHead k3.siblingNext _
      rw [hlinks.1, hlinks.2]
      exact h2

lemma bereaved_eq (kids : Slot → List Slot) (p x : Slot) :
    bereaved kids p x = if x = p ∨ x ∈ kids p then [] else (kids x).erase p := by
  simp [bereaved]

/-- Who is on a list behind a termination was on it before, and is not terminated. -/
lemma mem_bereaved (hf : FamilyTree L k kids) : c ∈ bereaved kids p q ↔
    c ∈ kids q ∧ q ≠ p ∧ q ∉ kids p ∧ c ≠ p := by
  rw [bereaved_eq]
  split
  · rename_i h
    simp only [List.not_mem_nil, false_iff]
    rintro ⟨-, h1, h2, -⟩
    exact h.elim h1 h2
  · rename_i h
    rw [not_or] at h
    rw [(hf.forest.nodup q).mem_erase_iff]
    tauto

/-- The lists behind a termination, from what it does to the PCBs. -/
lemma bereaves_of_fates (hf : Family k kids) (hpid : ∀ x, (k'.procs x).pid = (k.procs x).pid)
    (hlive : ∀ x, Live k' x ↔ Live k x ∧ x ≠ p ∧ x ∉ kids p)
    (horphan : ∀ x, x ≠ p → ∀ c ∈ kids p, x ∈ kids c → (k'.procs x).parentPid = -1)
    (hparent : ∀ x, x ≠ p → x ∉ kids p → (∀ c ∈ kids p, x ∉ kids c) →
      (k'.procs x).parentPid = (k.procs x).parentPid)
    (hforest : Forest k'.childHead k'.siblingNext (bereaved kids p)) : Bereaves kids p k k' := by
  refine ⟨hlive, fun x _ => hpid x, fun x hx => horphan x ((hlive x).mp hx).2.1, fun x hx =>
    hparent x ((hlive x).mp hx).2.1 ((hlive x).mp hx).2.2, hforest, fun {q c} hc => ?_,
    fun {c} hc => ?_, ?_⟩
  · obtain ⟨hcq, hqp, hqk, hcp⟩ := (mem_bereaved hf).mp hc
    obtain ⟨h1, h2, h3⟩ := hf.child hcq
    have hck : c ∉ kids p := fun hm => hqp (hf.forest.apart hcq hm)
    have hno : ∀ d ∈ kids p, c ∉ kids d := fun d hd hm => hqk (hf.forest.apart hcq hm ▸ hd)
    refine ⟨(hlive q).mpr ⟨h1, hqp, hqk⟩, (hlive c).mpr ⟨h2, hcp, hck⟩, ?_⟩
    rw [hparent c hcp hck hno, hpid q]
    exact h3
  · obtain ⟨hl, hcp, hck⟩ := (hlive c).mp hc
    by_cases hd : ∃ d ∈ kids p, c ∈ kids d
    · obtain ⟨d, hd, hcd⟩ := hd
      exact .inl (horphan c hcp d hd hcd)
    · push Not at hd
      rw [hparent c hcp hck hd]
      rcases hf.parent hl with h | ⟨q, hq⟩
      · exact .inl h
      · exact .inr ⟨q, (mem_bereaved hf).mpr
          ⟨hq, fun e => hck (e ▸ hq), fun hm => hd q hm hq, hcp⟩⟩
  · obtain ⟨rank, hr⟩ := hf.ranked
    exact ⟨rank, fun q c hc => hr q c ((mem_bereaved hf).mp hc).1⟩

lemma not_own_child (h : FamilyTree L k kids) (p : Slot) : p ∉ kids p := by
  obtain ⟨rank, hr⟩ := h.ranked
  exact fun hp => absurd (hr p p hp) (lt_irrefl _)

lemma Bereaves.before (h : SameKin k k') (hb : Bereaves kids p k' k'') : Bereaves kids p k k'' := by
  have hold : ∀ x, Live k'' x → Live k x := fun x hx => (h.live x).mp ((hb.live x).mp hx).1
  exact ⟨fun x => (hb.live x).trans (and_congr_left' (h.live x)),
    fun x hx => (hb.pid x hx).trans (h.pid x (hold x hx)), hb.orphan,
    fun x hx hd => (hb.parent x hx hd).trans (h.parent x (hold x hx)), hb.family⟩

lemma Bereaves.after (hb : Bereaves kids p k k') (h : SameKin k' k'') : Bereaves kids p k k'' := by
  have hmid : ∀ x, Live k'' x → Live k' x := fun x => (h.live x).mp
  exact ⟨fun x => (h.live x).trans (hb.live x),
    fun x hx => (h.pid x (hmid x hx)).trans (hb.pid x (hmid x hx)),
    fun x hx c hc hm => (h.parent x (hmid x hx)).trans (hb.orphan x (hmid x hx) c hc hm),
    fun x hx hd => (h.parent x (hmid x hx)).trans (hb.parent x (hmid x hx) hd),
    h.family hb.family⟩

/-- `p` is marked, and nothing else is different. -/
structure Marked (p : Slot) (k k' : Kernel) : Prop where
  self : k'.procs p = { k'.procs p with
    pid := (k.procs p).pid, parentPid := (k.procs p).parentPid, used := (k.procs p).used
    state := .exited }
  others : ∀ x, x ≠ p → k'.procs x = k.procs x
  heads : k'.childHead = k.childHead
  next : k'.siblingNext = k.siblingNext
  nextPid : k'.nextPid = k.nextPid

lemma Marked.of_exitMark (k : Kernel) (p : Slot) (code : Int) (valid : Pcb → Bool) :
    Marked p k ((unready k p).modify p (exitMark code valid)) := by
  have hw := unready_write k p
  refine ⟨?_, fun x hx => ?_, (congrArg Kernel.childHead hw :), (congrArg Kernel.siblingNext hw :),
    (congrArg Kernel.nextPid hw :)⟩
  · rw [Kernel.modify_procs_self, unready_procs]
    rfl
  · rw [Kernel.modify_procs_of_ne _ _ hx, unready_procs]

lemma Marked.pcb (h : Marked p k k') (x : Slot) : (k'.procs x).pid = (k.procs x).pid ∧
    (k'.procs x).parentPid = (k.procs x).parentPid ∧ (k'.procs x).used = (k.procs x).used ∧
    (Live k' x ↔ Live k x ∧ x ≠ p) := by
  by_cases hx : x = p
  · subst hx
    have h1 := h.self
    refine ⟨(congrArg Pcb.pid h1 :), (congrArg Pcb.parentPid h1 :), (congrArg Pcb.used h1 :), ?_⟩
    refine iff_of_false (fun hl => hl.2 (congrArg Pcb.state h1 :)) fun hl => hl.2 rfl
  · rw [Live, Live, h.others x hx]
    simp [hx]

/-- A marked process is buried with its children. -/
theorem bury_bereaves (hm : Marked p k k') (hs : Sound k') (hl : Listed anything (Agenda.idle.die p) k')
    (hf : Family k kids) (hn : Numbers k) : Bereaves kids p k (buryProc k' p) := by
  have hJ := listed_rule anything
  have hforest : Forest k'.childHead k'.siblingNext kids := by
    rw [hm.heads, hm.next]
    exact hf.forest
  have halive : ∀ c ∈ kids p, (k'.procs c).state ≠ .exited := by
    intro c hc
    have hcp : c ≠ p := fun e => not_own_child hf p (e ▸ hc)
    exact ((hm.pcb c).2.2.2.mpr ⟨(hf.child hc).2.1, hcp⟩).2
  obtain ⟨h2, hfate⟩ := detachChildren_forest hforest (not_own_child hf p) halive
  have hn2 : Numbers (detachChildren k' p) := by
    have hn1 : Numbers k' := hn.numbered
      (fun x hx => ⟨(hm.pcb x).2.2.1 ▸ hx, (hm.pcb x).1⟩) (hm.nextPid ▸ hn.next)
    exact hn1.steady ((Steady.closed none).detachChildren k' p)
  obtain ⟨hs2, hJ2⟩ := goes_detachChildren hJ trivial (fun _ _ => trivial) hl
  have hs3 := steps_sound hs hs2
  have hsame := hm.pcb
  have hbury : buryProc k' p = enqueueZombie (cleanupWaitResults (dropTable wake
      (notifyParentExit (detachChildren k' p) p) p) p) p := rfl
  rw [hbury]
  generalize detachChildren k' p = k2 at h2 hfate hn2 hs2 hJ2 hs3 ⊢
  have hlist : ∀ q, p ∈ (if q = p ∨ q ∈ kids p then [] else kids q) →
      p ∈ kids q ∧ q ≠ p ∧ q ∉ kids p := by
    intro q hq
    split at hq
    · cases hq
    · rename_i hno
      rw [not_or] at hno
      exact ⟨hq, hno⟩
  obtain ⟨h3, hbut⟩ := farewell_forest (p := p) h2 hn2 fun q hq => by
    obtain ⟨hpq, hqp, hqk⟩ := hlist q hq
    obtain ⟨hlq, -, e⟩ := hf.child hpq
    refine ⟨?_, ?_⟩
    · rw [(hfate q).used, (hsame q).2.2.1]
      exact hlq.1
    · rw [(hfate p).parent, (hfate q).pid, (hsame p).2.1, (hsame q).1, e]
      rintro (hp | ⟨c, hc, hpc⟩)
      · exact not_own_child hf p hp
      · exact hqk (hf.forest.apart hpq hpc ▸ hc)
  obtain ⟨hs4, hJ4⟩ := goes_farewell (a := Agenda.idle.die p) hJ trivial (fun _ => trivial)
    (.inl rfl) hJ2
  have hb : Bereaves kids p k (farewell k2 p) := by
    refine bereaves_of_fates hf (fun x => ?_) (fun x => ?_) (fun x hx c hc hxc => ?_)
      (fun x hx hxp hno => ?_) ?_
    · rw [hbut.pid, (hfate x).pid, (hsame x).1]
    · rw [Live, hbut.used, hbut.state, (hfate x).used, ← and_assoc, ← (hsame x).2.2.2, Live]
      by_cases hxp : x ∈ kids p
      · simp [(hfate x).dead hxp, hxp]
      · simp [(hfate x).alive hxp, hxp]
    · rw [hbut.parent x hx]
      exact (hfate x).orphan (.inr ⟨c, hc, hxc⟩)
    · rw [hbut.parent x hx, (hfate x).parent, (hsame x).2.1]
      rintro (h | ⟨c, hc, hxc⟩)
      · exact hxp h
      · exact hno c hc hxc
    · have e : (fun x => (if x = p ∨ x ∈ kids p then [] else kids x).erase p) =
          bereaved kids p := by
        funext x
        rw [bereaved_eq]
        split
        · rfl
        · rfl
      exact e ▸ h3
  refine Bereaves.after hb (steps_kin (steps_sound hs3 hs4) ?_)
  have hR := listed_rule homely
  have hJ5 : Listed homely ((Agenda.idle.die p).ripen p) (farewell k2 p) :=
    ⟨⟨hJ4.dying, hJ4.ripe, .inr fun _ => trivial⟩, hJ4.zombies⟩
  have hnotify : Steps homely (farewell k2 p) (notifyParentExit k2 p) ∧
      Listed homely ((Agenda.idle.die p).ripen p) (notifyParentExit k2 p) := by
    rcases notifyParentExit_farewell k2 p with e | ⟨parent, -, e⟩
    · rw [e]
      exact ⟨.refl, hJ5⟩
    · rw [e]
      exact goes_wakeParent hR (fun _ => trivial) _ parent hJ5
  obtain ⟨h5, hJ6⟩ := hnotify
  obtain ⟨h6, hJ7⟩ := goes_dropTable (hR.ofZombies _) (hR.closeOk _) (notifyParentExit k2 p) p hJ6
  have hpe := (hR.meets hJ7).dying p (.inl rfl)
  have h7 := calm_cleanupWaitResults (dropTable wake (notifyParentExit k2 p) p) p hpe
  exact ((h5.trans h6).tail (.still h7.still)).tail (.still (still_enqueueZombie _ p))

/-- A family in a kernel at rest. -/
structure AtHome (k : Kernel) (kids : Slot → List Slot) : Prop where
  sound : Sound k
  zombies : Listed homely .idle k
  family : Family k kids
  numbers : Numbers k

lemma Kept.atHome (h : Kept σ idle) (hf : Family σ.k kids) (hn : Numbers σ.k) :
    AtHome σ.k kids :=
  ⟨h.sane.sound, h.zombies.listed fun _ => trivial, hf, hn⟩

lemma AtHome.goes (h : AtHome k kids) (hg : Goes (Listed homely .idle) homely k k')
    (hn : Numbers k → Numbers k') : AtHome k' kids ∧ SameKin k k' := by
  obtain ⟨h1, hJ⟩ := hg h.zombies
  have hkin := steps_kin h.sound h1
  exact ⟨⟨steps_sound h.sound h1, hJ, hkin.family h.family, hn h.numbers⟩, hkin⟩

lemma AtHome.collect (h : AtHome k kids) :
    AtHome (collectZombies k) kids ∧ SameKin k (collectZombies k) :=
  h.goes ((listed_rule homely).collects .idle k) fun hn =>
    hn.steady ((Steady.closed none).collectZombies k)

lemma AtHome.exitRelease (h : AtHome k kids) (p : Slot) :
    AtHome (exitRelease k p) kids ∧ SameKin k (exitRelease k p) := by
  have hcl := Steady.closed none
  refine h.goes (goes_exitRelease ((listed_rule homely).ofZombies _) trivial k p).1 fun hn => ?_
  exact (ForegroundWrite.exit _ p).numbers (hn.steady
    ((hcl.ksemRemoveWaitersFor k p).trans (hcl.semCleanupProcessHandles _ _)))

lemma AtHome.killRelease (h : AtHome k kids) (p : Slot) :
    AtHome (killRelease k p) kids ∧ SameKin k (killRelease k p) := by
  refine h.goes (goes_killRelease ((listed_rule homely).ofZombies _) trivial k p).1 fun hn => ?_
  exact (ForegroundWrite.kill _ p).numbers
    (hn.steady ((Steady.closed none).ksemRemoveWaitersFor k p))

lemma listed_anything {s : Scope} {a : Agenda} (h : Listed s a k) : Listed anything a k :=
  ⟨⟨h.dying, h.ripe, .inr fun _ => trivial⟩, h.zombies⟩

lemma listed_homely {s : Scope} {a : Agenda} (h : Listed s a k) : Listed homely a k :=
  ⟨⟨h.dying, h.ripe, .inr fun _ => trivial⟩, h.zombies⟩

/-- Marking and burying a process that is not `EXITED`. -/
lemma AtHome.terminate (h : AtHome k kids) (he : (k.procs p).state ≠ .exited) (code : Int)
    (valid : Pcb → Bool) :
    Bereaves kids p k (buryProc ((unready k p).modify p (exitMark code valid)) p) := by
  have hl := listed_anything h.zombies
  have h1 : Act anything k ((unready k p).modify p (exitMark code valid)) :=
    act_retire trivial he _ (fun _ => rfl) fun _ => rfl
  have hJ1 := (listed_rule anything).die hl he
    (grows_retire (exitMark code valid) (fun _ => rfl) fun _ h => h)
  exact bury_bereaves (.of_exitMark k p code valid) (act_sound h.sound h1) hJ1 h.family h.numbers

lemma exitBuried_bereaves (h : AtHome k kids) (hx : Executing k p) (code : Int) :
    Bereaves kids p k (exitBuried k p code) := by
  obtain ⟨h1, hkin1⟩ := h.collect
  obtain ⟨h0, -⟩ := (listed_rule homely).collect .idle k h.zombies
  have hx1 := steps_executing h.sound h0 id hx
  unfold exitBuried
  generalize collectZombies k = k1 at *
  obtain ⟨h2, hkin2⟩ := h1.exitRelease p
  have hx2 := (goes_exitRelease (s := homely) ((listed_rule homely).ofZombies .idle) trivial k1 p).2
    |>.executing hx1
  have hb := h2.terminate (p := p) (by simp [hx2.running]) code fun c => c.pendingExitValid
  rw [unready_running hx2.running] at hb
  exact Bereaves.before (hkin1.trans hkin2) hb

/-- The exit of the current process. -/
lemma exit_bereaves (h : Kept σ idle) (hf : Family σ.k kids) (hn : Numbers σ.k)
    (hc : σ.k.current = some p) (hi : σ.k.idleProc ≠ some p) (code : Int) :
    Bereaves kids p σ.k (procExit σ.k σ.exec code).1 := by
  have hs := Kept.atHome h hf hn
  obtain ⟨-, hx⟩ := h.current p hc
  have hc1 : (collectZombies σ.k).current = some p := (collect_current h).trans hc
  have hi1 : (collectZombies σ.k).idleProc ≠ some p := by
    rw [collect_idle h.sane.sound h.zombies]
    exact hi
  rw [procExit_buried σ.exec hc1 hi1]
  have hl : Listed (losing (Household σ.k p)) .idle σ.k := h.zombies.listed fun _ => trivial
  obtain ⟨h1, -⟩ := goes_exitBuried (listed_rule (losing (Household σ.k p))) trivial trivial
    (fun _ => trivial) hs.sound hx (dies_household σ.k p) (.inl fun _ => trivial) hl code
  exact Bereaves.after (exitBuried_bereaves hs hx code)
    (.turn (yield_turned h h1 (household_not_idle h hi)))

/-- Marking and burying a process, whether it is `EXITED` already or not. -/
lemma AtHome.rebury (h : AtHome k kids) (hu : (k.procs p).used)
    (hz : (k.procs p).state = .exited → Listed anything (Agenda.idle.die p) k) :
    Bereaves kids p k (buryProc ((unready k p).modify p (exitMark 0 fun _ => false)) p) ∧
      Sound (buryProc ((unready k p).modify p (exitMark 0 fun _ => false)) p) ∧
      Listed homely .idle (buryProc ((unready k p).modify p (exitMark 0 fun _ => false)) p) := by
  have hJ := listed_rule anything
  have hd : Dies anything k p := ⟨trivial, fun _ _ => trivial⟩
  by_cases he : (k.procs p).state = .exited
  · obtain ⟨h1, hJ1⟩ := goes_rebury hJ trivial (fun _ => trivial) (fun _ => id) hu hd
      (.inl fun _ => trivial) he (hz he)
    refine ⟨?_, steps_sound h.sound h1, listed_homely hJ1⟩
    have hst : Still k ((unready k p).modify p (exitMark 0 fun _ => false)) := by
      have hun : unready k p = k := if_neg (by simp [he])
      rw [hun]
      apply still_modify_exited k p _ he
      · rw [exitMark, SameSched, he]
      · exact .inr rfl
    have hz1 : SameZombies k ((unready k p).modify p (exitMark 0 fun _ => false)) := by
      have hun : unready k p = k := if_neg (by simp [he])
      rw [hun]
      apply sameZombies_modify
      · simp [exitMark, he]
      · rfl
    exact bury_bereaves (.of_exitMark k p 0 _) (act_sound h.sound (.still (s := anything) hst))
      (hJ.ofZombies _ _ _ hz1 (hz he)) h.family h.numbers
  · obtain ⟨h1, hJ1⟩ := goes_terminate hJ trivial (fun _ => trivial) he hu hd
      (.inl fun _ => trivial) 0 (fun _ => false) (listed_anything h.zombies)
    exact ⟨h.terminate he 0 _, steps_sound h.sound h1, listed_homely hJ1⟩

/-- The kill of a process that is found. -/
lemma kill_bereaves {pid : Int} (h : Kept σ idle) (hf : Family σ.k kids) (hn : Numbers σ.k)
    (hp : procByPid (collectZombies σ.k) pid = some p) (hi : σ.k.idleProc ≠ some p) :
    Bereaves kids p σ.k (procKill σ.k σ.exec pid).1 := by
  have hs := Kept.atHome h hf hn
  obtain ⟨hs1, hkin1⟩ := hs.collect
  obtain ⟨hs2, hkin2⟩ := hs1.killRelease p
  have hkin := hkin1.trans hkin2
  have hi1 : (collectZombies σ.k).idleProc ≠ some p := by
    rw [collect_idle h.sane.sound h.zombies]
    exact hi
  obtain ⟨-, hu, -⟩ := procByPid_some hp
  have hg := (goes_killRelease (s := homely) ((listed_rule homely).ofZombies .idle) trivial
    (collectZombies σ.k) p).2
  have hu2 : ((killRelease (collectZombies σ.k) p).procs p).used := (hg.procs p).used.trans hu
  by_cases hc : σ.k.current = some p
  · have hx := (h.current p hc).2
    obtain ⟨h0, -⟩ := (listed_rule homely).collect .idle σ.k hs.zombies
    have hx1 := steps_executing hs.sound h0 id hx
    have hx2 := hg.executing hx1
    have hi2 : (killRelease (collectZombies σ.k) p).idleProc ≠ some p := by
      rw [hg.idle]
      exact hi1
    obtain ⟨h3, -⟩ := (listed_rule homely).collect .idle _ hs2.zombies
    have hx3 := steps_executing hs2.sound h3 id hx2
    have hi3 : (collectZombies (killRelease (collectZombies σ.k) p)).idleProc ≠ some p := by
      rw [(steps_static hs2.sound h3).1]
      exact hi2
    rw [procKill_self σ.exec hx1 hp hi1, procExit_buried σ.exec hx3.current hi3]
    have hJ := listed_rule (losing (Household σ.k p))
    have hl : Listed (losing (Household σ.k p)) .idle σ.k := h.zombies.listed fun _ => trivial
    obtain ⟨h4, hl1⟩ := hJ.collects .idle σ.k hl
    obtain ⟨h4', -⟩ := hJ.collect .idle σ.k hl
    obtain ⟨h5, hl2⟩ := (goes_killRelease (s := losing (Household σ.k p)) (hJ.ofZombies _)
      trivial (collectZombies σ.k) p).1 hl1
    have hd := ((dies_household σ.k p).shrinks (steps_shrinks id hs.sound h4')).shrinks hg.shrinks
    obtain ⟨h6, -⟩ := goes_exitBuried hJ trivial trivial (fun _ => trivial) hs2.sound hx2 hd
      (.inl fun _ => trivial) hl2 0
    refine Bereaves.after (Bereaves.before hkin (exitBuried_bereaves hs2 hx2 0)) (.turn ?_)
    exact yield_turned h ((h4.trans h5).trans h6) (household_not_idle h hi)
  · have hc2 : (killRelease (collectZombies σ.k) p).current ≠ some p := by
      rw [hg.current, collect_current h]
      exact hc
    have e : (procKill σ.k σ.exec pid).1 = collectZombies (buryProc
        ((unready (killRelease (collectZombies σ.k) p) p).modify p (exitMark 0 fun _ => false))
        p) := by
      rw [procKill_eq, hp]
      dsimp only
      rw [if_neg hi1, killTail, if_neg fun hb => hc2 hb.2]
    have hz : ((killRelease (collectZombies σ.k) p).procs p).state = .exited →
        Listed anything (Agenda.idle.die p) (killRelease (collectZombies σ.k) p) := by
      intro he
      rw [(hg.procs p).state] at he
      have hJ := listed_rule anything
      have hl := hJ.claim (listed_anything hs.zombies) (fun _ => id) he
      exact ((goes_killRelease (s := anything) (hJ.ofZombies _) trivial (collectZombies σ.k) p).1
        hl).2
    obtain ⟨hb, hsound, hl⟩ := hs2.rebury hu2 hz
    rw [e]
    refine Bereaves.after (Bereaves.before hkin hb) (steps_kin hsound ?_)
    exact ((listed_rule homely).collects .idle _ hl).1

/-- What the descriptor table of a new process changes beside files and tables: nothing. -/
lemma furnish_links (k : Kernel) (p : Slot) (t : Nat) :
    (furnish k p t).current = k.current ∧
      (furnish k p t).schedulerEnabled = k.schedulerEnabled ∧
      (furnish k p t).childHead =
        k.current.elim k.childHead (fun c => update k.childHead c (some p)) ∧
      (furnish k p t).siblingNext =
        k.current.elim k.siblingNext fun c => update k.siblingNext p (k.childHead c) := by
  have hcalm : ∀ {k k' : Kernel}, Calm k k' → k'.current = k.current ∧
      k'.schedulerEnabled = k.schedulerEnabled ∧ k'.childHead = k.childHead ∧
      k'.siblingNext = k.siblingNext := fun h =>
    ⟨h.still.queues.current, h.still.queues.schedulerEnabled,
      funext fun x => (h.still.links x id).1, funext fun x => (h.still.links x id).2⟩
  unfold furnish
  have h0 := hcalm (calm_modify k p (fun c => { c with fdTable := some t }) rfl
    (fun _ => SameResults.refl _) (.inl rfl) rfl)
  generalize (k.modify p fun c => { c with fdTable := some t }) = k0 at h0 ⊢
  obtain ⟨e1, e2, e3, e4⟩ := h0
  dsimp only
  rw [← e1]
  cases hc : k0.current with
  | none =>
    obtain ⟨e5, e6, e7, e8⟩ := hcalm (calm_fdTableAttachStd k0 t)
    exact ⟨e5.trans hc, e6.trans e2, e7.trans e3, e8.trans e4⟩
  | some c =>
    dsimp only
    have hlink : ∀ k1, Calm k0 k1 → (linkChild k1 c p).current = some c ∧
        (linkChild k1 c p).schedulerEnabled = k.schedulerEnabled ∧
        (linkChild k1 c p).childHead = update k.childHead c (some p) ∧
        (linkChild k1 c p).siblingNext = update k.siblingNext p (k.childHead c) := by
      intro k1 h1
      obtain ⟨e5, e6, e7, e8⟩ := hcalm h1
      refine ⟨e5.trans hc, e6.trans e2, ?_, ?_⟩
      · change update k1.childHead c (some p) = _
        rw [e7, e3]
      · change update k1.siblingNext p (k1.childHead c) = _
        rw [e8, e4, e7, e3]
    cases (k0.procs c).fdTable with
    | none => exact hlink _ (calm_fdTableAttachStd k0 t)
    | some src => exact hlink _ (calm_fdTableClone k0 t src)

/-- A process in a free slot joins the family. -/
lemma family_begot (hf : Family k kids) (hi : ¬Live k i)
    (hcur : ∀ c, k.current = some c → Live k c)
    (hlive : ∀ x, Live k' x ↔ Live k x ∨ x = i)
    (hpcb : ∀ x, Live k x → (k'.procs x).pid = (k.procs x).pid ∧
      (k'.procs x).parentPid = (k.procs x).parentPid)
    (hself : (k'.procs i).parentPid = newParent k)
    (hhead : k'.childHead = k.current.elim k.childHead fun c => update k.childHead c (some i))
    (hnext : k'.siblingNext =
      k.current.elim k.siblingNext fun c => update k.siblingNext i (k.childHead c)) :
    Family k' (begot kids k.current i) := by
  have hout : ∀ q, i ∉ kids q := fun q hq => hi (hf.child hq).2.1
  have hkeep : ∀ {q c}, c ∈ kids q → Live k' q ∧ Live k' c ∧
      (k'.procs c).parentPid = (k'.procs q).pid := by
    intro q c hc
    obtain ⟨h1, h2, h3⟩ := hf.child hc
    refine ⟨(hlive q).mpr (.inl h1), (hlive c).mpr (.inl h2), ?_⟩
    rw [(hpcb c h2).2, (hpcb q h1).1, h3]
  obtain ⟨rank, hr⟩ := hf.ranked
  cases hc : k.current with
  | none =>
    rw [hc] at hhead hnext
    refine ⟨?_, hkeep, fun {c} hl => ?_, rank, hr⟩
    · rw [hhead, hnext]
      exact hf.forest
    · rcases (hlive c).mp hl with h | rfl
      · rw [(hpcb c h).2]
        exact hf.parent h
      · left
        rw [hself, newParent, hc]
  | some d =>
    rw [hc] at hhead hnext
    have hd := hcur d hc
    have hne : i ≠ d := fun e => hi (e ▸ hd)
    have hmem : ∀ {q c}, c ∈ begot kids (some d) i q ↔ (c = i ∧ q = d) ∨ c ∈ kids q := by
      intro q c
      unfold begot
      by_cases hq : q = d
      · subst hq
        simp
      · simp [hq]
    refine ⟨?_, fun {q c} hm => ?_, fun {c} hl => ?_, update rank i (rank d + 1),
      fun q c hm => ?_⟩
    · rw [hhead, hnext]
      exact hf.forest.link hout d
    · rcases hmem.mp hm with ⟨rfl, rfl⟩ | h
      · refine ⟨(hlive q).mpr (.inl hd), (hlive c).mpr (.inr rfl), ?_⟩
        rw [hself, newParent, hc, (hpcb q hd).1]
      · exact hkeep h
    · rcases (hlive c).mp hl with h | rfl
      · rw [(hpcb c h).2]
        rcases hf.parent h with h | ⟨q, hq⟩
        · exact .inl h
        · exact .inr ⟨q, hmem.mpr (.inr hq)⟩
      · exact .inr ⟨d, hmem.mpr (.inl ⟨rfl, rfl⟩)⟩
    · rcases hmem.mp hm with ⟨rfl, rfl⟩ | h
      · rw [update_self, update_of_ne (Ne.symm hne)]
        omega
      · have hci : c ≠ i := fun e => hout q (e ▸ h)
        have hqi : q ≠ i := fun e => hi (e ▸ (hf.child h).1)
        rw [update_of_ne hci, update_of_ne hqi]
        exact hr q c h

/-- A slot that is claimed and set up has the links of a free slot. -/
lemma cleared_links (hf : Family k kids) (hi : ¬Live k i) (hc : Cleared k' i)
    (hl : ∀ q, q ≠ i → k'.childHead q = k.childHead q ∧ k'.siblingNext q = k.siblingNext q) :
    k'.childHead = k.childHead ∧ k'.siblingNext = k.siblingNext := by
  have hkids : kids i = [] :=
    List.eq_nil_iff_forall_not_mem.mpr fun c hc => hi (hf.child hc).1
  refine ⟨funext fun q => ?_, funext fun q => ?_⟩
  · by_cases hq : q = i
    · rw [hq, hc.2.1, hf.forest.head_none hkids]
    · exact (hl q hq).1
  · by_cases hq : q = i
    · rw [hq, hc.2.2, hf.forest.root i fun p hp => hi (hf.child hp).2.1]
    · exact (hl q hq).2

lemma installProc_links {k : Kernel} {i : Slot} (t : Nat) (fg : Bool)
    (hon : ¬(k.schedulerEnabled = false ∧ k.current = none)) :
    (installProc k i t fg).1.childHead =
        k.current.elim k.childHead (fun c => update k.childHead c (some i)) ∧
      (installProc k i t fg).1.siblingNext =
        k.current.elim k.siblingNext fun c => update k.siblingNext i (k.childHead c) := by
  obtain ⟨e1, e2, e3, e4⟩ := furnish_links k i t
  have hon' : ¬((furnish k i t).schedulerEnabled = false ∧ (furnish k i t).current = none) := by
    rw [e1, e2]
    exact hon
  obtain ⟨e5, e6⟩ := (schedEnqueue_write i hon').links
  rw [← e3, ← e4, ← e5, ← e6, installProc_eq]
  dsimp only
  split
  · exact ⟨rfl, rfl⟩
  · exact ⟨rfl, rfl⟩

/-- A `proc_create` that fails leaves the family alone. -/
theorem createTail_begets (hf : Family k kids) (hcur : ∀ c, k.current = some c → Live k c)
    (hon : ¬(k.schedulerEnabled = false ∧ k.current = none)) (prio : Int) (fg : Bool)
    (name : CStr) : SameKin k (createTail k prio fg name).1 ∨
      ∃ i, Begets kids i k (createTail k prio fg name).1 := by
  have hfree : ∀ i, (k.procs i).used = false → k.current ≠ some i := by
    intro i hu hc
    rw [(hcur i hc).1] at hu
    cases hu
  have hdead : ∀ {i}, (k.procs i).used = false → ¬Live k i := by
    rintro i hu ⟨h, -⟩
    rw [hu] at h
    cases h
  rcases createTail_outcome k hfree prio fg name with
    ⟨-, e⟩ | ⟨-, i, k1, hu, e, hg⟩ | ⟨-, i, k1, t, stack, hu, e, hp⟩
  · rw [e]
    exact .inl (.refl k)
  · rw [e]
    have hi := hdead hu
    have hne : ∀ x, Live k x → k1.procs x = k.procs x := fun x hx =>
      hg.write.procs x fun e => hi (e ▸ hx)
    obtain ⟨e1, e2⟩ := cleared_links hf hi hg.cleared hg.write.links
    refine .inl ⟨fun x => ?_, fun x hx => by rw [hne x hx], fun x hx => by rw [hne x hx],
      fun _ => shrinks_of_eq e1 e2, fun x _ => ⟨congrFun e1 x, congrFun e2 x⟩⟩
    by_cases hx : x = i
    · rw [hx]
      exact iff_of_false (fun h => by rw [Live, hg.used] at h; cases h.1) hi
    · rw [Live, Live, hg.write.procs x hx]
  · rw [e]
    have hi := hdead hu
    have hd := hp.drafted
    have hcurrent : k1.current = k.current := (congrArg Kernel.current hd.write.same :)
    have hon1 : ¬(k1.schedulerEnabled = false ∧ k1.current = none) := by
      rw [hcurrent, show k1.schedulerEnabled = k.schedulerEnabled from
        (congrArg Kernel.schedulerEnabled hd.write.same :)]
      exact hon
    have hprocs := installProc_procs (k := k1) (p := i) (by rw [hd.pcb]; rfl) hon1 t fg
    obtain ⟨e1, e2⟩ := cleared_links hf hi hd.cleared hd.write.links
    obtain ⟨e3, e4⟩ := installProc_links (i := i) t fg hon1
    rw [hcurrent, e1] at e3
    rw [hcurrent, e1, e2] at e4
    have hother : ∀ x, x ≠ i → (installProc k1 i t fg).1.procs x = k.procs x := by
      intro x hx
      rw [hprocs, update_of_ne hx, hd.write.procs x hx]
    have hlive : ∀ x, Live (installProc k1 i t fg).1 x ↔ Live k x ∨ x = i := by
      intro x
      by_cases hx : x = i
      · subst hx
        rw [Live, hprocs, update_self, hd.pcb]
        simp [newPcb, claimedPcb, initPcb]
      · rw [Live, Live, hother x hx]
        simp [hx]
    have hne : ∀ x, Live k x → (installProc k1 i t fg).1.procs x = k.procs x := fun x hx =>
      hother x fun e => hi (e ▸ hx)
    refine .inr ⟨i, hi, hlive, fun x hx => by rw [hne x hx], fun x hx => by rw [hne x hx], ?_⟩
    refine family_begot hf hi hcur hlive (fun x hx => by rw [hne x hx]; exact ⟨rfl, rfl⟩) ?_ e3 e4
    rw [hprocs, update_self, hd.pcb]
    rfl

/-- The calls of a process that neither create nor terminate one. -/
lemma ends_kin {Q : Kernel → Prop} {r : Kernel × Outcome} (h : Kept σ idle)
    (he : Ends Q homely σ.k σ.exec r) : SameKin σ.k r.1 := by
  obtain ⟨k1, h1, -, hturn⟩ := ends_turn h.sane h.enabled (fun c hc => (h.current c hc).2) id
    (fun _ _ => id) he
  exact (steps_kin h.sane.sound h1).trans (.turn hturn)

lemma SameKin.change (h : SameKin σ.k k') (hf : Family σ.k kids)
    (ht : ∀ p, e.Terminates σ p → ¬Live σ.k p) : KinChange σ e kids k' := by
  refine .same ht h.live (fun x hx => ?_) (h.family hf)
  have hx' := (h.live x).mp hx
  exact ⟨h.pid x hx', h.parent x hx'⟩

lemma no_end (hx : ∀ code, e ≠ .syscall (.exit code)) (hv : e.victim σ.k = none) (p : Slot)
    (ht : e.Terminates σ p) : ¬Live σ.k p := by
  rcases ht with ⟨⟨code, he⟩, -⟩ | ⟨-, he, -⟩
  · exact absurd he (hx code)
  · rw [hv] at he
    cases he

/-- A live process with a pid is found behind `collect_zombies`. -/
lemma collect_find (h : Kept σ idle) (hn : Numbers σ.k) (hp : Live σ.k p) :
    procByPid (collectZombies σ.k) (σ.k.procs p).pid = some p := by
  have hs := (Steady.closed none).collectZombies σ.k
  have hp1 := (collect_live h.sane.sound h.zombies p).mpr hp
  rw [← (hs.names p).1]
  exact (hn.steady hs).find hp1.1

lemma kill_kin {pid : Int} (h : Kept σ idle) (hf : Family σ.k kids) (hn : Numbers σ.k)
    (hv : e.victim σ.k = some pid) (hx : ∀ code, e ≠ .syscall (.exit code)) :
    KinChange σ e kids (procKill σ.k σ.exec pid).1 := by
  have hc := (AtHome.collect (Kept.atHome h hf hn)).2
  have hsteady := (Steady.closed none).collectZombies σ.k
  by_cases hp : ∃ p, procByPid (collectZombies σ.k) pid = some p ∧ σ.k.idleProc ≠ some p
  · obtain ⟨p, hp, hi⟩ := hp
    obtain ⟨-, hu, hpid⟩ := procByPid_some hp
    rw [(hsteady.names p).1] at hpid
    refine .ended (.inr ⟨hsteady.used p hu, ?_, hi⟩) (kill_bereaves h hf hn hp hi)
    rw [hv, hpid]
  · have e0 : (procKill σ.k σ.exec pid).1 = collectZombies σ.k := by
      rw [procKill_eq]
      split
      · rfl
      · rename_i p hp'
        rw [if_pos]
        rw [collect_idle h.sane.sound h.zombies]
        by_contra hi
        exact hp ⟨p, hp', hi⟩
    rw [e0]
    refine hc.change hf fun p ht hl => ?_
    rcases ht with ⟨⟨code, he⟩, -⟩ | ⟨-, he, hi⟩
    · exact hx code he
    · rw [hv, Option.some.injEq] at he
      exact hp ⟨p, he ▸ collect_find h hn hl, hi⟩

lemma create_kin {entry : Nat} {name : CStr} {prio : Int} {fg : Bool} (h : Kept σ idle)
    (hf : Family σ.k kids) (hn : Numbers σ.k)
    (he : e = .syscall (.createProcess (some entry) (some name) prio fg)) :
    KinChange σ e kids (procCreate σ.k (some entry) prio fg (some name)).1 := by
  obtain ⟨h1, hkin⟩ := (Kept.atHome h hf hn).collect
  have hcur := collect_current h
  obtain ⟨h2, -⟩ := (listed_rule homely).collects .idle σ.k (h.zombies.listed fun _ => trivial)
  have hen := (steps_static h.sane.sound h2).2.1.trans h.enabled
  have hlive : ∀ c, (collectZombies σ.k).current = some c → Live (collectZombies σ.k) c := by
    intro c hc
    have hx := (h.current c (hcur ▸ hc)).2
    exact (hkin.live c).mpr ⟨hx.used, by simp [hx.running]⟩
  rw [procCreate_some]
  rcases createTail_begets h1.family hlive (by simp [hen]) (clampPrio prio) fg name with
    hk | ⟨i, hb⟩
  · refine (hkin.trans hk).change hf (no_end ?_ ?_)
    · simp [he]
    · simp [he, Event.victim]
  · refine .begun he ⟨fun hi => hb.free ((hkin.live i).mpr hi), fun x => ?_, fun x hx => ?_,
      fun x hx => ?_, hcur ▸ hb.family⟩
    · rw [hb.live, hkin.live]
    · exact (hb.pid x ((hkin.live x).mpr hx)).trans (hkin.pid x hx)
    · exact (hb.parent x ((hkin.live x).mpr hx)).trans (hkin.parent x hx)

/-- An event terminates a process with its children, or creates a child of the current process,
or leaves the families alone. -/
theorem step_kin (h : Kept σ idle) (hf : Family σ.k kids) (hn : Numbers σ.k)
    (hs : System.step σ e = some σ') : KinChange σ e kids σ'.k := by
  have hl : Listed homely .idle σ.k := h.zombies.listed fun _ => trivial
  cases e with
  | syscall c =>
    simp only [System.step] at hs
    split at hs
    · rename_i hg
      cases hs
      have hni : ∀ c, σ.k.current = some c → σ.k.idleProc ≠ some c := by
        intro c hc
        rw [(h.current c hc).1]
        exact hg.2
      have hkeeps : Syscall.keepsProcs c = true → CallOk homely σ.k c →
          KinChange σ (.syscall c) kids (syscall σ.k σ.exec c).1 := by
        intro hk hd
        have he : Ends (Listed homely .idle) homely σ.k σ.exec (syscall σ.k σ.exec c) :=
          ends_keeping (fun _ => trivial) (fun _ => trivial) h.sane.sound hni hl hk hd
            fun _ => trivial
        refine SameKin.change (ends_kin h he) hf (no_end ?_ ?_)
        · rintro code he
          cases he
          cases hk
        · cases c with
          | kill pid => cases hk
          | _ => rfl
      cases c with
      | createProcess entry name prio fg =>
        have hnull : KinChange σ (.syscall (.createProcess entry name prio fg)) kids σ.k :=
          SameKin.change (.refl _) hf (no_end (by simp) rfl)
        cases entry with
        | none => exact hnull
        | some entry =>
          cases name with
          | none => exact hnull
          | some name => exact create_kin h hf hn rfl
      | kill pid => exact kill_kin h hf hn rfl (by simp)
      | exit code =>
        cases hc : σ.k.current with
        | none =>
          have hc0 := (collect_current h).trans hc
          have e0 : (procExit σ.k σ.exec code).1 = collectZombies σ.k := by
            rw [procExit_eq, hc0]
          simp only [syscall]
          rw [e0]
          refine SameKin.change (AtHome.collect (Kept.atHome h hf hn)).2 hf fun p ht => ?_
          rcases ht with ⟨-, hp⟩ | ⟨-, hv, -⟩
          · rw [hc] at hp
            cases hp
          · cases hv
        | some p =>
          exact .ended (.inl ⟨⟨code, rfl⟩, hc⟩) (exit_bereaves h hf hn hc (hni p hc) code)
      | block pid => exact hkeeps rfl fun _ _ => trivial
      | nice pid newPrio => exact hkeeps rfl fun _ _ => ⟨trivial, fun _ _ => trivial⟩
      | _ => exact hkeeps rfl trivial
    · cases hs
  | resume =>
    simp only [System.step, Option.map_eq_some_iff] at hs
    obtain ⟨r, hr, rfl⟩ := hs
    have he : Ends (Listed homely .idle) homely σ.k σ.exec r :=
      ends_resumed (fun _ => trivial) (fun _ => trivial) hl hr
    exact SameKin.change (ends_kin h he) hf (no_end (by simp) rfl)
  | tick =>
    simp only [System.step] at hs
    split at hs
    · cases hs
      exact SameKin.change (.turn (schedule_turn h)) hf (no_end (by simp) rfl)
    · cases hs
  | key c =>
    simp only [System.step] at hs
    split at hs
    · cases hs
      by_cases h3 : c = 3
      · simp only [ttyPushChar]
        rw [if_pos h3]
        split
        · exact kill_kin h hf hn (by simp [Event.victim, h3]) (by simp)
        · rename_i hneg
          refine SameKin.change (.refl _) hf fun p ht hlp => ?_
          rcases ht with ⟨⟨code, he⟩, -⟩ | ⟨hu, hv, -⟩
          · cases he
          · rw [Event.victim, if_pos h3, Option.some.injEq] at hv
            exact hneg (hv ▸ hn.pos p hu)
      · have he := ends_typed σ.exec (fun _ => trivial) hl h3
        exact SameKin.change (ends_kin h he) hf (no_end (by simp) (by simp [Event.victim, h3]))
    · cases hs

lemma KinChange.family (h : KinChange σ e kids k') : ∃ kids', Family k' kids' := by
  cases h with
  | ended _ h => exact ⟨_, h.family⟩
  | begun _ h => exact ⟨_, h.family⟩
  | same _ _ _ h => exact ⟨_, h⟩

/-- Behind `sched_init` nobody has a child. -/
lemma Alone.family (h : Alone k idle) : Family k fun _ => [] := by
  obtain ⟨stack, table, -, hself⟩ := h.self
  refine ⟨.empty (fun p => (h.links p).2.1) (fun p => (h.links p).2.2),
    fun hc => absurd hc List.not_mem_nil, fun {c} hc => .inl ?_,
    fun _ => 0, fun _ _ hc => absurd hc List.not_mem_nil⟩
  by_cases hi : c = idle
  · rw [hi, hself]
  · rw [Live, h.others c hi] at hc
    cases hc.1

lemma boot_family (h : Boot σ) : ∃ kids, Family σ.k kids := by
  obtain ⟨fails, idle, hk, hi, -⟩ := h
  rw [hk] at hi
  obtain ⟨k0, ha, e⟩ := bootKernel_cases hi
  have hx := ha.sane.2
  rw [hk, e]
  have hcur : ∀ c, k0.current = some c → Live k0 c := by
    intro c hc
    rw [hx.current, Option.some.injEq] at hc
    rw [← hc]
    exact ⟨hx.used, by simp [hx.running]⟩
  have hstart : ∀ {k kids}, Family k kids → Family (schedStart k) kids :=
    fun h => ⟨h.forest, h.child, h.parent, h.ranked⟩
  rcases createTail_begets (Alone.family ha) hcur (by simp [hx.current]) (clampPrio defaultPrio)
    true shellName with h | ⟨i, h⟩
  · exact ⟨_, hstart (h.family (Alone.family ha))⟩
  · exact ⟨_, hstart h.family⟩

/-- The processes on a list are the live processes with this parent. -/
lemma Family.mem_iff (hf : Family k kids) (hn : Numbers k) : c ∈ kids p ↔
    Live k p ∧ Live k c ∧ (k.procs c).parentPid = (k.procs p).pid := by
  refine ⟨hf.child, ?_⟩
  rintro ⟨hp, hc, e⟩
  rcases hf.parent hc with h1 | ⟨q, hq⟩
  · have := hn.pos p hp.1
    omega
  · obtain ⟨hq1, -, hq2⟩ := hf.child hq
    rwa [hn.distinct p q hp.1 hq1.1 (e.symm.trans hq2)]

lemma reach_family (h : Transition.Reach Boot System.step
    (fun σ e => SparesCaller σ e ∧ CreatesFresh σ e) σ) :
    ∃ idle kids, Kept σ idle ∧ Numbers σ.k ∧ Family σ.k kids := by
  apply h.invariant (I := fun σ => ∃ idle kids, Kept σ idle ∧ Numbers σ.k ∧ Family σ.k kids)
  · intro σ hb
    obtain ⟨idle, hk, -⟩ := boot_kept hb
    obtain ⟨-, -, -, hn⟩ := boot_change hb
    obtain ⟨kids, hf⟩ := boot_family hb
    exact ⟨idle, kids, hk, hn, hf⟩
  · rintro σ e σ' ⟨idle, kids, hk, hn, hf⟩ ⟨hsp, hfr⟩ hs
    obtain ⟨kids', hf'⟩ := KinChange.family (step_kin hk hf hn hs)
    exact ⟨idle, kids', (step_kept hk hsp hs).1, (step_change hk hn hsp hfr hs).numbers hn, hf'⟩

/-- In a run that gives out fresh pids, the links hold a forest: the list of a live process holds
the live processes whose parent it is, each of them once, and a live process on no list has no
parent. -/
theorem families (h : Transition.Reach Boot System.step
    (fun σ e => SparesCaller σ e ∧ CreatesFresh σ e) σ) :
    ∃ kids, Family σ.k kids ∧ ∀ p c, c ∈ kids p ↔
      Live σ.k p ∧ Live σ.k c ∧ (σ.k.procs c).parentPid = (σ.k.procs p).pid := by
  obtain ⟨idle, kids, -, hn, hf⟩ := reach_family h
  exact ⟨kids, hf, fun p c => Family.mem_iff hf hn⟩

/-- The shell has a child, which has a child. -/
def grandchild : System := Transition.final System.step plainEvent booted grandchildRun

lemma grandchild_reach : Transition.Reach Boot System.step
    (fun σ e => SparesCaller σ e ∧ CreatesFresh σ e) grandchild := by
  have h : Transition.Reach Boot System.step (fun σ e => plainEvent σ e) grandchild :=
    Transition.Reach.final grandchildRun booted_boot (by decide +kernel)
  refine h.mono fun σ e h => ?_
  obtain ⟨h1, h2, -⟩ := plainEvent_ok h
  exact ⟨h1, h2⟩

theorem families_sample : ∃ kids, Family grandchild.k kids ∧ 2 ∈ kids 1 ∧ 3 ∈ kids 2 := by
  obtain ⟨kids, hf, hm⟩ := families grandchild_reach
  refine ⟨kids, hf, (hm 1 2).mpr ?_, (hm 2 3).mpr ?_⟩
  · decide +kernel
  · decide +kernel

/-- Every event of such a run changes the families as it should; a process ends by a call. -/
theorem families_change (h : Transition.Reach Boot System.step
    (fun σ e => SparesCaller σ e ∧ CreatesFresh σ e) σ) (hs : System.step σ e = some σ') :
    ∃ kids, Family σ.k kids ∧ KinChange σ e kids σ'.k := by
  obtain ⟨idle, kids, hk, hn, hf⟩ := reach_family h
  exact ⟨kids, hf, step_kin hk hf hn hs⟩

/-- The child exits. -/
theorem families_change_sample : ∃ σ' kids, System.step grandchild (.syscall (.exit 0)) = some σ' ∧
    Family grandchild.k kids ∧ KinChange grandchild (.syscall (.exit 0)) kids σ'.k := by
  obtain ⟨σ', hs⟩ := Option.isSome_iff_exists.mp
    (show (System.step grandchild (.syscall (.exit 0))).isSome = true by decide +kernel)
  obtain ⟨kids, h⟩ := families_change grandchild_reach hs
  exact ⟨σ', kids, hs, h⟩

end TP2Kernel.Proofs
