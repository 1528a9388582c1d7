import TP2Kernel.Proofs.Reaping

/-!
# Terminating processes

`detach_children`, `notify_parent_exit` and the end that `proc_exit` and `proc_kill` share,
as sequences of actions that keep a description of the zombie list.
-/

namespace TP2Kernel.Proofs
open Function LinkedList

variable {s : Scope} {J : Agenda → Kernel → Prop} {a : Agenda}

/-- The links between parents and children change, and processes lose their parent. -/
structure KinWrite (k k' : Kernel) : Prop where
  same : k' = { k with
    procs := k'.procs, childHead := k'.childHead, siblingNext := k'.siblingNext }
  procs : ∀ p, k'.procs p = k.procs p ∨ k'.procs p = { k.procs p with parentPid := -1 }
  linked : ∀ c, Linked k' c → Linked k c ∨ (k.procs c).state = .new

lemma KinWrite.refl (k : Kernel) : KinWrite k k := ⟨rfl, fun _ => .inl rfl, fun _ => .inl⟩

lemma KinWrite.trans {k k' k'' : Kernel} (h : KinWrite k k') (h' : KinWrite k' k'') :
    KinWrite k k'' := by
  refine ⟨?_, fun p => ?_, fun c hc => ?_⟩
  · rw [h'.same, h.same]
  · rcases h'.procs p with e | e
    · rw [e]
      exact h.procs p
    · rcases h.procs p with e' | e' <;> rw [e, e'] <;> exact .inr rfl
  · rcases h'.linked c hc with hc | hc
    · exact h.linked c hc
    · rcases h.procs c with e | e <;> rw [e] at hc <;> exact .inr hc

lemma KinWrite.grows {k k' : Kernel} (h : KinWrite k k') : Grows (fun _ => False) k k' := by
  refine ⟨(congrArg Kernel.cleanupNext h.same :), (congrArg Kernel.zombieHead h.same :),
    fun p => ?_, fun p hp => ?_, fun f => ?_⟩
  · rcases h.procs p with e | e <;> simp [e]
  · rcases h.procs p with e | e
    · rwa [e]
    · simp [e, reapable]
  · have : k'.files = k.files := (congrArg Kernel.files h.same :)
    rw [this]

lemma KinWrite.act {k k' : Kernel} (hs : s.kin) (h : KinWrite k k') : Act s k k' := by
  refine .kin hs ?_ (congrArg Kernel.heap h.same :) (fun p => ?_) h.linked
  · unfold SameQueues
    rw [h.same]
  · rcases h.procs p with e | e
    · exact ⟨(k.procs p).parentPid, e⟩
    · exact ⟨-1, e⟩

lemma KinWrite.goes (hJ : ZombieRule s J) (hs : s.kin) {k k' : Kernel} (h : KinWrite k k') :
    Goes (J a) s k k' := .act (h.act hs) fun hk => hJ.grows hk h.grows

/-- Links that are only cut or moved lead to the same processes. -/
def LinksFrom (k : Kernel) (head next : Slot → Option Slot) : Prop :=
  ∀ p c, head p = some c ∨ next p = some c → Linked k c

lemma linksFrom_self (k : Kernel) : LinksFrom k k.childHead k.siblingNext := fun p _ h => ⟨p, h⟩

lemma linksFrom_update {k : Kernel} {head next : Slot → Option Slot} (h : LinksFrom k head next)
    (p p' : Slot) {x y : Option Slot} (hx : ∀ c, x = some c → Linked k c)
    (hy : ∀ c, y = some c → Linked k c) :
    LinksFrom k (update head p x) (update next p' y) := by
  intro q c hq
  rcases hq with hq | hq
  · by_cases hqp : q = p
    · subst hqp
      exact hx c (by simpa using hq)
    · exact h q c (.inl (by simpa [hqp] using hq))
  · by_cases hqp : q = p'
    · subst hqp
      exact hy c (by simpa using hq)
    · exact h q c (.inr (by simpa [hqp] using hq))

lemma kinWrite_links {k : Kernel} {head next : Slot → Option Slot} (h : LinksFrom k head next) :
    KinWrite k { k with childHead := head, siblingNext := next } :=
  ⟨rfl, fun _ => .inl rfl, fun c ⟨p, hp⟩ => .inl (h p c hp)⟩

lemma kinWrite_cutChild (k : Kernel) (p : Slot) :
    KinWrite k { k with childHead := update k.childHead p none } := by
  have h := linksFrom_update (linksFrom_self k) p p (x := none) (y := k.siblingNext p)
    (by simp) fun c hc => ⟨p, .inr hc⟩
  rw [update_eq_self] at h
  exact kinWrite_links h

lemma kinWrite_cutSibling (k : Kernel) (p : Slot) :
    KinWrite k { k with siblingNext := update k.siblingNext p none } := by
  have h := linksFrom_update (linksFrom_self k) p p (x := k.childHead p) (y := none)
    (fun c hc => ⟨p, .inl hc⟩) (by simp)
  rw [update_eq_self] at h
  exact kinWrite_links h

lemma kinWrite_orphan (k : Kernel) (g : Slot) :
    KinWrite k (k.modify g fun c => { c with parentPid := -1 }) := by
  refine ⟨rfl, fun p => ?_, fun _ => .inl⟩
  by_cases hp : p = g
  · subst hp
    exact .inr (by simp [Kernel.modify])
  · exact .inl (by simp [Kernel.modify, hp])

lemma orphanLoop_kin (n : Nat) (g : Option Slot) (k : Kernel) : KinWrite k (orphanLoop n g k) := by
  induction n generalizing g k with
  | zero => exact .refl k
  | succ n ih =>
    cases g with
    | none => exact .refl k
    | some g =>
      have h1 := kinWrite_orphan k g
      exact (h1.trans (kinWrite_cutSibling _ g)).trans (ih _ _)

lemma orphanLoop_sibling (n : Nat) (g : Option Slot) (k : Kernel) (x : Slot) :
    (orphanLoop n g k).siblingNext x = k.siblingNext x ∨
      (orphanLoop n g k).siblingNext x = none := by
  induction n generalizing g k with
  | zero => exact .inl rfl
  | succ n ih =>
    cases g with
    | none => exact .inl rfl
    | some g =>
      rcases ih (k.siblingNext g) { k.modify g (fun c => { c with parentPid := -1 }) with
        siblingNext := update k.siblingNext g none } with h | h
      · by_cases hx : x = g
        · subst hx
          exact .inr (h.trans (update_self _ _ _))
        · exact .inl (h.trans (update_of_ne hx _ _))
      · exact .inr h

lemma unlinkChildLoop_links (parent child : Slot) (n : Nat) (prev cursor : Option Slot)
    (k : Kernel) : unlinkChildLoop parent child n prev cursor k =
      { k with
        childHead := (unlinkChildLoop parent child n prev cursor k).childHead
        siblingNext := (unlinkChildLoop parent child n prev cursor k).siblingNext } := by
  induction n generalizing prev cursor k with
  | zero => rfl
  | succ n ih =>
    cases cursor with
    | none => rfl
    | some c =>
      simp only [unlinkChildLoop]
      split
      · rfl
      · exact ih _ _ _

lemma unlinkChildLoop_from (parent child : Slot) (n : Nat) (prev cursor : Option Slot)
    (k : Kernel) : LinksFrom k (unlinkChildLoop parent child n prev cursor k).childHead
      (unlinkChildLoop parent child n prev cursor k).siblingNext := by
  induction n generalizing prev cursor k with
  | zero => exact linksFrom_self k
  | succ n ih =>
    cases cursor with
    | none => exact linksFrom_self k
    | some c =>
      simp only [unlinkChildLoop]
      split
      · have hnext : ∀ d, k.siblingNext c = some d → Linked k d := fun d hd => ⟨c, .inr hd⟩
        have hhead : ∀ d, spliceHead (k.childHead parent) prev (k.siblingNext c) = some d →
            Linked k d := by
          intro d hd
          cases prev with
          | none => exact hnext d hd
          | some b => exact ⟨parent, .inl hd⟩
        cases prev with
        | none =>
          exact linksFrom_update (linksFrom_self k) parent child hhead (by simp)
        | some b =>
          have h1 := linksFrom_update (linksFrom_self k) parent b hhead hnext
          have h2 := linksFrom_update h1 parent child hhead (y := none) (by simp)
          rwa [update_idem] at h2
      · exact ih _ _ _

lemma unlinkChild_kin (k : Kernel) (parent child : Slot) : KinWrite k (unlinkChild k parent child) := by
  have h := unlinkChildLoop_from parent child maxProcs none (k.childHead parent) k
  rw [unlinkChild, unlinkChildLoop_links]
  exact kinWrite_links h

/-- The mark that `detach_children` sets on a live child. -/
def markKilled (c : Pcb) : Pcb :=
  { c with exitCode := 0, state := .exited, ticksLeft := 0, waitingFor := 0
           pendingExitValid := false, parentPid := -1 }

lemma killChild_eq (k : Kernel) (c : Slot) :
    killChild k c = enqueueZombie (cleanupWaitResults (orphanLoop maxProcs (k.childHead c)
      { (unready k c).modify c markKilled with
        childHead := update k.childHead c none }) c) c := by
  have hc : (unready k c).childHead = k.childHead :=
    (congrArg Kernel.childHead (unready_write k c) :)
  rw [← hc]
  rfl

/-- A write that marks `p` as `EXITED`, behind `unready`. -/
lemma act_retire {k : Kernel} {p : Slot} (ht : s.terminated p) (he : (k.procs p).state ≠ .exited)
    (f : Pcb → Pcb)
    (hf : ∀ c, SameSched { c with state := .exited, parentPid := (f c).parentPid } (f c))
    (hw : ∀ c, (f c).waitingFor = 0) : Act s k ((unready k p).modify p f) := by
  have hu := unready_write k p
  refine .retire p ht he (off_modify _ p f (.inr (hw _))) ?_
    ⟨congrFun (congrArg Kernel.childHead hu :) p, congrFun (congrArg Kernel.siblingNext hu :) p⟩
    fun a ha => ?_
  · rw [Kernel.modify_procs_self, unready_procs]
    exact hf _
  · have : (unready k p).heap = k.heap := (congrArg Kernel.heap (unready_write k p) :)
    rw [StackFreed, ← this]
    exact ha

lemma grows_retire {k : Kernel} {p : Slot} (f : Pcb → Pcb) (hf : ∀ c, (f c).state = .exited)
    (hr : ∀ c, reapable c = true → reapable (f c) = true) :
    Grows (· = p) k ((unready k p).modify p f) := by
  have hw := unready_write k p
  have hp := unready_procs k p
  refine ⟨(congrArg Kernel.cleanupNext hw :), (congrArg Kernel.zombieHead hw :), fun x => ?_,
    fun x hx => ?_, fun f => ?_⟩
  · rw [Kernel.modify_procs, hp]
    by_cases hx : x = p
    · simp [hx, hf]
    · simp [hx]
  · rw [Kernel.modify_procs, hp]
    split
    · subst_vars
      exact hr _ hx
    · exact hx
  · have : (unready k p).files = k.files := (congrArg Kernel.files hw :)
    simp only [Kernel.modify, this]

lemma goes_killChild (hJ : ZombieRule s J) (hkin : s.kin) {k : Kernel} {c : Slot}
    (ht : s.terminated c) (he : (k.procs c).state ≠ .exited) :
    Goes (J a) s k (killChild k c) := by
  intro hk
  have hne : ∀ x, a.dying x → x ≠ c := by
    rintro x hx rfl
    exact he ((hJ.meets hk).dying x hx)
  rw [killChild_eq]
  obtain ⟨k1, hk1⟩ : ∃ k1, k1 = (unready k c).modify c markKilled := ⟨_, rfl⟩
  have h1 : Act s k k1 := hk1 ▸ act_retire ht he markKilled (fun _ => rfl) fun _ => rfl
  have hJ1 : J (a.die c) k1 :=
    hk1 ▸ hJ.die hk he (grows_retire markKilled (fun _ => rfl) fun _ _ => by simp [markKilled, reapable])
  have hpar : reapable (k1.procs c) = true := by
    rw [hk1, Kernel.modify_procs_self]
    simp [markKilled, reapable]
  have hch : k1.childHead = k.childHead := by
    rw [hk1]
    exact (congrArg Kernel.childHead (unready_write k c) :)
  rw [← hk1, ← hch]
  obtain ⟨k2, hk2⟩ : ∃ k2, k2 = orphanLoop maxProcs (k1.childHead c)
      { k1 with childHead := update k1.childHead c none } := ⟨_, rfl⟩
  have hkw : KinWrite k1 k2 := hk2 ▸ (kinWrite_cutChild k1 c).trans (orphanLoop_kin _ _ _)
  obtain ⟨h2, hJ2⟩ := hkw.goes hJ hkin hJ1
  rw [← hk2]
  have he2 := (hJ.meets hJ2).dying c (.inl rfl)
  have hc3 := calm_cleanupWaitResults k2 c he2
  obtain ⟨h3, hJ3⟩ := hc3.goes (s := s) (hJ.ofZombies _) hJ2
  refine ⟨((Relation.ReflTransGen.single h1).trans (h2.trans h3)).tail
    (.still (still_enqueueZombie _ c)), hJ.enqueue hJ3 hne ?_⟩
  exact (hc3.zombies.reapable c).trans (hkw.grows.reapable c hpar)

lemma killChild_sibling (k : Kernel) (c x : Slot) :
    (killChild k c).siblingNext x = k.siblingNext x ∨ (killChild k c).siblingNext x = none := by
  rw [killChild_eq]
  have h1 : ∀ k1 : Kernel, (cleanupWaitResults k1 c).siblingNext = k1.siblingNext := by
    intro k1
    have : ∀ (bs : List Block) (k : Kernel), (bs.foldl Kernel.mmFree k).siblingNext = k.siblingNext := by
      intro bs
      induction bs with
      | nil => exact fun _ => rfl
      | cons b bs ih => exact fun k => ih (k.mmFree b)
    exact this _ k1
  have h2 : (unready k c).siblingNext = k.siblingNext :=
    (congrArg Kernel.siblingNext (unready_write k c) :)
  have := orphanLoop_sibling maxProcs (k.childHead c)
    { (unready k c).modify c markKilled with childHead := update k.childHead c none } x
  simp only [enqueueZombie, h1]
  rwa [← h2]

/-- One iteration of `detach_children`, with the child unlinked in `k1`. -/
lemma detachLoop_some {k k1 : Kernel} {c : Slot}
    (hk1 : k1 = { k with siblingNext := update k.siblingNext c none }) (parent : Slot) (n : Nat) :
    detachLoop parent (n + 1) (some c) k =
      if (k1.procs c).state ≠ .exited then
        detachLoop parent n (k.siblingNext c) (killChild k1 c)
      else if (k1.procs c).parentPid = (k1.procs parent).pid then
        detachLoop parent n (k.siblingNext c) (k1.modify c fun c => { c with parentPid := -1 })
      else detachLoop parent n (k.siblingNext c) k1 := by
  rw [hk1]
  rfl

/-- The loop of `detach_children` terminates only processes of a set that the sibling links
do not leave. -/
lemma goes_detachLoop (hJ : ZombieRule s J) (hkin : s.kin) (parent : Slot) {S : Slot → Prop}
    (ht : ∀ c, S c → s.terminated c) (n : Nat) {child : Option Slot} {k : Kernel}
    (hc : ∀ c, child = some c → S c) (hn : ∀ c d, S c → k.siblingNext c = some d → S d) :
    Goes (J a) s k (detachLoop parent n child k) := by
  induction n generalizing child k with
  | zero => exact .refl _ s k
  | succ n ih =>
    cases child with
    | none => exact .refl _ s k
    | some c =>
      have hSc := hc c rfl
      have hnext : ∀ d, k.siblingNext c = some d → S d := fun d hd => hn c d hSc hd
      obtain ⟨k1, hk1⟩ : ∃ k1 : Kernel,
          k1 = { k with siblingNext := update k.siblingNext c none } := ⟨_, rfl⟩
      have hkw : KinWrite k k1 := hk1 ▸ kinWrite_cutSibling k c
      have hn1 : ∀ x d, S x → k1.siblingNext x = some d → S d := by
        intro x d hx hd
        rw [hk1] at hd
        by_cases hxc : x = c
        · subst hxc
          simp at hd
        · exact hn x d hx (by simpa [hxc] using hd)
      rw [detachLoop_some hk1]
      refine (hkw.goes hJ hkin).trans ?_
      split
      · rename_i he
        refine (goes_killChild hJ hkin (ht c hSc) he).trans (ih hnext fun x d hx hd => ?_)
        rcases killChild_sibling k1 c x with e | e
        · exact hn1 x d hx (e ▸ hd)
        · simp [e] at hd
      · split
        · exact ((kinWrite_orphan k1 c).goes hJ hkin).trans
            (ih hnext hn1)
        · exact ih hnext hn1

/-- `detach_children` terminates only processes on the list of children. -/
theorem goes_detachChildren (hJ : ZombieRule s J) (hkin : s.kin) {k : Kernel} {parent : Slot}
    (ht : ∀ c, OnChildList k parent c → s.terminated c) :
    Goes (J a) s k (detachChildren k parent) :=
  ((kinWrite_cutChild k parent).goes hJ hkin).trans
    (goes_detachLoop hJ hkin parent ht maxProcs (fun _ hc => .head hc) fun _ _ hc hd => .next hc hd)

lemma cleanupWaitResults_procs (k : Kernel) (p : Slot) :
    (cleanupWaitResults k p).procs = update k.procs p { k.procs p with
      waitRes := [], pendingExitValid := false, pendingExitPid := -1, pendingExitCode := 0 } := by
  have : ∀ (bs : List Block) (k : Kernel), (bs.foldl Kernel.mmFree k).procs = k.procs := by
    intro bs
    induction bs with
    | nil => exact fun _ => rfl
    | cons b bs ih => exact fun k => ih (k.mmFree b)
  simp only [cleanupWaitResults, Kernel.modify, this]

/-- Killing a child leaves every other process alone, but for its parent. -/
lemma killChild_procs_of_ne (k : Kernel) {c x : Slot} (hx : x ≠ c) :
    (killChild k c).procs x = k.procs x ∨
      (killChild k c).procs x = { k.procs x with parentPid := -1 } := by
  rw [killChild_eq]
  obtain ⟨k1, hk1⟩ : ∃ k1 : Kernel, k1 = { (unready k c).modify c markKilled with
      childHead := update k.childHead c none } := ⟨_, rfl⟩
  have h1 : k1.procs x = k.procs x := by
    rw [hk1]
    simp [Kernel.modify, hx, unready_procs]
  rw [← hk1]
  simp only [enqueueZombie, cleanupWaitResults_procs, update_of_ne hx]
  rw [← h1]
  exact (orphanLoop_kin _ _ _).procs x

/-- `detach_children` leaves the processes that it does not kill alone, but for their parent. -/
lemma detachLoop_procs (parent : Slot) {S : Slot → Prop} {x : Slot} (n : Nat)
    {child : Option Slot} {k : Kernel} (hc : ∀ c, child = some c → S c)
    (hn : ∀ c d, S c → k.siblingNext c = some d → S d)
    (hx : (k.procs x).state = .exited ∨ ¬S x) :
    (detachLoop parent n child k).procs x = k.procs x ∨
      (detachLoop parent n child k).procs x = { k.procs x with parentPid := -1 } := by
  induction n generalizing child k with
  | zero => exact .inl rfl
  | succ n ih =>
    cases child with
    | none => exact .inl rfl
    | some c =>
      have hSc := hc c rfl
      have hnext : ∀ d, k.siblingNext c = some d → S d := fun d hd => hn c d hSc hd
      obtain ⟨k1, hk1⟩ : ∃ k1 : Kernel,
          k1 = { k with siblingNext := update k.siblingNext c none } := ⟨_, rfl⟩
      have hp1 : k1.procs = k.procs := by rw [hk1]
      have hn1 : ∀ y d, S y → k1.siblingNext y = some d → S d := by
        intro y d hy hd
        rw [hk1] at hd
        by_cases hyc : y = c
        · subst hyc
          simp at hd
        · exact hn y d hy (by simpa [hyc] using hd)
      have hstep : ∀ k2 : Kernel, (k2.procs x = k.procs x ∨
          k2.procs x = { k.procs x with parentPid := -1 }) →
          (∀ y d, S y → k2.siblingNext y = some d → S d) →
          (detachLoop parent n (k.siblingNext c) k2).procs x = k.procs x ∨
            (detachLoop parent n (k.siblingNext c) k2).procs x =
              { k.procs x with parentPid := -1 } := by
        intro k2 h2 hn2
        have hx2 : (k2.procs x).state = .exited ∨ ¬S x := by
          rcases h2 with e | e <;> rw [e] <;> exact hx
        rcases ih hnext hn2 hx2 with e | e <;> rw [e] <;> rcases h2 with e2 | e2 <;> rw [e2]
        · exact .inl rfl
        · exact .inr rfl
        · exact .inr rfl
        · exact .inr rfl
      rw [detachLoop_some hk1]
      split
      · rename_i he
        have hxc : x ≠ c := by
          rintro rfl
          rcases hx with hx | hx
          · exact he (by rw [hp1]; exact hx)
          · exact hx hSc
        refine hstep _ ?_ fun y d hy hd => ?_
        · rw [← hp1]
          exact killChild_procs_of_ne k1 hxc
        · rcases killChild_sibling k1 c y with e | e
          · exact hn1 y d hy (e ▸ hd)
          · simp [e] at hd
      · split
        · refine hstep _ ?_ hn1
          rw [← hp1]
          exact (kinWrite_orphan k1 c).procs x
        · exact hstep _ (.inl (by rw [hp1])) hn1

lemma detachChildren_procs {k : Kernel} {parent x : Slot}
    (hx : (k.procs x).state = .exited ∨ ¬OnChildList k parent x) :
    (detachChildren k parent).procs x = k.procs x ∨
      (detachChildren k parent).procs x = { k.procs x with parentPid := -1 } :=
  detachLoop_procs parent (S := OnChildList k parent) maxProcs (fun _ hc => .head hc)
    (fun _ _ hc hd => .next hc hd) hx

lemma schedEnqueue_waiting (k : Kernel) (p x : Slot) :
    ((schedEnqueue k p).procs x).waitingFor = (k.procs x).waitingFor := by
  by_cases hon : k.schedulerEnabled = false ∧ k.current = none
  · unfold schedEnqueue
    rw [if_pos hon]
    simp only [Kernel.modify_procs]
    split <;> simp [*]
  · rw [schedEnqueue_procs p hon]
    by_cases hx : x = p
    · subst hx
      simp
    · simp [hx]

lemma act_waiting {k k' : Kernel} (h : Act s k k') (x : Slot) :
    (k'.procs x).waitingFor = (k.procs x).waitingFor ∨ (k'.procs x).waitingFor = 0 := by
  have hmod : ∀ (k : Kernel) (p : Slot) (f : Pcb → Pcb),
      (∀ c, (f c).waitingFor = c.waitingFor) →
      ((k.modify p f).procs x).waitingFor = (k.procs x).waitingFor := by
    intro k p f hf
    rw [Kernel.modify_procs]
    split
    · subst_vars
      exact hf _
    · rfl
  cases h with
  | still h => exact h.waiting x
  | note p _ h => exact h.waiting x
  | kin _ _ _ hp _ =>
    obtain ⟨parent, e⟩ := hp x
    exact .inl (by rw [e])
  | sems _ h => exact .inl (by rw [h])
  | reap p _ h => exact h.waiting x
  | wake p => exact .inl ((schedEnqueue_waiting _ _ _).trans (hmod k p _ fun _ => rfl))
  | retire p _ _ h =>
    have := h.waiting x
    rwa [unready_procs] at this
  | draft p _ _ _ _ h => exact h.waiting x
  | enter p => exact .inl (schedEnqueue_waiting _ _ _)
  | suspend p =>
    refine .inl ((hmod (unready k p) p _ ?_).trans (by rw [unready_procs k p]))
    exact fun _ => rfl
  | rebase p prio => exact .inl (hmod _ _ _ fun _ => rfl)
  | reprio p prio => exact .inl (hmod _ _ _ fun _ => rfl)
  | requeue p prio =>
    refine .inl ((schedEnqueue_waiting _ _ _).trans
      ((hmod (schedRemove k p) p _ ?_).trans (by rw [schedRemove_procs k p])))
    exact fun _ => rfl

lemma steps_waiting {k k' : Kernel} (h : Steps s k k') (hw : ∀ x, (k.procs x).waitingFor = 0)
    (x : Slot) : (k'.procs x).waitingFor = 0 := by
  induction h with
  | refl => exact hw x
  | tail _ ha ih => exact (act_waiting ha x).elim (fun e => e.trans ih) id

lemma pushWaitResult_eq (k : Kernel) (parent : Slot) (pid code : Int) :
    pushWaitResult k parent pid code = k.mmMalloc.1.modify parent fun c =>
      match k.mmMalloc.2 with
      | none => { c with pendingExitPid := pid, pendingExitCode := code, pendingExitValid := true }
      | some node => { c with waitRes := c.waitRes ++ [⟨node, pid, code⟩] } := by
  unfold pushWaitResult
  generalize k.mmMalloc = r
  obtain ⟨k1, m⟩ := r
  cases m <;> rfl

lemma pushWaitResult_sched (k : Kernel) (parent : Slot) (pid code : Int) (x : Slot) :
    SameSched (k.procs x) ((pushWaitResult k parent pid code).procs x) ∧
      ((pushWaitResult k parent pid code).procs x).waitingFor = (k.procs x).waitingFor := by
  rw [pushWaitResult_eq, Kernel.modify_procs]
  split
  · subst_vars
    generalize k.mmMalloc.2 = m
    cases m <;> exact ⟨rfl, rfl⟩
  · exact ⟨rfl, rfl⟩

/-- `push_wait_result` changes the results kept for the parent. -/
lemma goes_pushWaitResult (hJ : ZombieRule s J) {k : Kernel} {parent : Slot}
    (hn : s.noted parent) (pid code : Int) : Goes (J a) s k (pushWaitResult k parent pid code) := by
  rw [pushWaitResult_eq]
  refine ((calm_mmMalloc k).goes (hJ.ofZombies a)).trans ?_
  generalize k.mmMalloc.1 = k1
  generalize k.mmMalloc.2 = m
  refine .act (.note parent hn (off_modify k1 parent _ ?_) ?_ ⟨rfl, rfl⟩ fun _ h => h)
    (hJ.ofZombies a _ _ (sameZombies_modify k1 parent _ ?_ ?_))
  · cases m <;> exact .inl rfl
  · rw [Kernel.modify_procs_self]
    cases m <;> rfl
  · cases m <;> exact .rfl
  · cases m <;> rfl

/-- Either everyone may be woken, or nobody waits for a child. -/
def NotifyOk (s : Scope) (k : Kernel) (p : Slot) : Prop :=
  (∀ q, s.woken q) ∨ ((∀ q, (k.procs q).waitingFor = 0) ∧ (k.procs p).pid ≠ 0)

lemma still_modify_exited (k : Kernel) (p : Slot) (f : Pcb → Pcb)
    (he : (k.procs p).state = .exited) (hs : SameSched (k.procs p) (f (k.procs p)))
    (hw : (f (k.procs p)).waitingFor = (k.procs p).waitingFor ∨ (f (k.procs p)).waitingFor = 0) :
    Still k (k.modify p f) := by
  have h := off_modify k p f hw
  have hall : ∀ x, SameSched (k.procs x) ((k.modify p f).procs x) := by
    intro x
    by_cases hx : x = p
    · subst hx
      rwa [Kernel.modify_procs_self]
    · exact h.procs x hx
  refine ⟨h.queues, fun x _ => hall x, fun _ _ => ⟨rfl, rfl⟩, fun x _ hx => h.results x ?_ hx,
    h.waiting, h.next, h.fails, fun _ hb => .inl hb⟩
  rintro rfl
  exact hx he

/-- `notify_parent_exit` up to the wake-up of the parent. -/
def farewell (k : Kernel) (p : Slot) : Kernel :=
  let k := k.modify p fun c => { c with zombieReapable := true }
  if (k.procs p).parentPid < 0 then k
  else match procByPid k (k.procs p).parentPid with
    | none => k
    | some parent =>
      let k := unlinkChild k parent p
      let k := pushWaitResult k parent (k.procs p).pid (k.procs p).exitCode
      k.modify p fun c => { c with parentPid := -1 }

/-- The parent is woken if it waits for the process. -/
lemma notifyParentExit_farewell (k : Kernel) (p : Slot) : notifyParentExit k p = farewell k p ∨
    ∃ parent, (((farewell k p).procs parent).waitingFor = ((farewell k p).procs p).pid ∨
        ((farewell k p).procs parent).waitingFor = -1) ∧
      notifyParentExit k p = wake ((farewell k p).modify parent fun c => { c with waitingFor := 0 })
        (((farewell k p).modify parent fun c => { c with waitingFor := 0 }).procs parent).pid := by
  unfold notifyParentExit farewell
  dsimp only
  generalize (k.modify p fun c => { c with zombieReapable := true }) = k1
  by_cases hneg : (k1.procs p).parentPid < 0
  · rw [if_pos hneg, if_pos hneg]
    exact .inl rfl
  · rw [if_neg hneg, if_neg hneg]
    cases procByPid k1 (k1.procs p).parentPid with
    | none => exact .inl rfl
    | some parent =>
      dsimp only
      split
      · rename_i hb
        exact .inr ⟨parent, hb.2, rfl⟩
      · exact .inl rfl

lemma farewell_waiting (k : Kernel) (p x : Slot) :
    ((farewell k p).procs x).waitingFor = (k.procs x).waitingFor ∧
      ((farewell k p).procs x).pid = (k.procs x).pid := by
  have hmod : ∀ (k : Kernel) (f : Pcb → Pcb),
      (∀ c, (f c).waitingFor = c.waitingFor ∧ (f c).pid = c.pid) →
      ((k.modify p f).procs x).waitingFor = (k.procs x).waitingFor ∧
        ((k.modify p f).procs x).pid = (k.procs x).pid := by
    intro k f hf
    rw [Kernel.modify_procs]
    split
    · rename_i hx
      rw [hx]
      exact hf _
    · exact ⟨rfl, rfl⟩
  obtain ⟨k1, hk1⟩ : ∃ k1, k1 = k.modify p fun c => { c with zombieReapable := true } := ⟨_, rfl⟩
  have h1 : (k1.procs x).waitingFor = (k.procs x).waitingFor ∧
      (k1.procs x).pid = (k.procs x).pid := by
    rw [hk1]
    exact hmod k _ fun _ => ⟨rfl, rfl⟩
  unfold farewell
  dsimp only
  rw [← hk1]
  split
  · exact h1
  · split
    · exact h1
    · rename_i parent _
      have hkin := unlinkChild_kin k1 parent p
      generalize unlinkChild k1 parent p = k2 at hkin ⊢
      have h2 : (k2.procs x).waitingFor = (k1.procs x).waitingFor ∧
          (k2.procs x).pid = (k1.procs x).pid := by
        rcases hkin.procs x with e | e <;> rw [e] <;> exact ⟨rfl, rfl⟩
      obtain ⟨hs, hw⟩ := pushWaitResult_sched k2 parent (k2.procs p).pid (k2.procs p).exitCode x
      obtain ⟨h3, h4⟩ := hmod (pushWaitResult k2 parent (k2.procs p).pid (k2.procs p).exitCode)
        (fun c => { c with parentPid := -1 }) fun _ => ⟨rfl, rfl⟩
      exact ⟨h3.trans (hw.trans (h2.1.trans h1.1)), h4.trans (hs.pid.trans (h2.2.trans h1.2))⟩

lemma goes_farewell (hJ : ZombieRule s J) (hkin : s.kin) (hn : ∀ q, s.noted q) {k : Kernel}
    {p : Slot} (hp : a.dying p) (hk : J a k) :
    Steps s k (farewell k p) ∧ J (a.ripen p) (farewell k p) := by
  have hpe := (hJ.meets hk).dying p hp
  obtain ⟨k1, hk1⟩ : ∃ k1, k1 = k.modify p fun c => { c with zombieReapable := true } := ⟨_, rfl⟩
  have hself : k1.procs p = { k.procs p with zombieReapable := true } := by
    rw [hk1, Kernel.modify_procs_self]
  have hs1 : Steps s k k1 := by
    rw [hk1]
    exact .single (.still (still_modify_exited k p _ hpe rfl (.inl rfl)))
  have hJ1 : J (a.ripen p) k1 := by
    refine hJ.ripen (hJ.grows hk ?_) (by simp [hself, reapable])
    rw [hk1]
    refine ⟨rfl, rfl, fun x => ?_, fun x hx => ?_, fun _ => rfl⟩
    · rw [Kernel.modify_procs]
      split
      · subst_vars
        simp
      · simp
    · rw [Kernel.modify_procs]
      split
      · simp [reapable]
      · exact hx
  unfold farewell
  dsimp only
  rw [← hk1]
  split
  · exact ⟨hs1, hJ1⟩
  · split
    · exact ⟨hs1, hJ1⟩
    · rename_i parent _
      have hkin2 := unlinkChild_kin k1 parent p
      generalize unlinkChild k1 parent p = k2 at hkin2 ⊢
      have hpush : Goes (J (a.ripen p)) s k2 (pushWaitResult k2 parent (k2.procs p).pid
          (k2.procs p).exitCode) := goes_pushWaitResult hJ (hn parent) _ _
      obtain ⟨hs4, hJ4⟩ := ((hkin2.goes hJ hkin).trans
        (hpush.trans ((kinWrite_orphan _ p).goes hJ hkin))) hJ1
      exact ⟨hs1.trans hs4, hJ4⟩

/-- The wake-up of the parent. -/
lemma goes_wakeParent (hJ : ZombieRule s J) (hw : ∀ q, s.woken q) (k : Kernel) (parent : Slot) :
    Goes (J a) s k (wake (k.modify parent fun c => { c with waitingFor := 0 })
      ((k.modify parent fun c => { c with waitingFor := 0 }).procs parent).pid) := by
  have hcalm : Calm k (k.modify parent fun c => { c with waitingFor := 0 }) :=
    calm_modify k parent _ rfl (fun _ => SameResults.refl _) (.inr rfl) rfl
  exact (hcalm.goes (hJ.ofZombies _)).trans (hJ.procUnblock _ _ hw)

/-- `notify_parent_exit` makes a terminated process ready to be reaped. -/
lemma goes_notifyParentExit (hJ : ZombieRule s J) (hkin : s.kin) (hn : ∀ q, s.noted q) {k : Kernel}
    {p : Slot} (hp : a.dying p) (hw : NotifyOk s k p) (hk : J a k) :
    Steps s k (notifyParentExit k p) ∧ J (a.ripen p) (notifyParentExit k p) := by
  obtain ⟨h1, hJ1⟩ := goes_farewell hJ hkin hn hp hk
  rcases notifyParentExit_farewell k p with e | ⟨parent, hb, e⟩
  · rw [e]
    exact ⟨h1, hJ1⟩
  · have hwoken : ∀ q, s.woken q := by
      refine hw.resolve_right ?_
      rintro ⟨hz, hpid⟩
      rw [(farewell_waiting k p parent).1, (farewell_waiting k p p).2, hz parent] at hb
      rcases hb with h0 | h0
      · exact hpid h0.symm
      · omega
    rw [e]
    obtain ⟨h2, hJ2⟩ := goes_wakeParent hJ hwoken _ parent hJ1
    exact ⟨h1.trans h2, hJ2⟩

/-- The end of a process that is already marked `EXITED`. -/
theorem goes_buryProc (hJ : ZombieRule s J) (hkin : s.kin) (hn : ∀ q, s.noted q) {k : Kernel}
    {p : Slot} (ht : ∀ c, OnChildList k p c → s.terminated c) (hw : NotifyOk s k p)
    (hne : ∀ x, a.dying x → x ≠ p) (hk : J (a.die p) k) :
    Steps s k (buryProc k p) ∧ J a (buryProc k p) := by
  have hpe := (hJ.meets hk).dying p (.inl rfl)
  obtain ⟨k1, hk1⟩ : ∃ k1, k1 = detachChildren k p := ⟨_, rfl⟩
  obtain ⟨hs1, hJ1⟩ := (hk1 ▸ goes_detachChildren hJ hkin ht : Goes (J (a.die p)) s k k1) hk
  have hw1 : NotifyOk s k1 p := by
    refine hw.imp id fun ⟨hz, hpid⟩ => ⟨steps_waiting hs1 hz, ?_⟩
    rw [hk1]
    rcases @detachChildren_procs k p p (.inl hpe) with e | e <;> rw [e] <;> exact hpid
  obtain ⟨k2, hk2⟩ : ∃ k2, k2 = notifyParentExit k1 p := ⟨_, rfl⟩
  obtain ⟨hs2, hJ2⟩ := hk2 ▸ goes_notifyParentExit (a := a.die p) hJ hkin hn (.inl rfl) hw1 hJ1
  obtain ⟨k3, hk3⟩ : ∃ k3, k3 = dropTable wake k2 p := ⟨_, rfl⟩
  obtain ⟨hs3, hJ3⟩ := (hk3 ▸ goes_dropTable (hJ.ofZombies _) (hJ.closeOk _) k2 p :
    Goes (J ((a.die p).ripen p)) s k2 k3) hJ2
  have hpe3 := (hJ.meets hJ3).dying p (.inl rfl)
  obtain ⟨hs4, hJ4⟩ := (calm_cleanupWaitResults k3 p hpe3).goes (s := s) (hJ.ofZombies _) hJ3
  have heq : buryProc k p = enqueueZombie (cleanupWaitResults k3 p) p := by
    rw [hk3, hk2, hk1]
    rfl
  rw [heq]
  refine ⟨(((hs1.trans hs2).trans hs3).trans hs4).tail (.still (still_enqueueZombie _ p)), ?_⟩
  exact hJ.forget (hJ.enqueue (a := a.ripen p) hJ4 hne ((hJ.meets hJ4).ripe p (.inl rfl)))

/-- Only semaphores, their handles and their heap blocks change. -/
structure SemWrite (k k' : Kernel) : Prop where
  same : k' = { k with
    sems := k'.sems, semBuckets := k'.semBuckets, semHandles := k'.semHandles, heap := k'.heap }
  next : k.heap.next ≤ k'.heap.next
  fails : k'.heap.fails = k.heap.fails
  freed : ∀ a, StackFreed k' a → StackFreed k a

lemma SemWrite.refl (k : Kernel) : SemWrite k k := ⟨rfl, le_rfl, rfl, fun _ h => h⟩

lemma SemWrite.trans {k k' k'' : Kernel} (h : SemWrite k k') (h' : SemWrite k' k'') :
    SemWrite k k'' :=
  ⟨by rw [h'.same, h.same], h.next.trans h'.next, h'.fails.trans h.fails,
    fun a ha => h.freed a (h'.freed a ha)⟩

lemma SemWrite.procs {k k' : Kernel} (h : SemWrite k k') : k'.procs = k.procs :=
  (congrArg Kernel.procs h.same :)

lemma SemWrite.goes (hJ : OfZombies (J a)) (hs : s.sems) {k k' : Kernel} (h : SemWrite k k') :
    Goes (J a) s k k' := by
  refine .act (.sems hs h.same h.next h.fails h.freed) (hJ _ _ ?_)
  rw [h.same]
  exact ⟨rfl, rfl, fun _ => .rfl, fun _ => rfl, fun _ => rfl⟩

lemma semWrite_modifySem (k : Kernel) (i : Nat) (f : Ksem → Ksem) : SemWrite k (k.modifySem i f) :=
  ⟨rfl, le_rfl, rfl, fun _ h => h⟩

lemma semWrite_mmFree (k : Kernel) {b : Block} (hb : b.kind ≠ .stack) : SemWrite k (k.mmFree b) :=
  ⟨rfl, le_rfl, rfl, stackFreed_mmFree hb⟩

lemma semWrite_mmFrees (k : Kernel) (bs : List Block) (hb : ∀ b ∈ bs, b.kind ≠ .stack) :
    SemWrite k (bs.foldl Kernel.mmFree k) := by
  induction bs generalizing k with
  | nil => exact .refl k
  | cons b bs ih =>
    exact (semWrite_mmFree k (hb b (by simp))).trans (ih _ fun b' hb' => hb b' (by simp [hb']))

lemma semWrite_foldl {β : Type*} {f : Kernel → β → Kernel} (hf : ∀ k x, SemWrite k (f k x))
    (l : List β) (k : Kernel) : SemWrite k (l.foldl f k) := by
  induction l generalizing k with
  | nil => exact .refl k
  | cons x l ih => exact (hf k x).trans (ih _)

lemma semWrite_semFree (k : Kernel) (i : Nat) : SemWrite k (semFree k i) := by
  refine (semWrite_mmFrees k _ fun b hb => ?_).trans (semWrite_mmFree _ (by simp))
  obtain ⟨w, -, rfl⟩ := List.mem_map.mp hb
  simp

lemma semWrite_destroyIfReady (k : Kernel) (i : Nat) : SemWrite k (semDestroyIfReady k i) := by
  unfold semDestroyIfReady
  split
  · exact (semWrite_modifySem k i _).trans (semWrite_semFree _ i)
  · exact .refl k

lemma semWrite_ksemClose (k : Kernel) (i : Nat) : SemWrite k (ksemClose k i).1 := by
  unfold ksemClose
  split
  · exact .refl k
  · exact (semWrite_modifySem k i _).trans (semWrite_destroyIfReady _ i)

lemma semWrite_removeProc (p : Slot) (k : Kernel) (i : Nat) : SemWrite k (semRemoveProc p k i) := by
  refine (semWrite_modifySem k i _).trans (semWrite_mmFrees _ _ fun b hb => ?_)
  obtain ⟨w, -, rfl⟩ := List.mem_map.mp hb
  simp

lemma semWrite_removeWaitersFor (k : Kernel) (p : Slot) : SemWrite k (ksemRemoveWaitersFor k p) :=
  semWrite_foldl (fun k _ => semWrite_foldl (semWrite_removeProc p) _ k) _ k

lemma semWrite_cleanupHandles (k : Kernel) (pid : Int) :
    SemWrite k (semCleanupProcessHandles k pid) := by
  refine semWrite_foldl (fun k i => ?_) _ k
  unfold semCleanupStep
  split
  · split
    · have h0 : SemWrite k { k with semHandles := update k.semHandles i none } :=
        ⟨rfl, le_rfl, rfl, fun _ h => h⟩
      exact h0.trans (semWrite_ksemClose _ _)
    · exact .refl k
  · exact .refl k

lemma calm_ttySetForeground (k : Kernel) (pid : Int) : Calm k (ttySetForeground k pid) :=
  calm_of_data rfl le_rfl rfl (fun _ h => h) fun _ => rfl

/-- Every other process leaves the foreground. -/
lemma calm_leaveForeground (k : Kernel) (pid : Int) :
    Calm k { k with
      procs := fun i => if (k.procs i).used ∧ (k.procs i).pid ≠ pid then
        { k.procs i with fg := false } else k.procs i } := by
  refine ⟨⟨rfl, fun p _ => ?_, fun _ _ => ⟨rfl, rfl⟩, fun p _ _ => ?_, fun p => ?_, le_rfl, rfl,
    fun _ h => .inl h⟩, rfl, rfl, fun p => ?_, fun p => ?_, fun _ => rfl⟩ <;> dsimp only <;> split
  · rfl
  · exact SameSched.refl _
  · exact SameResults.refl _
  · exact SameResults.refl _
  · exact .inl rfl
  · exact .inl rfl
  · exact .rfl
  · exact .rfl
  · rfl
  · rfl

lemma calm_procSetForeground (k : Kernel) (pid : Int) : Calm k (procSetForeground k pid) := by
  unfold procSetForeground
  cases procByPid k pid with
  | none => exact (calm_ttySetForeground k pid).trans (calm_leaveForeground _ pid)
  | some p =>
    have h1 : Calm k (k.modify p fun c => { c with fg := true }) :=
      calm_modify k _ _ rfl (fun _ => SameResults.refl _) (.inl rfl) rfl
    exact (h1.trans (calm_ttySetForeground _ pid)).trans (calm_leaveForeground _ pid)

end TP2Kernel.Proofs
