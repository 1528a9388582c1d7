import TP2Kernel.Proofs.Closing

/-!
# Reaping zombies

A `collect_zombies` that runs inside another one finds at most one zombie, the stale head
of the list that the outer call is walking over. At rest, two descriptions of the zombie
list are kept by the functions that use it: `Sealed` says that its links lead only to
terminated processes, `Listed` that it is a list of processes that can be reaped.
-/

namespace TP2Kernel
open Function LinkedList

namespace Proofs

/-- The head of the zombie list is a terminated process with nothing behind it. -/
def StaleHead (k : Kernel) : Prop :=
  ∀ z, k.zombieHead = some z → (k.procs z).state = .exited ∧ k.cleanupNext z = none

/-- What a nested `collect_zombies` leaves of the walk that was interrupted in state `k0`. -/
structure Walk (k0 k : Kernel) : Prop where
  cleanup : k.cleanupNext = k0.cleanupNext
  head : k.zombieHead = none ∨ k.zombieHead = k0.zombieHead
  exited : ∀ p, (k.procs p).state = .exited ↔ (k0.procs p).state = .exited
  reapable : ∀ p, reapable (k.procs p) = reapable (k0.procs p)
  ptr : ∀ f, (k.files f).ptr = (k0.files f).ptr

lemma Walk.refl (k : Kernel) : Walk k k :=
  ⟨rfl, .inr rfl, fun _ => .rfl, fun _ => rfl, fun _ => rfl⟩

lemma walk_ofZombies (k0 : Kernel) : OfZombies (Walk k0) := fun _ _ hz h =>
  ⟨hz.cleanup.trans h.cleanup, by rw [hz.head]; exact h.head,
    fun p => (hz.exited p).trans (h.exited p), fun p => (hz.reapable p).trans (h.reapable p),
    fun f => (hz.ptr f).trans (h.ptr f)⟩

lemma still_zombies (k : Kernel) (c : Slot → Option Slot) (h : Option Slot) :
    Still k { k with cleanupNext := c, zombieHead := h } :=
  ⟨rfl, fun _ _ => SameSched.refl _, fun _ _ => ⟨rfl, rfl⟩, fun _ _ _ => SameResults.refl _,
    fun _ => .inl rfl, le_rfl, rfl, fun _ h => .inl h⟩

lemma collectLoop_none (unblock : Kernel → Int → Kernel) (n : Nat) (pending : Option Slot)
    (k : Kernel) : collectLoop unblock n none pending k = { k with zombieHead := pending } := by
  cases n <;> rfl

/-- One iteration of the walk, with its node taken off the list in `k0`. -/
lemma collectLoop_some {k k0 : Kernel} {p : Slot}
    (hk0 : k0 = { k with cleanupNext := update k.cleanupNext p none })
    (unblock : Kernel → Int → Kernel) (n : Nat) (pending : Option Slot) :
    collectLoop unblock (n + 1) (some p) pending k =
      if reapable (k0.procs p) = true then
        collectLoop unblock n (k.cleanupNext p) pending
          (releaseSlot unblock (cleanupWaitResults (freeKstack k0 p) p) p)
      else collectLoop unblock n (k.cleanupNext p) (some p)
        { k0 with cleanupNext := update k0.cleanupNext p pending } := by
  rw [hk0]
  rfl

lemma freeSlot_sameZombies (k : Kernel) (z : Slot) : SameZombies k (freeSlot k z) :=
  (sameZombies_modify k z (fun c => { c with pendingExitValid := false, used := false }) .rfl
    rfl).trans ⟨rfl, rfl, fun _ => .rfl, fun _ => rfl, fun _ => rfl⟩

/-- Freeing one zombie up to the point where its slot is marked unused. -/
lemma reap_eq {J : Kernel → Prop} {s : Scope} {unblock : Kernel → Int → Kernel}
    (hJ : OfZombies J) (hu : CloseOk J s unblock) {p : Slot}
    (he : ∀ k, J k → (k.procs p).state = .exited) {k : Kernel} (hk : J k) :
    ∃ k1, Steps s k k1 ∧ J k1 ∧
      releaseSlot unblock (cleanupWaitResults (freeKstack k p) p) p = freeSlot k1 p := by
  obtain ⟨h1, hz1⟩ := steps_freeKstack s k p (he k hk)
  have hk1 := hJ _ _ hz1 hk
  obtain ⟨h2, hk2⟩ := (calm_cleanupWaitResults _ p (he _ hk1)).goes (s := s) hJ hk1
  obtain ⟨k3, h3, hk3, heq⟩ := releaseSlot_eq hJ hu he hk2
  exact ⟨k3, (h1.trans h2).trans h3, hk3, heq⟩

/-- A nested `collect_zombies` frees at most the stale head. -/
lemma goes_nestedCollect {k0 : Kernel} {s : Scope} {unblock : Kernel → Int → Kernel}
    (hst : StaleHead k0) (hu : CloseOk (Walk k0) s unblock) (k : Kernel) :
    Goes (Walk k0) s k (collectZombiesWith unblock k) := by
  intro hk
  have hJ := walk_ofZombies k0
  unfold collectZombiesWith
  cases hz : k.zombieHead with
  | none =>
    rw [collectLoop_none]
    have he : { k with zombieHead := none } = k := by rw [← hz]
    rw [he]
    exact ⟨.refl, hk⟩
  | some z =>
    have hz0 : k0.zombieHead = some z := by
      rcases hk.head with h | h
      · simp [h] at hz
      · rw [← h, hz]
    obtain ⟨hex, hnext⟩ := hst z hz0
    have hnext' : k.cleanupNext z = none := by rw [hk.cleanup, hnext]
    have hcut : { k with cleanupNext := update k.cleanupNext z none } = k := by
      rw [← hnext', update_eq_self]
    have hr := hk.reapable z
    simp only [collectLoop, hnext', hcut]
    by_cases hrz : reapable (k.procs z) = true
    · rw [if_pos hrz]
      obtain ⟨k1, h1, hk1, heq⟩ := reap_eq hJ hu (fun k1 h1 => (h1.exited z).mpr hex) hk
      have hw := hJ _ _ (freeSlot_sameZombies k1 z) hk1
      rw [heq]
      refine ⟨(h1.tail (act_freeSlot s k1 z ((hk1.exited z).mpr hex))).tail
        (.still (still_zombies _ _ none)), ?_⟩
      exact ⟨hw.cleanup, .inl rfl, hw.exited, hw.reapable, hw.ptr⟩
    · rw [if_neg hrz]
      refine ⟨.single (.still (still_zombies k _ _)), ?_⟩
      refine ⟨?_, .inr hz0.symm, hk.exited, hk.reapable, hk.ptr⟩
      show update (update k.cleanupNext z none) z none = _
      rw [update_idem, ← hnext', update_eq_self, hk.cleanup]

/-- Nothing can be woken by closing files, or waking is in scope. -/
def WakeOk (s : Scope) (k : Kernel) : Prop :=
  (∀ f, (k.files f).ptr = .tty) ∨ ∀ p, s.woken p

/-- A `proc_unblock` in the middle of a walk, at any depth of nesting. -/
lemma goes_procUnblockDepth {k0 : Kernel} {s : Scope} (hst : StaleHead k0) (hw : ∀ p, s.woken p)
    (n : Nat) (k : Kernel) (pid : Int) : Goes (Walk k0) s k (procUnblockDepth n k pid) := by
  induction n generalizing k pid with
  | zero =>
    exact (goes_nestedCollect hst (.inr fun k _ => .refl _ s k) k).trans
      (goes_unblockTarget (walk_ofZombies k0) _ pid fun p _ => hw p)
  | succ n ih =>
    exact (goes_nestedCollect hst (.inr ih) k).trans
      (goes_unblockTarget (walk_ofZombies k0) _ pid fun p _ => hw p)

lemma closeOk_depth {k0 : Kernel} {s : Scope} (hst : StaleHead k0) (hw : WakeOk s k0) (n : Nat) :
    CloseOk (Walk k0) s (procUnblockDepth n) := by
  rcases hw with ht | hw
  · exact .inl fun k hk f => (hk.ptr f).trans (ht f)
  · exact .inr (goes_procUnblockDepth hst hw n)

/-- The walk of `collect_zombies` with `rest` still to visit and `pend` to keep. -/
structure Outer (k : Kernel) (rest pend : List Slot) : Prop where
  restChain : IsChain k.cleanupNext rest.head? rest
  pendChain : IsChain k.cleanupNext pend.head? pend
  apart : ∀ p ∈ rest, p ∉ pend
  exited : ∀ p, p ∈ rest ∨ p ∈ pend → (k.procs p).state = .exited
  kept : ∀ p ∈ pend, reapable (k.procs p) = false
  head : ∀ z, k.zombieHead = some z → (k.procs z).state = .exited ∧
    ((z ∉ rest ∧ k.cleanupNext z = none) ∨ (rest.head? = some z ∧ pend = []))

/-- What `collect_zombies` leaves as it was. -/
structure Collected (k k' : Kernel) : Prop where
  exited : ∀ p, (k'.procs p).state = .exited ↔ (k.procs p).state = .exited
  reapable : ∀ p, reapable (k'.procs p) = reapable (k.procs p)
  ptr : ∀ f, (k'.files f).ptr = (k.files f).ptr

lemma Collected.of_walk {k k0 k' : Kernel} (h : Walk k0 k') (hp : k0.procs = k.procs)
    (hf : k0.files = k.files) : Collected k k' :=
  ⟨fun p => by rw [h.exited p, hp], fun p => by rw [h.reapable p, hp],
    fun f => by rw [h.ptr f, hf]⟩

lemma Collected.trans {k k' k'' : Kernel} (h : Collected k k') (h' : Collected k' k'') :
    Collected k k'' :=
  ⟨fun p => (h'.exited p).trans (h.exited p), fun p => (h'.reapable p).trans (h.reapable p),
    fun f => (h'.ptr f).trans (h.ptr f)⟩

/-- The walk with its first node taken off the list. -/
lemma outer_cut {k k0 : Kernel} {rest pend : List Slot} {p : Slot} (h : Outer k (p :: rest) pend)
    (hk0 : k0 = { k with cleanupNext := update k.cleanupNext p none }) :
    IsChain k0.cleanupNext rest.head? rest ∧ IsChain k0.cleanupNext pend.head? pend ∧
      ∀ z, k0.zombieHead = some z → (k0.procs z).state = .exited ∧ k0.cleanupNext z = none ∧
        z ∉ rest ∧ (z = p → pend = []) := by
  have hp : p ∉ rest := (List.nodup_cons.mp (isChain_nodup h.restChain)).1
  have hnext : k.cleanupNext p = rest.head? := isChain_head_eq h.restChain.2
  subst hk0
  refine ⟨?_, (isChain_update_of_notMem (h.apart p (by simp)) _).mpr h.pendChain, fun z hz => ?_⟩
  · rw [← hnext]
    exact (isChain_update_of_notMem hp _).mpr h.restChain.2
  · obtain ⟨he, hz'⟩ := h.head z hz
    rcases hz' with ⟨hzr, hzn⟩ | ⟨hzp, hpe⟩
    · have hne : z ≠ p := fun e => hzr (by simp [e])
      exact ⟨he, by simpa [hne] using hzn, fun hm => hzr (by simp [hm]), fun e => absurd e hne⟩
    · obtain rfl : p = z := by simpa using hzp
      exact ⟨he, by simp, hp, fun _ => hpe⟩

/-- Reaping the first node of the walk. -/
lemma outer_reap {k k0 k1 : Kernel} {rest pend : List Slot} {p : Slot}
    (h : Outer k (p :: rest) pend)
    (hk0 : k0 = { k with cleanupNext := update k.cleanupNext p none }) (hk1 : Walk k0 k1) :
    Outer (freeSlot k1 p) rest pend ∧ Collected k (freeSlot k1 p) := by
  obtain ⟨hrest, hpend, hstale⟩ := outer_cut h hk0
  have hw := walk_ofZombies k0 _ _ (freeSlot_sameZombies k1 p) hk1
  have hc : Collected k (freeSlot k1 p) := .of_walk hw (by rw [hk0]) (by rw [hk0])
  refine ⟨⟨hw.cleanup ▸ hrest, hw.cleanup ▸ hpend, fun x hx => h.apart x (by simp [hx]),
    fun x hx => ?_, fun x hx => ?_, fun z hz => ?_⟩, hc⟩
  · exact (hc.exited x).mpr (h.exited x (hx.imp (fun hm => by simp [hm]) id))
  · exact (hc.reapable x).trans (h.kept x hx)
  · have hz0 : k0.zombieHead = some z := by
      rcases hw.head with e | e
      · simp [e] at hz
      · rw [← e, hz]
    obtain ⟨he, hn0, hzr, -⟩ := hstale z hz0
    exact ⟨(hw.exited z).mpr he, .inl ⟨hzr, hw.cleanup ▸ hn0⟩⟩

/-- Keeping the first node of the walk for later. -/
lemma outer_keep {k k0 : Kernel} {rest pend : List Slot} {p : Slot} (h : Outer k (p :: rest) pend)
    (hk0 : k0 = { k with cleanupNext := update k.cleanupNext p none })
    (hr : reapable (k.procs p) = false) :
    Outer { k0 with cleanupNext := update k0.cleanupNext p pend.head? } rest (p :: pend) := by
  obtain ⟨hrest, hpend, hstale⟩ := outer_cut h hk0
  have hp : p ∉ rest := (List.nodup_cons.mp (isChain_nodup h.restChain)).1
  have hpp : p ∉ pend := h.apart p (by simp)
  have hprocs : k0.procs = k.procs := by rw [hk0]
  refine ⟨(isChain_update_of_notMem hp _).mpr hrest, ?_, fun x hx => ?_, fun x hx => ?_,
    fun x hx => ?_, fun z hz => ?_⟩
  · simp only [List.head?_cons, isChain_cons, update_self, true_and]
    exact (isChain_update_of_notMem hpp pend.head?).mpr hpend
  · have hxp : x ≠ p := fun e => hp (e ▸ hx)
    simpa [hxp] using h.apart x (by simp [hx])
  · rw [hprocs]
    refine h.exited x ?_
    simp only [List.mem_cons] at hx ⊢
    tauto
  · rw [hprocs]
    rcases List.mem_cons.mp hx with rfl | hx
    · exact hr
    · exact h.kept x hx
  · obtain ⟨he, hn0, hzr, hzp⟩ := hstale z hz
    refine ⟨he, .inl ⟨hzr, ?_⟩⟩
    by_cases hzp' : z = p
    · simp [hzp', hzp hzp']
    · simpa [hzp'] using hn0

/-- `collect_zombies` only reaps, wakes and writes calmly, and keeps the zombies that
cannot be reaped yet. -/
lemma collectLoop_zombies {s : Scope} {rest pend : List Slot} {n m : Nat} {k : Kernel}
    (h : Outer k rest pend) (hw : WakeOk s k) (hn : rest.length ≤ n) :
    ∃ pend', Steps s k (collectLoop (procUnblockDepth m) n rest.head? pend.head? k) ∧
      Zombies (collectLoop (procUnblockDepth m) n rest.head? pend.head? k) pend' ∧
      (∀ p ∈ pend', (p ∈ rest ∨ p ∈ pend) ∧ reapable (k.procs p) = false) ∧
      Collected k (collectLoop (procUnblockDepth m) n rest.head? pend.head? k) := by
  induction rest generalizing n k pend with
  | nil =>
    rw [List.head?_nil, collectLoop_none]
    exact ⟨pend, .single (.still (still_zombies k _ _)), ⟨h.pendChain, fun p hp =>
      h.exited p (.inr hp)⟩, fun p hp => ⟨.inr hp, h.kept p hp⟩, fun _ => .rfl, fun _ => rfl,
      fun _ => rfl⟩
  | cons p rest ih =>
    obtain ⟨n, rfl⟩ : ∃ m, n = m + 1 := ⟨n - 1, by simp only [List.length_cons] at hn; omega⟩
    have hlen : rest.length ≤ n := by simpa using hn
    have hex : (k.procs p).state = .exited := h.exited p (by simp)
    have hnext : k.cleanupNext p = rest.head? := isChain_head_eq h.restChain.2
    obtain ⟨k0, hk0⟩ : ∃ k0 : Kernel, k0 = { k with cleanupNext := update k.cleanupNext p none } :=
      ⟨_, rfl⟩
    have hprocs : k0.procs = k.procs := by rw [hk0]
    rw [List.head?_cons, collectLoop_some hk0, hnext]
    have hs0 : Steps s k k0 := by
      rw [hk0]
      exact .single (.still (still_zombies k _ _))
    obtain ⟨-, -, hstale⟩ := outer_cut h hk0
    have hst0 : StaleHead k0 := fun z hz => ⟨(hstale z hz).1, (hstale z hz).2.1⟩
    by_cases hr : reapable (k0.procs p) = true
    · rw [if_pos hr]
      have hw0 : WakeOk s k0 := by
        rw [hk0]
        exact hw
      obtain ⟨k1, h1, hk1, heq⟩ := reap_eq (walk_ofZombies k0) (closeOk_depth hst0 hw0 m)
        (fun k1 h1 => (h1.exited p).mpr (by rw [hprocs]; exact hex)) (Walk.refl k0)
      rw [heq]
      have he1 : (k1.procs p).state = .exited := (hk1.exited p).mpr (by rw [hprocs]; exact hex)
      obtain ⟨hout, hc⟩ := outer_reap h hk0 hk1
      have hw1 : WakeOk s (freeSlot k1 p) := hw.imp (fun ht f => (hc.ptr f).trans (ht f)) id
      obtain ⟨pend', i1, i2, i3, i4⟩ := ih hout hw1 hlen
      refine ⟨pend', ((hs0.trans h1).tail (act_freeSlot s k1 p he1)).trans i1, i2, fun x hx => ?_,
        hc.trans i4⟩
      obtain ⟨hm, hrx⟩ := i3 x hx
      exact ⟨hm.imp (fun hm => by simp [hm]) id, hc.reapable x ▸ hrx⟩
    · rw [if_neg hr]
      have hout := outer_keep h hk0 (by simpa [hprocs] using hr)
      obtain ⟨k1, hk1⟩ : ∃ k1 : Kernel,
          k1 = { k0 with cleanupNext := update k0.cleanupNext p pend.head? } := ⟨_, rfl⟩
      rw [← hk1] at hout ⊢
      have hs1 : Steps s k0 k1 := by
        rw [hk1]
        exact .single (.still (still_zombies k0 _ _))
      have hc : Collected k k1 := by
        rw [hk1, hk0]
        exact ⟨fun _ => .rfl, fun _ => rfl, fun _ => rfl⟩
      have hw1 : WakeOk s k1 := hw.imp (fun ht f => (hc.ptr f).trans (ht f)) id
      obtain ⟨pend', i1, i2, i3, i4⟩ := ih hout hw1 hlen
      refine ⟨pend', (hs0.trans hs1).trans i1, i2, fun x hx => ?_, hc.trans i4⟩
      obtain ⟨hm, hrx⟩ := i3 x hx
      refine ⟨?_, hc.reapable x ▸ hrx⟩
      simp only [List.mem_cons] at hm ⊢
      tauto

/-- `collect_zombies` with the zombie list at rest. -/
theorem collectZombies_zombies {s : Scope} {k : Kernel} {zl : List Slot} (h : Zombies k zl)
    (hw : WakeOk s k) :
    ∃ zl', Steps s k (collectZombies k) ∧ Zombies (collectZombies k) zl' ∧
      (∀ p ∈ zl', p ∈ zl ∧ reapable (k.procs p) = false) ∧ Collected k (collectZombies k) := by
  have hout : Outer k zl [] := by
    refine ⟨by rw [← isChain_head_eq h.chain]; exact h.chain, rfl, by simp, by simpa using h.exited,
      by simp, fun z hz => ?_⟩
    have hh := (isChain_head_eq h.chain).symm.trans hz
    exact ⟨h.exited z (List.mem_of_mem_head? hh), .inr ⟨hh, rfl⟩⟩
  have hlen : zl.length ≤ maxProcs :=
    (isChain_length_le h.chain).trans_eq (Fintype.card_fin _)
  obtain ⟨zl', h1, h2, h3, h4⟩ := collectLoop_zombies (m := pipeWaiters k) hout hw hlen
  rw [← isChain_head_eq h.chain] at h1 h2 h4
  exact ⟨zl', h1, h2, by simpa using h3, h4⟩

/-- Terminated processes on their way to the zombie list, and those that can be reaped. -/
structure Agenda where
  dying : Slot → Prop
  ripe : Slot → Prop

/-- Nobody is on the way to the zombie list. -/
def Agenda.idle : Agenda := ⟨fun _ => False, fun _ => False⟩

/-- One more process is on its way to the zombie list. -/
def Agenda.die (a : Agenda) (p : Slot) : Agenda := { a with dying := fun x => x = p ∨ a.dying x }

/-- One more process can be reaped. -/
def Agenda.ripen (a : Agenda) (p : Slot) : Agenda := { a with ripe := fun x => x = p ∨ a.ripe x }

/-- The agenda is met, and nothing is woken by closing files unless waking is in scope. -/
structure Meets (s : Scope) (a : Agenda) (k : Kernel) : Prop where
  dying : ∀ p, a.dying p → (k.procs p).state = .exited
  ripe : ∀ p, a.ripe p → reapable (k.procs p) = true
  wakes : WakeOk s k

/-- The zombie list does not leave the set `R` of terminated processes. -/
structure SealedBy (R : Slot → Prop) (s : Scope) (a : Agenda) (k : Kernel) : Prop
    extends Meets s a k where
  exited : ∀ z, R z → (k.procs z).state = .exited
  head : ∀ z, k.zombieHead = some z → R z
  next : ∀ p z, R p → k.cleanupNext p = some z → R z

/-- The zombie list leads only to terminated processes. -/
def Sealed (s : Scope) (a : Agenda) (k : Kernel) : Prop := ∃ R, SealedBy R s a k

/-- The zombie list is a list of terminated processes that can be reaped, without those
still on their way to it. -/
structure Listed (s : Scope) (a : Agenda) (k : Kernel) : Prop extends Meets s a k where
  zombies : ∃ zl, Zombies k zl ∧ (∀ p ∈ zl, reapable (k.procs p) = true) ∧ ∀ p, a.dying p → p ∉ zl

/-- More processes can be reaped, and some processes in `X` become terminated. -/
structure Grows (X : Slot → Prop) (k k' : Kernel) : Prop where
  cleanup : k'.cleanupNext = k.cleanupNext
  head : k'.zombieHead = k.zombieHead
  exited : ∀ p, (k'.procs p).state = .exited ↔ (k.procs p).state = .exited ∨ X p
  reapable : ∀ p, reapable (k.procs p) = true → reapable (k'.procs p) = true
  ptr : ∀ f, (k'.files f).ptr = (k.files f).ptr

lemma grows_of_same {k k' : Kernel} (h : SameZombies k k') : Grows (fun _ => False) k k' :=
  ⟨h.cleanup, h.head, by simpa using h.exited, fun p hp => (h.reapable p).trans hp, h.ptr⟩

lemma Meets.grows {s : Scope} {a : Agenda} {X : Slot → Prop} {k k' : Kernel} (h : Meets s a k)
    (hg : Grows X k k') : Meets s a k' :=
  ⟨fun p hp => (hg.exited p).mpr (.inl (h.dying p hp)), fun p hp => hg.reapable p (h.ripe p hp),
    h.wakes.imp (fun ht f => (hg.ptr f).trans (ht f)) id⟩

lemma Meets.die {s : Scope} {a : Agenda} {k : Kernel} (h : Meets s a k) {p : Slot}
    (hp : (k.procs p).state = .exited) : Meets s (a.die p) k :=
  ⟨fun x hx => hx.elim (fun e => e ▸ hp) (h.dying x), h.ripe, h.wakes⟩

/-- The rules for a description of the zombie list that the functions of `proc.c` use. -/
structure ZombieRule (s : Scope) (J : Agenda → Kernel → Prop) : Prop where
  meets : ∀ {a k}, J a k → Meets s a k
  grows : ∀ {a k k'}, J a k → Grows (fun _ => False) k k' → J a k'
  collect : ∀ a k, Goes (J a) s.reaping k (collectZombies k)
  die : ∀ {a k k' p}, J a k → (k.procs p).state ≠ .exited → Grows (· = p) k k' → J (a.die p) k'
  claim : ∀ {a k p}, J a k → (∀ x, ¬a.dying x) →
    ((collectZombies k).procs p).state = .exited → J (a.die p) (collectZombies k)
  ripen : ∀ {a k p}, J a k → reapable (k.procs p) = true → J (a.ripen p) k
  forget : ∀ {a k p}, J (a.ripen p) k → J a k
  enqueue : ∀ {a k p}, J (a.die p) k → (∀ x, a.dying x → x ≠ p) → reapable (k.procs p) = true →
    J a (enqueueZombie k p)

namespace ZombieRule

variable {s : Scope} {J : Agenda → Kernel → Prop} {a : Agenda}

lemma ofZombies (hJ : ZombieRule s J) (a : Agenda) : OfZombies (J a) := fun _ _ hz h =>
  hJ.grows h (grows_of_same hz)

lemma collects (hJ : ZombieRule s J) (a : Agenda) (k : Kernel) :
    Goes (J a) s k (collectZombies k) := fun h =>
  ⟨Steps.mono (reaping_sub s) (hJ.collect a k h).1, (hJ.collect a k h).2⟩

lemma procUnblock (hJ : ZombieRule s J) (k : Kernel) (pid : Int) (hw : ∀ p, s.woken p) :
    Goes (J a) s k (procUnblock k pid).1 :=
  (hJ.collects a k).trans (goes_unblockTarget (hJ.ofZombies a) _ pid fun p _ => hw p)

lemma closeOk (hJ : ZombieRule s J) (a : Agenda) : CloseOk (J a) s wake := by
  by_cases hw : ∀ p, s.woken p
  · exact .inr fun k pid => hJ.procUnblock k pid hw
  · exact .inl fun k hk => (hJ.meets hk).wakes.resolve_right hw

end ZombieRule

section Sealed

variable {R : Slot → Prop} {s : Scope} {a : Agenda} {k : Kernel}

lemma sealedBy_grows {X : Slot → Prop} {k' : Kernel} (h : SealedBy R s a k) (hg : Grows X k k') :
    SealedBy R s a k' := by
  refine ⟨h.toMeets.grows hg, fun z hz => (hg.exited z).mpr (.inl (h.exited z hz)), ?_, ?_⟩
  · rw [hg.head]
    exact h.head
  · rw [hg.cleanup]
    exact h.next

lemma sealedBy_ofZombies (R : Slot → Prop) (s : Scope) (a : Agenda) : OfZombies (SealedBy R s a) :=
  fun _ _ hz h => sealedBy_grows h (grows_of_same hz)

/-- Linking processes of the set to processes of the set. -/
lemma sealedBy_relink (h : SealedBy R s a k) (p : Slot) {x y : Option Slot}
    (hx : ∀ z, x = some z → R z) (hy : ∀ z, y = some z → R z) :
    SealedBy R s a { k with cleanupNext := update k.cleanupNext p x, zombieHead := y } := by
  refine ⟨⟨h.dying, h.ripe, h.wakes⟩, h.exited, hy, fun q z hq hz => ?_⟩
  by_cases hqp : q = p
  · subst hqp
    simp only [update_self] at hz
    exact hx z hz
  · simp only [update_of_ne hqp] at hz
    exact h.next q z hq hz

/-- The end of the walk. -/
lemma sealedBy_stop (h : SealedBy R s a k) {pending : Option Slot}
    (hp : ∀ z, pending = some z → R z) :
    Steps s k { k with zombieHead := pending } ∧ SealedBy R s a { k with zombieHead := pending } :=
  ⟨.single (.still (still_zombies k _ _)), ⟨h.dying, h.ripe, h.wakes⟩, h.exited, hp, h.next⟩

lemma sealedBy_collectLoop {unblock : Kernel → Int → Kernel}
    (hu : CloseOk (SealedBy R s a) s unblock) {n : Nat} {cursor pending : Option Slot}
    {k : Kernel} (h : SealedBy R s a k) (hc : ∀ z, cursor = some z → R z)
    (hp : ∀ z, pending = some z → R z) :
    Steps s k (collectLoop unblock n cursor pending k) ∧
      SealedBy R s a (collectLoop unblock n cursor pending k) := by
  induction n generalizing cursor pending k with
  | zero => exact sealedBy_stop h hp
  | succ n ih =>
    cases cursor with
    | none => exact sealedBy_stop h hp
    | some p =>
      have hR := hc p rfl
      have hn : ∀ z, k.cleanupNext p = some z → R z := fun z hz => h.next p z hR hz
      obtain ⟨k0, hk0⟩ : ∃ k0 : Kernel,
          k0 = { k with cleanupNext := update k.cleanupNext p none } := ⟨_, rfl⟩
      have h0 : SealedBy R s a k0 := by
        rw [hk0]
        exact sealedBy_relink h p (by simp) h.head
      have hs0 : Steps s k k0 := by
        rw [hk0]
        exact .single (.still (still_zombies k _ _))
      rw [collectLoop_some hk0]
      split
      · obtain ⟨k1, h1, hk1, heq⟩ := @reap_eq _ s unblock (sealedBy_ofZombies R s a) hu p
          (fun k1 h1 => h1.exited p hR) _ h0
        rw [heq]
        obtain ⟨i1, i2⟩ := ih (sealedBy_ofZombies R s a _ _ (freeSlot_sameZombies k1 p) hk1) hn hp
        exact ⟨((hs0.trans h1).tail (act_freeSlot s k1 p (hk1.exited p hR))).trans i1, i2⟩
      · have hk : SealedBy R s a { k0 with cleanupNext := update k0.cleanupNext p pending } :=
          sealedBy_relink h0 p hp h0.head
        have hpend : ∀ z, some p = some z → R z := by
          rintro z ⟨⟩
          exact hR
        obtain ⟨i1, i2⟩ := ih hk hn hpend
        exact ⟨(hs0.tail (.still (still_zombies k0 _ _))).trans i1, i2⟩

lemma goes_sealed_collectWith {unblock : Kernel → Int → Kernel}
    (hu : CloseOk (SealedBy R s a) s unblock) (k : Kernel) :
    Goes (SealedBy R s a) s k (collectZombiesWith unblock k) := fun h =>
  sealedBy_collectLoop hu h h.head (by simp)

lemma goes_sealed_depth (hw : ∀ p, s.woken p) (n : Nat) (k : Kernel) (pid : Int) :
    Goes (SealedBy R s a) s k (procUnblockDepth n k pid) := by
  induction n generalizing k pid with
  | zero =>
    exact (goes_sealed_collectWith (.inr fun k _ => .refl _ s k) k).trans
      (goes_unblockTarget (sealedBy_ofZombies R s a) _ pid fun p _ => hw p)
  | succ n ih =>
    exact (goes_sealed_collectWith (.inr ih) k).trans
      (goes_unblockTarget (sealedBy_ofZombies R s a) _ pid fun p _ => hw p)

lemma goes_sealed_collect (R : Slot → Prop) (s : Scope) (a : Agenda) (k : Kernel) :
    Goes (SealedBy R s a) s k (collectZombies k) := by
  apply goes_sealed_collectWith
  by_cases hw : ∀ p, s.woken p
  · exact .inr (goes_sealed_depth hw _)
  · exact .inl fun k hk => hk.wakes.resolve_right hw

/-- `SealedBy` asks only for the processes that may be woken. -/
lemma sealedBy_scope {s' : Scope} (h : SealedBy R s a k) (hs : ∀ p, s.woken p → s'.woken p) :
    SealedBy R s' a k :=
  ⟨⟨h.dying, h.ripe, h.wakes.imp id fun hw p => hs p (hw p)⟩, h.exited, h.head, h.next⟩

lemma still_enqueueZombie (k : Kernel) (p : Slot) : Still k (enqueueZombie k p) :=
  still_zombies k _ _

/-- The process joins the set with its agenda done. -/
lemma sealedBy_enqueue {p : Slot} (h : SealedBy R s (a.die p) k) :
    SealedBy (fun z => z = p ∨ R z) s a (enqueueZombie k p) := by
  have hp := h.dying p (.inl rfl)
  refine ⟨⟨fun x hx => h.dying x (.inr hx), h.ripe, h.wakes⟩, fun z hz => ?_, fun z hz => ?_,
    fun q z hq hz => ?_⟩
  · rcases hz with rfl | hz
    · exact hp
    · exact h.exited z hz
  · exact .inl (Option.some.inj hz).symm
  · right
    by_cases hqp : q = p
    · subst hqp
      simp only [enqueueZombie, update_self] at hz
      exact h.head z hz
    · simp only [enqueueZombie, update_of_ne hqp] at hz
      exact h.next q z (hq.resolve_left hqp) hz

/-- Links that lead to terminated processes are kept by every function of `proc.c`. -/
theorem sealed_rule (s : Scope) : ZombieRule s (Sealed s) where
  meets h := h.choose_spec.toMeets
  grows := fun ⟨R, h⟩ hg => ⟨R, sealedBy_grows h hg⟩
  collect a k := by
    rintro ⟨R, h⟩
    obtain ⟨h1, h2⟩ := goes_sealed_collect R s.reaping a k (sealedBy_scope h fun _ hw => hw)
    exact ⟨h1, R, sealedBy_scope h2 fun _ hw => hw⟩
  die := fun ⟨R, h⟩ _ hg =>
    have h' := sealedBy_grows h hg
    ⟨R, h'.toMeets.die ((hg.exited _).mpr (.inr rfl)), h'.exited, h'.head, h'.next⟩
  claim := fun {a k p} ⟨R, h⟩ _ hp =>
    have h' := (goes_sealed_collect R s a k h).2
    ⟨R, h'.toMeets.die hp, h'.exited, h'.head, h'.next⟩
  ripen := fun ⟨R, h⟩ hr =>
    ⟨R, ⟨h.dying, fun x hx => hx.elim (fun e => e ▸ hr) (h.ripe x), h.wakes⟩, h.exited, h.head,
      h.next⟩
  forget := fun ⟨R, h⟩ =>
    ⟨R, ⟨h.dying, fun x hx => h.ripe x (.inr hx), h.wakes⟩, h.exited, h.head, h.next⟩
  enqueue := fun ⟨_, h⟩ _ _ => ⟨_, sealedBy_enqueue h⟩

end Sealed

lemma listed_grows {s : Scope} {a : Agenda} {X : Slot → Prop} {k k' : Kernel} (h : Listed s a k)
    (hg : Grows X k k') : Listed s a k' := by
  obtain ⟨zl, hz, hr, hd⟩ := h.zombies
  refine ⟨h.toMeets.grows hg, zl, ⟨?_, fun p hp => (hg.exited p).mpr (.inl (hz.exited p hp))⟩,
    fun p hp => hg.reapable p (hr p hp), hd⟩
  rw [hg.cleanup, hg.head]
  exact hz.chain

/-- When every zombie can be reaped, `collect_zombies` leaves none. -/
lemma listed_collect {s : Scope} {a : Agenda} {k : Kernel} (h : Listed s a k) :
    Steps s k (collectZombies k) ∧ Zombies (collectZombies k) [] ∧ Meets s a (collectZombies k) ∧
      Collected k (collectZombies k) := by
  obtain ⟨zl, hz, hr, -⟩ := h.zombies
  obtain ⟨zl', h1, h2, h3, h4⟩ := collectZombies_zombies hz h.wakes
  have he : zl' = [] := by
    refine List.eq_nil_iff_forall_not_mem.mpr fun p hp => ?_
    have := hr p (h3 p hp).1
    rw [(h3 p hp).2] at this
    cases this
  exact ⟨h1, he ▸ h2, ⟨fun p hp => (h4.exited p).mpr (h.dying p hp),
    fun p hp => (h4.reapable p).trans (h.ripe p hp),
    h.wakes.imp (fun ht f => (h4.ptr f).trans (ht f)) id⟩, h4⟩

/-- A list of processes that can be reaped is kept by every function of `proc.c`. -/
theorem listed_rule (s : Scope) : ZombieRule s (Listed s) where
  meets h := h.toMeets
  grows h hg := listed_grows h hg
  collect a k h := by
    have hr : Listed s.reaping a k := ⟨⟨h.dying, h.ripe, h.wakes⟩, h.zombies⟩
    obtain ⟨h1, h2, h3, -⟩ := listed_collect hr
    exact ⟨h1, ⟨h3.dying, h3.ripe, h3.wakes⟩, [], h2, by simp, by simp⟩
  die h hp hg := by
    obtain ⟨hm, zl, hz, hr, hd⟩ := listed_grows h hg
    obtain ⟨-, zl0, hz0, -, hd0⟩ := h
    have hzl : zl = zl0 := by
      have := hz0.chain
      rw [← hg.cleanup, ← hg.head] at this
      exact isChain_unique hz.chain this
    subst hzl
    refine ⟨hm.die ((hg.exited _).mpr (.inr rfl)), zl, hz, hr, fun x hx => ?_⟩
    rcases hx with rfl | hx
    · exact fun hmem => hp (hz0.exited x hmem)
    · exact hd x hx
  claim h _ hp := by
    obtain ⟨-, h2, h3, -⟩ := listed_collect h
    exact ⟨h3.die hp, [], h2, by simp, by simp⟩
  ripen h hr := ⟨⟨h.dying, fun x hx => hx.elim (fun e => e ▸ hr) (h.ripe x), h.wakes⟩, h.zombies⟩
  forget h := ⟨⟨h.dying, fun x hx => h.ripe x (.inr hx), h.wakes⟩, h.zombies⟩
  enqueue {a k p} h hne hr := by
    obtain ⟨zl, hz, hzr, hd⟩ := h.zombies
    have hp := h.dying p (.inl rfl)
    have hpz := hd p (.inl rfl)
    refine ⟨⟨fun x hx => h.dying x (.inr hx), h.ripe, h.wakes⟩, p :: zl, ⟨?_, ?_⟩, ?_, ?_⟩
    · refine ⟨rfl, ?_⟩
      simp only [enqueueZombie, update_self]
      exact (isChain_update_of_notMem hpz _).mpr hz.chain
    · intro x hx
      rcases List.mem_cons.mp hx with rfl | hx
      · exact hp
      · exact hz.exited x hx
    · intro x hx
      rcases List.mem_cons.mp hx with rfl | hx
      · exact hr
      · exact hzr x hx
    · intro x hx
      simpa [hne x hx] using hd x (.inr hx)

end Proofs

end TP2Kernel
