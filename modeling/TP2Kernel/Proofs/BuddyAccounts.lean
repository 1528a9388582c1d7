import TP2Kernel.Proofs.Buddy

/-!
# Statistics of the buddy memory manager

As long as no block is split, the statistics count the free lists and the live blocks, and
together these make up the whole heap.
-/

namespace TP2Kernel.Proofs
open Function LinkedList Buddy

section Counting

variable {b : Buddy} {fr : Nat → List Nat} {lv : List (Nat × Nat)}

/-- The inner loop of `buddy_check_integrity` counts the nodes of a list. -/
lemma countLoop_spec {mem : Nat → Option Nat} {a : Option Nat} {l : List Nat} {fuel : Nat}
    (hc : IsChain mem a l) (hf : l.length < fuel) (x : Nat) :
    countLoop mem fuel a (x % addrMod) = some ((x + l.length) % addrMod) := by
  induction l generalizing a fuel x with
  | nil =>
    obtain ⟨fuel, rfl⟩ : ∃ m, fuel = m + 1 := ⟨fuel - 1, by omega⟩
    rw [isChain_nil] at hc
    subst hc
    rfl
  | cons c l ih =>
    obtain ⟨fuel, rfl⟩ : ∃ m, fuel = m + 1 := ⟨fuel - 1, by omega⟩
    rw [isChain_cons] at hc
    obtain ⟨rfl, hc⟩ := hc
    rw [List.length_cons] at hf ⊢
    have hf' : l.length < fuel := by omega
    have h := ih hc hf' (x + 1)
    rw [countLoop, Nat.mod_add_mod, h, Nat.add_assoc, Nat.add_comm 1]

lemma integrityLoop_spec (lists : Nat → List Nat) {n order fuel : Nat}
    (hc : ∀ i < n, IsChain b.mem (b.freeLists (order + i)) (lists (order + i)))
    (hf : ∀ i < n, (lists (order + i)).length < fuel) (x : Nat) :
    b.integrityLoop fuel n order (x % addrMod) =
      some ((x + ∑ i ∈ Finset.range n, (lists (order + i)).length) % addrMod) := by
  induction n generalizing order x with
  | zero => rfl
  | succ n ih =>
    have hhead := countLoop_spec (hc 0 (by omega)) (hf 0 (by omega)) x
    rw [Nat.add_zero] at hhead
    have hc' : ∀ i < n, IsChain b.mem (b.freeLists (order + 1 + i)) (lists (order + 1 + i)) := by
      intro i hi
      rw [Nat.add_assoc, Nat.add_comm 1]
      exact hc (i + 1) (by omega)
    have hf' : ∀ i < n, (lists (order + 1 + i)).length < fuel := by
      intro i hi
      rw [Nat.add_assoc, Nat.add_comm 1]
      exact hf (i + 1) (by omega)
    have hshift : ∀ i, order + 1 + i = order + (i + 1) := by
      intro i
      omega
    rw [integrityLoop, hhead, Option.bind_some, ih hc' hf', Finset.sum_range_succ']
    simp only [hshift, Nat.add_zero]
    rw [Nat.add_assoc, Nat.add_comm (lists order).length]

lemma sum_orders (f : Nat → Nat) {maxOrder : Nat} (hmax : maxOrder < buddyMaxOrders)
    (hlow : ∀ o, o < buddyMinOrder → f o = 0) (hhigh : ∀ o, maxOrder < o → f o = 0) :
    ∑ i ∈ Finset.range (maxOrder + 1 - buddyMinOrder), f (buddyMinOrder + i) =
      ∑ o ∈ Finset.range buddyMaxOrders, f o := by
  rw [← Finset.sum_Ico_eq_sum_range]
  apply Finset.sum_subset
  · intro o ho
    rw [Finset.mem_Ico] at ho
    rw [Finset.mem_range]
    omega
  · intro o _ ho
    rw [Finset.mem_Ico] at ho
    by_cases h : o < buddyMinOrder
    · exact hlow o h
    · exact hhigh o (by omega)

lemma Blocks.fr_low (h : Blocks b fr lv) {o : Nat} (ho : o < buddyMinOrder) : fr o = [] := by
  apply List.eq_nil_iff_forall_not_mem.mpr
  intro i hi
  have hle : buddyMinOrder ≤ o := (h.free o i hi).minOrder
  omega

lemma Blocks.fr_high (h : Blocks b fr lv) {o : Nat} (ho : b.maxOrder < o) : fr o = [] := by
  apply List.eq_nil_iff_forall_not_mem.mpr
  intro i hi
  have hle : o ≤ b.maxOrder := (h.free o i hi).maxOrder
  omega

lemma length_le_freeCount (fr : Nat → List Nat) {o : Nat} (ho : o < buddyMaxOrders) :
    (fr o).length ≤ freeCount fr := by
  unfold freeCount
  exact Finset.single_le_sum (fun i _ => Nat.zero_le (fr i).length) (Finset.mem_range.mpr ho)

lemma freeCount_le (fr : Nat → List Nat) : freeCount fr ≤ freeBytes fr := by
  apply Finset.sum_le_sum
  intro o _
  exact Nat.le_mul_of_pos_right _ (Nat.two_pow_pos o)

lemma Accounts.count_eq (h : Accounts b fr lv) : b.statFreeBlocks = freeCount fr := by
  have h1 := freeCount_le fr
  have h2 := h.total
  have h3 := h.bound
  rw [h.count, Nat.mod_eq_of_lt (by omega)]

lemma Accounts.used_eq (h : Accounts b fr lv) : b.statUsed = liveBytes lv := by
  have h2 := h.total
  have h3 := h.bound
  rw [h.used, Nat.mod_eq_of_lt (by omega)]

/-- `buddy_check_integrity` ends and finds the number of free blocks. -/
lemma checkIntegrity_one (hi : b.initialized = true) (h : Blocks b fr lv) (ha : Accounts b fr lv)
    {fuel : Nat} (hf : freeCount fr < fuel) : b.checkIntegrity fuel = some 1 := by
  have hg := h.geometry
  have hlt : ∀ i < b.maxOrder + 1 - buddyMinOrder, buddyMinOrder + i < buddyMaxOrders := by
    intro i hi
    have := hg.maxOrder
    omega
  have hlen : ∀ i < b.maxOrder + 1 - buddyMinOrder,
      ((fr (buddyMinOrder + i)).map b.indexToPtr).length < fuel := by
    intro i hi
    rw [List.length_map]
    exact (length_le_freeCount fr (hlt i hi)).trans_lt hf
  have hloop := integrityLoop_spec (fun o => (fr o).map b.indexToPtr)
    (fun i _ => h.chain (buddyMinOrder + i)) hlen 0
  simp only [List.length_map, Nat.zero_add, Nat.zero_mod] at hloop
  have hsum : ∑ i ∈ Finset.range (b.maxOrder + 1 - buddyMinOrder),
      (fr (buddyMinOrder + i)).length = freeCount fr := by
    apply sum_orders (fun o => (fr o).length) hg.maxOrder
    · intro o ho
      rw [h.fr_low ho]
      rfl
    · intro o ho
      rw [h.fr_high ho]
      rfl
  rw [hsum, ← ha.count] at hloop
  rw [checkIntegrity, hi, hloop]
  simp

end Counting

/-- As long as every allocation takes a whole block of the region, the free lists end, the
statistics count them and the live blocks, and no memory is lost. -/
theorem buddy_accounts {σ : BuddySystem}
    (h : Transition.Reach BuddySystem.FirstStart BuddySystem.step
      (fun σ e => takesWholeBlocks σ e) σ) : ∃ lists, σ.Agrees lists := by
  have hm : ∃ fr lv, Managed σ fr lv ∧ Accounts σ.b fr lv := by
    apply h.invariant (I := fun σ => ∃ fr lv, Managed σ fr lv ∧ Accounts σ.b fr lv)
    · rintro σ ⟨b, start, total, hoff, hfree, -, -, hb, hon, hlive⟩
      obtain ⟨fr, hm, ha⟩ := managed_init hoff hb hon hlive
      exact ⟨fr, [], hm, ha hfree⟩
    · rintro σ e σ' ⟨fr, lv, hm, ha⟩ hok hs
      obtain ⟨fr', lv', hm', ha'⟩ := managed_step hm hok hs
      exact ⟨fr', lv', hm', ha' ha⟩
  obtain ⟨fr, lv, hm, ha⟩ := hm
  have hb := hm.blocks
  refine ⟨fun o => (fr o).map σ.b.indexToPtr, ⟨hb.chain, fun o => isChain_nodup (hb.chain o), ?_,
    ?_, ⟨freeCount fr + 1, fun fuel hf => checkIntegrity_one hm.initialized hb ha hf⟩, ?_, ?_⟩⟩
  · intro o o' p hp hp'
    obtain ⟨i, hi, rfl⟩ := List.mem_map.mp hp
    obtain ⟨j, hj, he⟩ := List.mem_map.mp hp'
    have hij := indexToPtr_inj hb.geometry (hb.free o' j hj).index (hb.free o i hi).index he
    by_contra hne
    have hne' : (i, o) ≠ (j, o') := fun e => hne (congrArg Prod.snd e)
    exact (hb.freeApart o o' i j hi hj hne').ne hij.symm
  · rw [ha.count_eq]
    simp only [List.length_map]
    rfl
  · rw [ha.used_eq, hm.live, List.map_map]
    rfl
  · simp only [List.length_map]
    rw [ha.used_eq]
    exact ha.total

lemma buddyStart_first : buddyStart.FirstStart :=
  ⟨buddySample, 4096, 8 * 4096, rfl, rfl, by decide, by decide, rfl, by decide +kernel, rfl⟩

theorem buddy_accounts_sample :
    (∃ lists, (Transition.final BuddySystem.step takesWholeBlocks buddyStart buddyRun).Agrees
      lists) ∧
      (Transition.final BuddySystem.step takesWholeBlocks buddyStart buddyRun).b.statUsed =
        16384 := by
  constructor
  · apply buddy_accounts
    exact Transition.Reach.final buddyRun buddyStart_first (by decide +kernel)
  · decide +kernel

lemma buddyStart_firstReach (es : List BuddyEvent)
    (hr : (Transition.runIf BuddySystem.step (fun _ _ => true) buddyStart es).isSome) :
    Transition.Reach BuddySystem.FirstStart BuddySystem.step (fun _ _ => True)
      (Transition.final BuddySystem.step (fun _ _ => true) buddyStart es) :=
  (Transition.Reach.final es buddyStart_first hr).mono fun _ _ _ => trivial

/-- A block outside of the region stays counted as used when it is released; a split puts a
block on a second free list, which cuts the first one; and a second `buddy_init` keeps the
number of free blocks. -/
theorem buddy_accounts_wrong :
    (∃ σ, Transition.Reach BuddySystem.FirstStart BuddySystem.step (fun _ _ => True) σ ∧
      (∀ lists, ¬σ.Agrees lists) ∧ σ.live = [] ∧ σ.b.statUsed = 4096) ∧
    (∃ σ, Transition.Reach BuddySystem.FirstStart BuddySystem.step (fun _ _ => True) σ ∧
      (∀ lists, ¬σ.Agrees lists) ∧ σ.b.checkIntegrity 30 = some 0) ∧
    (buddyStart.b.init 4096 (8 * 4096)).checkIntegrity 30 = some 0 := by
  refine ⟨?_, ?_, by decide +kernel⟩
  · have hr := buddyStart_firstReach [.alloc 1, .free 36864] (by decide +kernel)
    generalize hσ : Transition.final _ _ _ _ = σ at hr
    have hl : σ.live = [] ∧ σ.b.statUsed = 4096 := by
      rw [← hσ]
      decide +kernel
    refine ⟨σ, hr, fun lists h => ?_, hl⟩
    have hu := h.used
    rw [hl.1, hl.2] at hu
    exact absurd hu (by decide)
  · have hr := buddyStart_firstReach [.alloc 1, .alloc 1, .free 28672, .alloc 5000]
      (by decide +kernel)
    generalize hσ : Transition.final _ _ _ _ = σ at hr
    have hl : σ.b.freeLists 12 = some 28672 ∧ σ.b.freeLists 13 = some 28672 ∧
        σ.b.checkIntegrity 30 = some 0 := by
      rw [← hσ]
      decide +kernel
    refine ⟨σ, hr, fun lists h => ?_, hl.2.2⟩
    have hhead : ∀ o, σ.b.freeLists o = some 28672 → 28672 ∈ lists o := by
      intro o ho
      have hc := isChain_head_eq (h.chain o)
      rw [ho] at hc
      exact List.mem_of_head? hc.symm
    exact absurd (h.once 12 13 28672 (hhead 12 hl.1) (hhead 13 hl.2.1)) (by decide)

end TP2Kernel.Proofs
