import TP2Kernel.Proofs.Buddy

/-!
# Where the blocks of the buddy system lie, and how large they are

`size_to_order` stops at the largest order, so that requests beyond it are met with a block of
that order. `buddy_init` counts pages from the start of the metadata and `index_to_ptr` from
behind it, so that no block is at the start of the region.
-/

namespace TP2Kernel.Proofs
open Function LinkedList Buddy

section Orders

variable {b b' : Buddy} {n o : Nat}

/-- The loop ends at the cap or at an order that is large enough, if it has turns enough. -/
lemma orderLoop_covers {size maxOrder n order : Nat} (hn : maxOrder ≤ order + n) :
    maxOrder ≤ orderLoop size maxOrder n order ∨ size ≤ 2 ^ orderLoop size maxOrder n order := by
  induction n generalizing order with
  | zero => exact .inl hn
  | succ n ih =>
    rw [orderLoop]
    split
    · exact ih (by omega)
    · rename_i hc
      by_cases hs : 2 ^ order < size
      · left
        by_contra hlt
        exact hc ⟨hs, not_le.mp hlt⟩
      · exact .inr (not_lt.mp hs)

/-- What every call keeps of an initialised heap. -/
structure Ready (b : Buddy) : Prop where
  initialized : b.initialized = true
  minOrder : buddyMinOrder ≤ b.maxOrder
  maxOrder : b.maxOrder < buddyMaxOrders
  pages : 0 < b.numPages

lemma Ready.same (h : Ready b) (hs : SameGeometry b b') (hi : b'.initialized = b.initialized) :
    Ready b' := by
  obtain ⟨hpages, -, -, hmax⟩ := hs
  refine ⟨hi.trans h.initialized, ?_, ?_, ?_⟩
  · rw [hmax]
    exact h.minOrder
  · rw [hmax]
    exact h.maxOrder
  · rw [hpages]
    exact h.pages

lemma splitLoop_same (idx order n : Nat) (b : Buddy) :
    SameGeometry b (splitLoop idx order n b) ∧
      (splitLoop idx order n b).initialized = b.initialized := by
  induction n generalizing b with
  | zero => exact ⟨⟨rfl, rfl, rfl, rfl⟩, rfl⟩
  | succ n ih => exact ih _

lemma alloc_ready (h : Ready b) (n : Nat) : Ready (b.alloc n).1 := by
  unfold Buddy.alloc
  split
  · exact h
  · dsimp only
    split
    · exact h
    · rename_i o hfind
      split
      · exact h
      · rename_i block hhead
        obtain ⟨hs, hi⟩ := splitLoop_same (b.ptrToIndex block) (b.sizeToOrder n)
          (o - b.sizeToOrder n) (popped b o block)
        exact h.same hs hi

lemma removeLoop_same {target o n : Nat} {prev cur : Option Nat}
    (h : removeLoop target o n prev cur b = some b') : SameGeometry b b' := by
  induction n generalizing prev cur with
  | zero => cases h
  | succ n ih =>
    cases cur with
    | none => cases h
    | some c =>
      rw [removeLoop] at h
      split at h
      · cases h
        exact ⟨rfl, rfl, rfl, rfl⟩
      · exact ih h

lemma mergeLoop_same (n idx order : Nat) (b : Buddy) :
    SameGeometry b (mergeLoop n idx order b) := by
  induction n generalizing idx order b with
  | zero => exact ⟨rfl, rfl, rfl, rfl⟩
  | succ n ih =>
    rw [mergeLoop]
    dsimp only
    split
    · split
      · exact ⟨rfl, rfl, rfl, rfl⟩
      · rename_i b1 hr
        obtain ⟨h1, h2, h3, h4⟩ := removeLoop_same hr
        obtain ⟨g1, g2, g3, g4⟩ := ih (if buddyIndex idx order < idx then buddyIndex idx order
          else idx) (order + 1) (b1.setOrder (if buddyIndex idx order < idx then
            buddyIndex idx order else idx) (order + 1))
        exact ⟨g1.trans h1, g2.trans h2, g3.trans h3, g4.trans h4⟩
    · exact ⟨rfl, rfl, rfl, rfl⟩

lemma free_ready (h : Ready b) (ptr : Nat) : Ready (b.free ptr) := by
  unfold Buddy.free
  split
  · exact h
  · dsimp only
    split
    · exact h
    · have hs := mergeLoop_same buddyMaxOrders (b.ptrToIndex ptr)
        (b.orderMap (b.ptrToIndex ptr)) (released b (b.ptrToIndex ptr)
          (b.orderMap (b.ptrToIndex ptr)))
      have hi := mergeLoop_initialized buddyMaxOrders (b.ptrToIndex ptr)
        (b.orderMap (b.ptrToIndex ptr)) (released b (b.ptrToIndex ptr)
          (b.orderMap (b.ptrToIndex ptr)))
      exact h.same hs hi

lemma step_ready {σ σ' : BuddySystem} {e : BuddyEvent} (h : Ready σ.b) (hs : σ.step e = some σ') :
    Ready σ'.b := by
  cases e with
  | alloc n =>
    cases hs
    exact alloc_ready h n
  | free ptr =>
    rw [BuddySystem.step] at hs
    split at hs
    · cases hs
      exact free_ready h ptr
    · cases hs
  | store a v =>
    rw [BuddySystem.step] at hs
    split at hs
    · cases hs
      exact ⟨h.initialized, h.minOrder, h.maxOrder, h.pages⟩
    · cases hs

lemma carveLoop_same (alignedStart n offset : Nat) (b : Buddy) :
    SameGeometry b (carveLoop alignedStart n offset b) := by
  induction n generalizing offset b with
  | zero => exact ⟨rfl, rfl, rfl, rfl⟩
  | succ n ih =>
    rw [carveLoop]
    dsimp only
    split
    · exact ih _ _
    · exact ⟨rfl, rfl, rfl, rfl⟩

lemma start_ready {σ : BuddySystem} (h : σ.Start) : Ready σ.b := by
  obtain ⟨b, start, total, hoff, -, -, hb, hon, -⟩ := h
  have hon' : (b.init start total).initialized = true := by
    rw [← hb]
    exact hon
  obtain ⟨b0, alignedStart, M, huncarved, -, hinit⟩ := init_uncarved hoff hon'
  obtain ⟨hpages, -, -, hmax⟩ := carveLoop_same alignedStart b0.numPages 0 b0
  have hroom := huncarved.room
  refine ⟨hon, ?_, ?_, ?_⟩
  · rw [hb, hinit]
    exact huncarved.geometry.minOrder.trans hmax.ge
  · rw [hb, hinit]
    exact hmax.le.trans_lt huncarved.geometry.maxOrder
  · rw [hb, hinit]
    have hpos : 0 < b0.numPages := by omega
    exact hpos.trans_le hpages.ge

/-- The order of the free list that `buddy_alloc` takes from. -/
lemma findOrder_spec (h : b.findOrder n = some o) : n ≤ o ∧ o ≤ b.maxOrder ∧
    ∃ block, b.freeLists o = some block := by
  have hmem := List.mem_of_find?_eq_some h
  have hsome := List.find?_some h
  obtain ⟨k, hk, rfl⟩ := List.mem_map.mp hmem
  rw [List.mem_range] at hk
  refine ⟨by omega, by omega, Option.isSome_iff_exists.mp hsome⟩

lemma sizeToOrder_le (h : Ready b) (n : Nat) : b.sizeToOrder n ≤ b.maxOrder := by
  unfold Buddy.sizeToOrder
  split
  · exact h.minOrder
  · exact (orderLoop_spec h.minOrder).2.1

/-- The order of a request is large enough, if any order is. -/
lemma sizeToOrder_covers (h : Ready b) (hn : n ≤ 2 ^ b.maxOrder) : n ≤ 2 ^ b.sizeToOrder n := by
  unfold Buddy.sizeToOrder
  split
  · rename_i h0
    rw [h0]
    exact Nat.zero_le _
  · have hmax := h.maxOrder
    have hturns : b.maxOrder ≤ buddyMinOrder + buddyMaxOrders := by
      rw [buddyMinOrder]
      omega
    rcases orderLoop_covers hturns with hcap | hcover
    · exact hn.trans (Nat.pow_le_pow_right (by decide) hcap)
    · exact hcover

/-- Beyond the largest order the request gets that order. -/
lemma sizeToOrder_capped (h : Ready b) (hn : 2 ^ b.maxOrder < n) :
    b.sizeToOrder n = b.maxOrder := by
  have hle := sizeToOrder_le h n
  have hmax := h.maxOrder
  have hturns : b.maxOrder ≤ buddyMinOrder + buddyMaxOrders := by
    rw [buddyMinOrder]
    omega
  have h0 : n ≠ 0 := by
    have := Nat.two_pow_pos b.maxOrder
    omega
  rw [Buddy.sizeToOrder, if_neg h0] at hle ⊢
  rcases orderLoop_covers hturns with hcap | hcover
  · exact hle.antisymm hcap
  · have := Nat.pow_le_pow_right (n := 2) (by decide) hle
    omega

lemma handedOut_order (hpages : 0 < b.numPages) (idx order : Nat) :
    (handedOut b idx order).orderMap idx = order := by
  have hne : idx ≠ b.numPages + idx := by omega
  exact (update_of_ne hne _ _).trans (update_self _ _ _)

/-- `buddy_alloc` fails if no list of a sufficient order has a block, and else records the
order of the block that it returns. -/
lemma alloc_cases (h : Ready b) (hn : n ≠ 0) :
    ((b.alloc n).2 = none ∧ b.findOrder (b.sizeToOrder n) = none) ∨
    ∃ ptr, (b.alloc n).2 = some ptr ∧ (b.findOrder (b.sizeToOrder n)).isSome ∧
      (b.alloc n).1.orderMap (b.ptrToIndex ptr) = b.sizeToOrder n := by
  have hpages := h.pages
  unfold Buddy.alloc
  rw [if_neg (by simp [h.initialized, hn])]
  dsimp only
  cases hfind : b.findOrder (b.sizeToOrder n) with
  | none => exact .inl ⟨rfl, rfl⟩
  | some o =>
    obtain ⟨-, -, block, hhead⟩ := findOrder_spec hfind
    right
    dsimp only
    rw [hhead]
    refine ⟨block, rfl, rfl, ?_⟩
    obtain ⟨⟨hnum, -⟩, -⟩ := splitLoop_same (b.ptrToIndex block) (b.sizeToOrder n)
      (o - b.sizeToOrder n) (popped b o block)
    exact handedOut_order (hpages.trans_le hnum.ge) _ _

/-- At the largest order only one list is searched. -/
lemma findOrder_max (b : Buddy) :
    (b.findOrder b.maxOrder).isSome ↔ b.freeLists b.maxOrder ≠ none := by
  have hone : b.maxOrder + 1 - b.maxOrder = 1 := by omega
  rw [Buddy.findOrder, hone, List.find?_isSome, ← Option.isSome_iff_ne_none]
  simp

end Orders

/-- `buddy_alloc` returns blocks that are large enough, and rejects what no block can hold, if
the request does not exceed the largest order or there is no block of that order. -/
theorem buddy_alloc_covers {σ : BuddySystem} {n : Nat}
    (h : Transition.Reach BuddySystem.Start BuddySystem.step (fun _ _ => True) σ) :
    ((∀ ptr, (σ.b.alloc n).2 = some ptr →
        n ≤ 2 ^ (σ.b.alloc n).1.orderMap (σ.b.ptrToIndex ptr)) ∧
      (2 ^ σ.b.maxOrder < n → (σ.b.alloc n).2 = none)) ↔
    n ≤ 2 ^ σ.b.maxOrder ∨ σ.b.freeLists σ.b.maxOrder = none := by
  have hr : Ready σ.b := h.invariant (I := fun σ => Ready σ.b) (fun _ => start_ready)
    fun _ _ _ hr _ hs => step_ready hr hs
  by_cases hn : n ≤ 2 ^ σ.b.maxOrder
  · refine ⟨fun _ => .inl hn, fun _ => ⟨fun ptr hptr => ?_, fun hlt => absurd hn (not_le.mpr hlt)⟩⟩
    by_cases h0 : n = 0
    · rw [h0]
      exact Nat.zero_le _
    rcases alloc_cases hr h0 with ⟨hno, -⟩ | ⟨ptr', hsome, -, horder⟩
    · rw [hno] at hptr
      cases hptr
    · rw [hsome] at hptr
      cases hptr
      rw [horder]
      exact sizeToOrder_covers hr hn
  · have hlt : 2 ^ σ.b.maxOrder < n := not_le.mp hn
    have h0 : n ≠ 0 := (Nat.zero_lt_of_lt hlt).ne'
    have hcases := alloc_cases hr h0
    rw [sizeToOrder_capped hr hlt] at hcases
    have hmax := findOrder_max σ.b
    rcases hcases with ⟨hno, hfind⟩ | ⟨ptr, hsome, hfind, -⟩
    · have hempty : σ.b.freeLists σ.b.maxOrder = none := by
        by_contra hne
        rw [hfind] at hmax
        simpa using hmax.mpr hne
      rw [hno]
      exact ⟨fun _ => .inr hempty, fun _ => ⟨by simp, fun _ => rfl⟩⟩
    · refine ⟨fun hall => ?_, fun hor => ?_⟩
      · rw [hsome] at hall
        exact absurd (hall.2 hlt) (by simp)
      · rcases hor with hle | hempty
        · exact absurd hle hn
        · exact absurd hempty (hmax.mp hfind)

/-- The heap of `kernel.c`: 4 MiB. -/
def buddyKernelHeap : BuddySystem := ⟨buddySample.init 0x200000 (4 * 1024 * 1024), []⟩

lemma buddyKernelHeap_start : buddyKernelHeap.Start :=
  ⟨buddySample, 0x200000, 4 * 1024 * 1024, rfl, by decide, by decide, rfl, by decide +kernel, rfl⟩

theorem buddy_alloc_covers_sample :
    (∀ ptr, (buddyKernelHeap.b.alloc 5000).2 = some ptr →
        5000 ≤ 2 ^ (buddyKernelHeap.b.alloc 5000).1.orderMap (buddyKernelHeap.b.ptrToIndex ptr)) ∧
      (2 ^ buddyKernelHeap.b.maxOrder < 5000 → (buddyKernelHeap.b.alloc 5000).2 = none) :=
  (buddy_alloc_covers (.start buddyKernelHeap_start)).mpr (.inl (by decide +kernel))

/-- A request for 600000 bytes is met with a block of 524288. -/
theorem buddy_alloc_short :
    Transition.Reach BuddySystem.Start BuddySystem.step (fun _ _ => True) buddyKernelHeap ∧
    2 ^ buddyKernelHeap.b.maxOrder < 600000 ∧
    ∃ ptr, (buddyKernelHeap.b.alloc 600000).2 = some ptr ∧
      2 ^ (buddyKernelHeap.b.alloc 600000).1.orderMap (buddyKernelHeap.b.ptrToIndex ptr) <
        600000 := by
  have hsome : ((buddyKernelHeap.b.alloc 600000).2.any fun ptr =>
      decide (2 ^ (buddyKernelHeap.b.alloc 600000).1.orderMap (buddyKernelHeap.b.ptrToIndex ptr) <
        600000)) = true := by decide +kernel
  obtain ⟨ptr, hptr, hlt⟩ := (Option.any_eq_true _ _).mp hsome
  exact ⟨.start buddyKernelHeap_start, by decide +kernel, ptr, hptr, of_decide_eq_true hlt⟩

/-- The blocks on the free lists partition the region, and the exclusive or with its size in
pages leads from the index of each block to that of its buddy. -/
structure Partitions (b : Buddy) : Prop where
  disjoint : ∀ o o' p p', OnFreeList b o p → OnFreeList b o' p' → (o, p) ≠ (o', p') →
    ∀ a, ¬(BlockCovers p o a ∧ BlockCovers p' o' a)
  inside : ∀ o p, OnFreeList b o p → b.regionBase ≤ p ∧ p + 2 ^ o ≤ b.regionEnd
  covers : ∀ a, b.regionBase ≤ a → a < b.regionEnd → ∃ o p, OnFreeList b o p ∧ BlockCovers p o a
  aligned : ∀ o p, OnFreeList b o p → blockPages o ∣ b.ptrToIndex p

/-- No block has the first page of the region: the indices start behind the metadata. -/
lemma base_uncovered {b : Buddy} {fr : Nat → List Nat} {M : Nat} (h : Blocks b fr [])
    (hM : 0 < M) (hfr : ∀ o, ∀ i ∈ fr o, M ≤ i) {o p : Nat} (hp : OnFreeList b o p) :
    ¬BlockCovers p o b.regionBase := by
  intro hcov
  obtain ⟨i, hi, rfl⟩ := h.onFreeList hp
  have hg := h.geometry
  have hplaced := h.free o i hi
  obtain ⟨d, hd, hlow, hhigh⟩ := covers_offset hplaced hcov
  have hfits : (i + blockPages o) * buddyPageSize ≤ b.numPages * buddyPageSize :=
    Nat.mul_le_mul_right _ hplaced.fits
  have hspan := hg.span
  dsimp only at hlow hhigh
  have hzero : (b.regionBase + 0) % addrMod = (b.regionBase + d) % addrMod := by
    rw [← hd]
    exact Nat.mod_eq_of_lt hg.base
  have hd0 : 0 = d := offset_inj (by omega) (by omega) hzero
  have hpos : 0 < i * buddyPageSize := Nat.mul_pos (hM.trans_le (hfr o i hi)) (by decide)
  omega

/-- The blocks that `buddy_init` puts on the free lists never partition the region. -/
theorem init_never_partitions {b : Buddy} {start total : Nat} (hoff : b.initialized = false)
    (hon : (b.init start total).initialized = true) : ¬Partitions (b.init start total) := by
  obtain ⟨b0, alignedStart, M, huncarved, -, hinit⟩ := init_uncarved hoff hon
  obtain ⟨fr, hblocks, -, -, hfr⟩ := huncarved.carved
  have h1 : Blocks (b.init start total) fr [] := by
    rw [hinit]
    exact hblocks.transfer ⟨rfl, rfl, rfl, rfl⟩ rfl rfl rfl
  obtain ⟨-, hbase, hend, -⟩ := carveLoop_same alignedStart b0.numPages 0 b0
  have hlt : (b.init start total).regionBase < (b.init start total).regionEnd := by
    rw [hinit]
    have hroom := huncarved.room
    change (carveLoop alignedStart b0.numPages 0 b0).regionBase <
      (carveLoop alignedStart b0.numPages 0 b0).regionEnd
    rw [hbase, hend, huncarved.base, huncarved.ends]
    have := Nat.mul_lt_mul_of_pos_right hroom (show 0 < buddyPageSize by decide)
    omega
  intro hpart
  obtain ⟨o, p, hp, hcov⟩ := hpart.covers _ le_rfl hlt
  exact base_uncovered h1 huncarved.metadata hfr hp hcov

theorem init_never_partitions_sample :
    ¬Partitions (buddySample.init 0x200000 (4 * 1024 * 1024)) :=
  init_never_partitions rfl (by decide +kernel)

/-- On a heap of 8 pages a free block starts where the region ends. -/
theorem init_block_outside : (buddySample.init 4096 (8 * 4096)).initialized = true ∧
    OnFreeList (buddySample.init 4096 (8 * 4096)) 12 36864 ∧
    (buddySample.init 4096 (8 * 4096)).regionEnd = 36864 ∧
    ¬Partitions (buddySample.init 4096 (8 * 4096)) := by
  have hfree : OnFreeList (buddySample.init 4096 (8 * 4096)) 12 36864 :=
    .head (by decide +kernel)
  have hend : (buddySample.init 4096 (8 * 4096)).regionEnd = 36864 := by decide +kernel
  refine ⟨by decide +kernel, hfree, hend, fun hpart => ?_⟩
  have := (hpart.inside 12 36864 hfree).2
  rw [hend] at this
  omega

end TP2Kernel.Proofs
