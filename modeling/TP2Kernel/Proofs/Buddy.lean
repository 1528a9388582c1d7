import TP2Kernel.Buddy

/-!
# Allocations of the buddy memory manager

The free lists and the live allocations as blocks of pages: a block is a page index and an
order. As long as no block is split, the blocks never overlap, because a block is taken
whole from its free list and a merge joins two neighbours that are both free.
-/

namespace TP2Kernel.Proofs
open Function LinkedList Buddy

/-- The number of pages of a block. -/
def blockPages (order : Nat) : Nat := 2 ^ (order - buddyMinOrder)

lemma blockPages_pos (order : Nat) : 0 < blockPages order := Nat.two_pow_pos _

lemma blockPages_bytes {order : Nat} (h : buddyMinOrder ≤ order) :
    blockPages order * buddyPageSize = 2 ^ order := by
  rw [blockPages, show buddyPageSize = 2 ^ buddyMinOrder from rfl, ← pow_add]
  congr 1
  omega

lemma blockPages_succ {order : Nat} (h : buddyMinOrder ≤ order) :
    blockPages (order + 1) = 2 * blockPages order := by
  rw [blockPages, blockPages, Nat.succ_sub h, pow_succ, Nat.mul_comm]

/-- Two blocks without a common page. -/
def Apart (x y : Nat × Nat) : Prop :=
  x.1 + blockPages x.2 ≤ y.1 ∨ y.1 + blockPages y.2 ≤ x.1

lemma Apart.symm {x y : Nat × Nat} (h : Apart x y) : Apart y x := Or.symm h

instance : Std.Symm Apart := ⟨fun _ _ => Apart.symm⟩

lemma Apart.ne {x y : Nat × Nat} (h : Apart x y) : x.1 ≠ y.1 := by
  have := blockPages_pos x.2
  have := blockPages_pos y.2
  rcases h with h | h <;> omega

/-- Flipping one bit adds or subtracts its weight. -/
lemma xor_two_pow (i k : Nat) : i ^^^ 2 ^ k = i + 2 ^ k ∨ (i ^^^ 2 ^ k) + 2 ^ k = i := by
  have hp := Nat.two_pow_pos k
  have hm : (i ^^^ 2 ^ k) % 2 ^ k = i % 2 ^ k := by
    rw [Nat.xor_mod_two_pow, Nat.mod_self, Nat.xor_zero]
  have hd : (i ^^^ 2 ^ k) / 2 ^ k = i / 2 ^ k ^^^ 1 := by
    rw [Nat.xor_div_two_pow, Nat.div_self hp]
  have h1 : ∀ n : Nat, n ^^^ 1 = n + 1 ∨ (n ^^^ 1) + 1 = n := by
    intro n
    have e2 : (n ^^^ 1) / 2 = n / 2 := by
      have := @Nat.xor_div_two_pow n 1 1
      simpa using this
    have e1 : (n ^^^ 1) % 2 = (n + 1) % 2 := by
      have := @Nat.xor_mod_two_pow n 1 1
      simp only [pow_one] at this
      rw [this]
      rcases Nat.mod_two_eq_zero_or_one n with h | h <;> rw [h] <;> simp <;> omega
    omega
  have e := Nat.div_add_mod (i ^^^ 2 ^ k) (2 ^ k)
  have e' := Nat.div_add_mod i (2 ^ k)
  rw [hm, hd] at e
  rcases h1 (i / 2 ^ k) with h | h
  · left
    rw [h, Nat.mul_add] at e
    omega
  · right
    have hx : 2 ^ k * (i / 2 ^ k) = 2 ^ k * (i / 2 ^ k ^^^ 1) + 2 ^ k := by
      conv_lhs => rw [← h, Nat.mul_add, Nat.mul_one]
    omega

/-- A block and its buddy are neighbours, and together they are a block of the next order. -/
lemma apart_merge {i order : Nat} {z : Nat × Nat} (ho : buddyMinOrder ≤ order)
    (h : Apart (i, order) z) (h' : Apart (buddyIndex i order, order) z) :
    Apart (if buddyIndex i order < i then buddyIndex i order else i, order + 1) z := by
  have hp := blockPages_pos order
  have hz := blockPages_pos z.2
  have hx : buddyIndex i order = i + blockPages order ∨
      buddyIndex i order + blockPages order = i := xor_two_pow i (order - buddyMinOrder)
  simp only [Apart, blockPages_succ ho] at *
  split <;> omega

/-- The heap fits in the address space. -/
structure Geometry (b : Buddy) : Prop where
  base : b.regionBase < addrMod
  span : b.numPages * buddyPageSize < addrMod
  ends : b.regionEnd ≤ b.regionBase + b.numPages * buddyPageSize
  endsIn : b.regionEnd < addrMod
  minOrder : buddyMinOrder ≤ b.maxOrder
  maxOrder : b.maxOrder < buddyMaxOrders

/-- A block whose order is in range and whose pages are below `numPages`. -/
structure Placed (b : Buddy) (x : Nat × Nat) : Prop where
  minOrder : buddyMinOrder ≤ x.2
  maxOrder : x.2 ≤ b.maxOrder
  fits : x.1 + blockPages x.2 ≤ b.numPages

section Addresses

variable {b : Buddy} {x y : Nat × Nat}

lemma Placed.index (h : Placed b x) : x.1 < b.numPages := by
  have := blockPages_pos x.2
  have := h.fits
  omega

lemma offset_inj {base c d m : Nat} (hc : c < m) (hd : d < m)
    (h : (base + c) % m = (base + d) % m) : c = d := by
  have := Nat.ModEq.add_left_cancel' base h
  exact Nat.ModEq.eq_of_lt_of_lt this hc hd

/-- An address in a block is an offset from the base of the region. -/
lemma covers_offset (h : Placed b x) {a : Nat} (ha : BlockCovers (b.indexToPtr x.1) x.2 a) :
    ∃ d, a = (b.regionBase + d) % addrMod ∧ x.1 * buddyPageSize ≤ d ∧
      d < (x.1 + blockPages x.2) * buddyPageSize := by
  obtain ⟨i, hi, rfl⟩ := ha
  refine ⟨x.1 * buddyPageSize + i, ?_, Nat.le_add_right _ _, ?_⟩
  · rw [indexToPtr, Nat.mod_add_mod, Nat.add_assoc]
  · rw [Nat.add_mul, blockPages_bytes h.minOrder]
    omega

/-- Blocks without a common page have no common address. -/
lemma covers_apart (hg : Geometry b) (hx : Placed b x) (hy : Placed b y) (h : Apart x y) (a : Nat) :
    ¬(BlockCovers (b.indexToPtr x.1) x.2 a ∧ BlockCovers (b.indexToPtr y.1) y.2 a) := by
  rintro ⟨h1, h2⟩
  obtain ⟨c, rfl, hc, hc'⟩ := covers_offset hx h1
  obtain ⟨d, hcd, hd, hd'⟩ := covers_offset hy h2
  have e1 := Nat.mul_le_mul_right buddyPageSize hx.fits
  have e2 := Nat.mul_le_mul_right buddyPageSize hy.fits
  have e : c = d := offset_inj (hc'.trans_le (e1.trans hg.span.le))
    (hd'.trans_le (e2.trans hg.span.le)) hcd
  rcases h with h | h
  · have := Nat.mul_le_mul_right buddyPageSize h
    omega
  · have := Nat.mul_le_mul_right buddyPageSize h
    omega

lemma indexToPtr_inj (hg : Geometry b) {i j : Nat} (hi : i < b.numPages) (hj : j < b.numPages)
    (h : b.indexToPtr i = b.indexToPtr j) : i = j := by
  have e1 := Nat.mul_lt_mul_of_pos_right hi (show 0 < buddyPageSize by decide)
  have e2 := Nat.mul_lt_mul_of_pos_right hj (show 0 < buddyPageSize by decide)
  have e := offset_inj (e1.trans hg.span) (e2.trans hg.span) h
  exact Nat.eq_of_mul_eq_mul_right (by decide) e

lemma ptrToIndex_indexToPtr (hg : Geometry b) {i : Nat} (hi : i < b.numPages) :
    b.ptrToIndex (b.indexToPtr i) = i := by
  have hspan := hg.span
  have hbase := hg.base
  have e1 := Nat.mul_lt_mul_of_pos_right hi (show 0 < buddyPageSize by decide)
  rw [ptrToIndex, indexToPtr, Nat.mod_add_mod]
  have e : b.regionBase + i * buddyPageSize + (addrMod - b.regionBase) =
      i * buddyPageSize + addrMod := by omega
  rw [e, Nat.add_mod_right, Nat.mod_eq_of_lt (e1.trans hspan)]
  exact Nat.mul_div_cancel i (by decide)

end Addresses

/-- The free lists hold the blocks `fr` and the programs the blocks `lv`; no two of them
overlap. -/
structure Blocks (b : Buddy) (fr : Nat → List Nat) (lv : List (Nat × Nat)) : Prop where
  geometry : Geometry b
  chain : ∀ o, IsChain b.mem (b.freeLists o) ((fr o).map b.indexToPtr)
  free : ∀ o, ∀ i ∈ fr o, Placed b (i, o)
  live : ∀ x ∈ lv, Placed b x
  inside : ∀ x ∈ lv, b.regionBase ≤ b.indexToPtr x.1 ∧ b.indexToPtr x.1 + 2 ^ x.2 ≤ b.regionEnd
  marked : ∀ x ∈ lv, b.orderMap x.1 = x.2 ∧ b.usedMap x.1 ≠ 0
  freeApart : ∀ o o' i i', i ∈ fr o → i' ∈ fr o' → (i, o) ≠ (i', o') → Apart (i, o) (i', o')
  liveFree : ∀ x ∈ lv, ∀ o, ∀ i ∈ fr o, Apart x (i, o)
  liveApart : lv.Pairwise Apart

/-- A block that is neither free nor live. -/
structure InHand (b : Buddy) (fr : Nat → List Nat) (lv : List (Nat × Nat)) (x : Nat × Nat) :
    Prop where
  placed : Placed b x
  free : ∀ o, ∀ i ∈ fr o, Apart x (i, o)
  live : ∀ y ∈ lv, Apart x y

/-- Two heaps with the same geometry. -/
def SameGeometry (b b' : Buddy) : Prop :=
  b'.numPages = b.numPages ∧ b'.regionBase = b.regionBase ∧ b'.regionEnd = b.regionEnd ∧
    b'.maxOrder = b.maxOrder

section Blocks

variable {b b' : Buddy} {fr fr' : Nat → List Nat} {lv : List (Nat × Nat)} {x : Nat × Nat}

lemma SameGeometry.geometry (h : SameGeometry b b') (hg : Geometry b) : Geometry b' := by
  obtain ⟨h1, h2, h3, h4⟩ := h
  refine ⟨?_, ?_, ?_, ?_, ?_, ?_⟩ <;> simp only [h1, h2, h3, h4]
  · exact hg.base
  · exact hg.span
  · exact hg.ends
  · exact hg.endsIn
  · exact hg.minOrder
  · exact hg.maxOrder

lemma SameGeometry.placed (h : SameGeometry b b') (hx : Placed b x) : Placed b' x :=
  ⟨hx.minOrder, h.2.2.2 ▸ hx.maxOrder, h.1 ▸ hx.fits⟩

lemma SameGeometry.indexToPtr (h : SameGeometry b b') : b'.indexToPtr = b.indexToPtr := by
  funext i
  rw [Buddy.indexToPtr, Buddy.indexToPtr, h.2.1]

/-- A change of the free lists, while the live blocks keep their entries in the maps. -/
lemma Blocks.change (h : Blocks b fr lv) (hs : SameGeometry b b')
    (hc : ∀ o, IsChain b'.mem (b'.freeLists o) ((fr' o).map b'.indexToPtr))
    (hf : ∀ o, ∀ i ∈ fr' o, Placed b (i, o))
    (hm : ∀ x ∈ lv, b'.orderMap x.1 = b.orderMap x.1 ∧ b'.usedMap x.1 = b.usedMap x.1)
    (ha : ∀ o o' i i', i ∈ fr' o → i' ∈ fr' o' → (i, o) ≠ (i', o') → Apart (i, o) (i', o'))
    (hl : ∀ x ∈ lv, ∀ o, ∀ i ∈ fr' o, Apart x (i, o)) : Blocks b' fr' lv := by
  refine ⟨hs.geometry h.geometry, hc, fun o i hi => hs.placed (hf o i hi),
    fun x hx => hs.placed (h.live x hx), fun x hx => ?_, fun x hx => ?_, ha, hl, h.liveApart⟩
  · rw [hs.indexToPtr, hs.2.1, hs.2.2.1]
    exact h.inside x hx
  · rw [(hm x hx).1, (hm x hx).2]
    exact h.marked x hx

/-- Different free blocks have different addresses. -/
lemma Blocks.ptr_ne (h : Blocks b fr lv) (hx : Placed b x) {o : Nat}
    (ha : ∀ i ∈ fr o, Apart x (i, o)) :
    b.indexToPtr x.1 ∉ (fr o).map b.indexToPtr := by
  intro hm
  obtain ⟨i, hi, e⟩ := List.mem_map.mp hm
  have := indexToPtr_inj h.geometry (h.free o i hi).index hx.index e
  exact (ha i hi).ne this.symm

/-- `order_map` and `used_map` are written at the index of a block in hand. -/
lemma Blocks.mark (h : Blocks b fr lv) {idx : Nat} (hi : idx < b.numPages)
    (hl : ∀ y ∈ lv, idx ≠ y.1) (maps : Nat → Nat)
    (hmaps : ∀ j, j ≠ idx → j ≠ b.numPages + idx → maps j = b.maps j) :
    Blocks { b with maps := maps } fr lv := by
  have hs : SameGeometry b { b with maps := maps } := ⟨rfl, rfl, rfl, rfl⟩
  refine h.change hs h.chain h.free (fun x hx => ?_) h.freeApart h.liveFree
  have h1 := hl x hx
  have h2 := (h.live x hx).index
  constructor
  · exact hmaps _ h1.symm (by omega)
  · exact hmaps (b.numPages + x.1) (by omega) (by omega)

/-- Writes to the statistics. -/
lemma Blocks.transfer (h : Blocks b fr lv) (hs : SameGeometry b b') (hm : b'.mem = b.mem)
    (hl : b'.freeLists = b.freeLists) (hmaps : b'.maps = b.maps) : Blocks b' fr lv := by
  refine h.change hs (fun o => ?_) h.free (fun x _ => ⟨?_, ?_⟩) h.freeApart h.liveFree
  · rw [hm, hl, hs.indexToPtr]
    exact h.chain o
  · rw [orderMap, orderMap, hmaps]
  · rw [usedMap, usedMap, hmaps, hs.1]

/-- Other programs' blocks go away. -/
lemma Blocks.subset (h : Blocks b fr lv) {lv' : List (Nat × Nat)} (hs : lv'.Sublist lv) :
    Blocks b fr lv' := by
  have hm : ∀ x ∈ lv', x ∈ lv := fun x hx => hs.subset hx
  exact ⟨h.geometry, h.chain, h.free, fun x hx => h.live x (hm x hx),
    fun x hx => h.inside x (hm x hx), fun x hx => h.marked x (hm x hx), h.freeApart,
    fun x hx => h.liveFree x (hm x hx), h.liveApart.sublist hs⟩

/-- The number of blocks on the free lists. -/
def freeCount (fr : Nat → List Nat) : Nat := ∑ o ∈ Finset.range buddyMaxOrders, (fr o).length

/-- The size of the blocks on the free lists. -/
def freeBytes (fr : Nat → List Nat) : Nat :=
  ∑ o ∈ Finset.range buddyMaxOrders, (fr o).length * 2 ^ o

/-- The size of the live blocks. -/
def liveBytes (lv : List (Nat × Nat)) : Nat := (lv.map fun x => 2 ^ x.2).sum

lemma sum_update (f : Nat → List Nat → Nat) (fr : Nat → List Nat) {o : Nat} (l : List Nat)
    (ho : o < buddyMaxOrders) :
    ∑ i ∈ Finset.range buddyMaxOrders, f i (update fr o l i) + f o (fr o) =
      ∑ i ∈ Finset.range buddyMaxOrders, f i (fr i) + f o l := by
  have hm := Finset.mem_range.mpr ho
  rw [← Finset.add_sum_erase _ _ hm, ← Finset.add_sum_erase _ (fun i => f i (fr i)) hm,
    update_self]
  have hrest : ∑ i ∈ (Finset.range buddyMaxOrders).erase o, f i (update fr o l i) =
      ∑ i ∈ (Finset.range buddyMaxOrders).erase o, f i (fr i) := by
    apply Finset.sum_congr rfl
    intro i hi
    rw [update_of_ne (Finset.ne_of_mem_erase hi)]
  rw [hrest]
  omega

lemma freeCount_push {o i : Nat} (ho : o < buddyMaxOrders) :
    freeCount (update fr o (i :: fr o)) = freeCount fr + 1 := by
  have h := sum_update (fun _ l => l.length) fr (i :: fr o) ho
  rw [List.length_cons] at h
  unfold freeCount
  omega

lemma freeBytes_push {o i : Nat} (ho : o < buddyMaxOrders) :
    freeBytes (update fr o (i :: fr o)) = freeBytes fr + 2 ^ o := by
  have h := sum_update (fun o l => l.length * 2 ^ o) fr (i :: fr o) ho
  rw [List.length_cons, Nat.add_mul] at h
  unfold freeBytes
  omega

lemma freeCount_remove {o i : Nat} {pre post : List Nat} (ho : o < buddyMaxOrders)
    (hfr : fr o = pre ++ i :: post) : freeCount (update fr o (pre ++ post)) + 1 = freeCount fr := by
  have h := sum_update (fun _ l => l.length) fr (pre ++ post) ho
  rw [hfr, List.length_append, List.length_append, List.length_cons] at h
  unfold freeCount
  omega

lemma freeBytes_remove {o i : Nat} {pre post : List Nat} (ho : o < buddyMaxOrders)
    (hfr : fr o = pre ++ i :: post) :
    freeBytes (update fr o (pre ++ post)) + 2 ^ o = freeBytes fr := by
  have h := sum_update (fun o l => l.length * 2 ^ o) fr (pre ++ post) ho
  rw [hfr, List.length_append, List.length_append, List.length_cons, ← Nat.add_assoc,
    Nat.add_mul (pre.length + post.length)] at h
  unfold freeBytes
  omega

/-- `stat_free_blocks` counts the blocks on the free lists. -/
def Counted (b : Buddy) (fr : Nat → List Nat) : Prop := b.statFreeBlocks = freeCount fr % addrMod

/-- The statistics, except for the number of free blocks, are those of `b`. -/
def SameStats (b b' : Buddy) : Prop := b'.statUsed = b.statUsed ∧ b'.statTotal = b.statTotal

lemma Counted.push {i o : Nat} (h : Counted b fr) (ho : o < buddyMaxOrders) :
    Counted (b.addToFreeList i o) (update fr o (i :: fr o)) := by
  unfold Counted at *
  rw [freeCount_push ho]
  show (b.statFreeBlocks + 1) % addrMod = _
  rw [h, Nat.mod_add_mod]

lemma Counted.remove {i o : Nat} {pre post : List Nat} (h : Counted b fr)
    (ho : o < buddyMaxOrders) (hfr : fr o = pre ++ i :: post)
    (hs : b'.statFreeBlocks = (b.statFreeBlocks + (addrMod - 1)) % addrMod) :
    Counted b' (update fr o (pre ++ post)) := by
  unfold Counted at *
  have hm : 0 < addrMod := Nat.two_pow_pos 64
  have he : freeCount (update fr o (pre ++ post)) + 1 + (addrMod - 1) =
      freeCount (update fr o (pre ++ post)) + addrMod := by omega
  rw [hs, h, ← freeCount_remove ho hfr, Nat.mod_add_mod, he, Nat.add_mod_right]

lemma Placed.order_lt (hx : Placed b x) (hg : Geometry b) : x.2 < buddyMaxOrders :=
  hx.maxOrder.trans_lt hg.maxOrder

/-- The statistics agree with the free and the live blocks. -/
structure Accounts (b : Buddy) (fr : Nat → List Nat) (lv : List (Nat × Nat)) : Prop where
  count : Counted b fr
  used : b.statUsed = liveBytes lv % addrMod
  total : freeBytes fr + liveBytes lv = b.statTotal
  bound : b.statTotal < addrMod

/-- `add_to_free_list` of a block in hand. -/
lemma Blocks.push (h : Blocks b fr lv) {i o : Nat} (hx : InHand b fr lv (i, o)) :
    Blocks (b.addToFreeList i o) (update fr o (i :: fr o)) lv := by
  have hs : SameGeometry b (b.addToFreeList i o) := ⟨rfl, rfl, rfl, rfl⟩
  have hold : ∀ o', IsChain (b.addToFreeList i o).mem (b.freeLists o')
      ((fr o').map b.indexToPtr) := by
    intro o'
    have hn := h.ptr_ne hx.placed (hx.free o')
    exact (isChain_update_of_notMem hn _).mpr (h.chain o')
  have hmem : ∀ o' j, j ∈ update fr o (i :: fr o) o' → (j, o') = (i, o) ∨ j ∈ fr o' := by
    intro o' j hj
    by_cases ho : o' = o
    · subst ho
      rw [update_self, List.mem_cons] at hj
      exact hj.imp_left fun e => by rw [e]
    · rw [update_of_ne ho] at hj
      exact .inr hj
  refine h.change hs (fun o' => ?_) (fun o' j hj => ?_) (fun x hx => ⟨rfl, rfl⟩)
    (fun o1 o2 j1 j2 h1 h2 hne => ?_) fun x hx' o' j hj => ?_
  · rw [hs.indexToPtr]
    by_cases ho : o' = o
    · subst ho
      rw [update_self, List.map_cons, isChain_cons]
      have hnext : (b.addToFreeList i o').mem (b.indexToPtr i) = b.freeLists o' := update_self _ _ _
      have hhead : (b.addToFreeList i o').freeLists o' = some (b.indexToPtr i) := update_self _ _ _
      rw [hnext, hhead]
      exact ⟨rfl, hold o'⟩
    · rw [update_of_ne ho]
      have hhead : (b.addToFreeList i o).freeLists o' = b.freeLists o' := update_of_ne ho _ _
      rw [hhead]
      exact hold o'
  · rcases hmem o' j hj with e | hj
    · rw [e]
      exact hx.placed
    · exact h.free o' j hj
  · rcases hmem o1 j1 h1 with e1 | h1 <;> rcases hmem o2 j2 h2 with e2 | h2
    · exact absurd (e1.trans e2.symm) hne
    · rw [e1]
      exact hx.free o2 j2 h2
    · rw [e2]
      exact (hx.free o1 j1 h1).symm
    · exact h.freeApart o1 o2 j1 j2 h1 h2 hne
  · rcases hmem o' j hj with e | hj
    · rw [e]
      exact (hx.live x hx').symm
    · exact h.liveFree x hx' o' j hj

/-- A block is taken from its free list. -/
lemma Blocks.remove (h : Blocks b fr lv) {i o : Nat} {pre post : List Nat}
    (hfr : fr o = pre ++ i :: post) (hs : SameGeometry b b')
    (hl : b'.freeLists = update b.freeLists o (spliceHead (b.freeLists o)
      (pre.map b.indexToPtr).getLast? (b.mem (b.indexToPtr i))))
    (hm : b'.mem = spliceNext b.mem (pre.map b.indexToPtr).getLast? (b.mem (b.indexToPtr i)))
    (hmaps : b'.maps = b.maps) :
    Blocks b' (update fr o (pre ++ post)) lv ∧ InHand b' (update fr o (pre ++ post)) lv (i, o) := by
  have hi : i ∈ fr o := by simp [hfr]
  have hc := h.chain o
  rw [hfr, List.map_append, List.map_cons] at hc
  have hnd : (pre ++ i :: post).Nodup := by
    have := isChain_nodup hc
    rw [← List.map_cons, ← List.map_append] at this
    exact this.of_map
  have hmem : ∀ o' j, j ∈ update fr o (pre ++ post) o' → j ∈ fr o' ∧ (j, o') ≠ (i, o) := by
    intro o' j hj
    by_cases ho : o' = o
    · subst ho
      rw [update_self] at hj
      refine ⟨?_, fun e => ?_⟩
      · rw [hfr]
        exact (List.mem_append.mp hj).elim (List.mem_append_left _)
          fun hj => List.mem_append_right _ (List.mem_cons_of_mem _ hj)
      · cases e
        grind
    · rw [update_of_ne ho] at hj
      exact ⟨hj, fun e => ho (congrArg Prod.snd e)⟩
  have hu : b'.usedMap = b.usedMap := by
    funext j
    rw [usedMap, usedMap, hmaps, hs.1]
  refine ⟨h.change hs (fun o' => ?_) (fun o' j hj => h.free o' j (hmem o' j hj).1)
    (fun x _ => ⟨by rw [orderMap, orderMap, hmaps], by rw [hu]⟩)
    (fun o1 o2 j1 j2 h1 h2 hne => h.freeApart o1 o2 j1 j2 (hmem o1 j1 h1).1 (hmem o2 j2 h2).1 hne)
    fun x hx o' j hj => h.liveFree x hx o' j (hmem o' j hj).1,
    ⟨hs.placed (h.free o i hi), fun o' j hj => ?_, fun y hy => (h.liveFree y hy o i hi).symm⟩⟩
  · rw [hs.indexToPtr, hl, hm]
    by_cases ho : o' = o
    · subst ho
      rw [update_self, update_self, List.map_append]
      exact isChain_splice hc
    · rw [update_of_ne ho, update_of_ne ho]
      refine (isChain_congr fun a ha => spliceNext_of_notMem _ _ _ fun hp => ?_).mpr (h.chain o')
      obtain ⟨j, hj, rfl⟩ := List.mem_map.mp ha
      obtain ⟨j', hj', e⟩ := List.mem_map.mp hp
      have hj'' : j' ∈ fr o := by
        rw [hfr]
        exact List.mem_append_left _ hj'
      have ej := indexToPtr_inj h.geometry (h.free o j' hj'').index (h.free o' j hj).index e
      have hne : (j, o') ≠ (j', o) := fun e => ho (congrArg Prod.snd e)
      exact (h.freeApart o' o j j' hj hj'' hne).ne ej.symm
  · obtain ⟨h1, h2⟩ := hmem o' j hj
    exact h.freeApart o o' i j hi h1 h2.symm

/-- `remove_from_free_list` takes the node it is given from the list. -/
lemma removeLoop_spec {o target n : Nat} {pre post : List Nat} {b' : Buddy}
    (hc : IsChain b.mem ((post.map b.indexToPtr).head?) (post.map b.indexToPtr))
    (hr : removeLoop target o n (pre.map b.indexToPtr).getLast? ((post.map b.indexToPtr).head?) b =
      some b') :
    ∃ pre' i post', pre ++ post = pre' ++ i :: post' ∧ b.indexToPtr i = target ∧
      b' = { b with
        freeLists := update b.freeLists o (spliceHead (b.freeLists o)
          (pre'.map b.indexToPtr).getLast? (b.mem (b.indexToPtr i)))
        mem := spliceNext b.mem (pre'.map b.indexToPtr).getLast? (b.mem (b.indexToPtr i))
        statFreeBlocks := (b.statFreeBlocks + (addrMod - 1)) % addrMod } := by
  induction n generalizing pre post with
  | zero => cases hr
  | succ n ih =>
    cases post with
    | nil => cases hr
    | cons i post =>
      rw [List.map_cons, List.head?_cons, removeLoop] at hr
      by_cases ht : b.indexToPtr i = target
      · rw [if_pos ht, Option.some.injEq] at hr
        exact ⟨pre, i, post, rfl, ht, hr.symm⟩
      · rw [if_neg ht] at hr
        have hn : b.mem (b.indexToPtr i) = (post.map b.indexToPtr).head? := isChain_head_eq hc.2
        have hp : some (b.indexToPtr i) = ((pre ++ [i]).map b.indexToPtr).getLast? := by simp
        rw [hn, hp] at hr
        have hc' := hc.2
        rw [hn] at hc'
        obtain ⟨pre', j, post', e, h1, h2⟩ := ih hc' hr
        exact ⟨pre', j, post', by rw [← e]; simp, h1, h2⟩

lemma Blocks.removeFromFreeList (h : Blocks b fr lv) {i o : Nat} (hi : i < b.numPages)
    (hr : b.removeFromFreeList i o = some b') :
    ∃ pre post, fr o = pre ++ i :: post ∧ SameGeometry b b' ∧
      Blocks b' (update fr o (pre ++ post)) lv ∧ InHand b' (update fr o (pre ++ post)) lv (i, o) ∧
      (∀ o', ∀ j ∈ update fr o (pre ++ post) o', j ∈ fr o') ∧ SameStats b b' ∧
      b'.maps = b.maps ∧ b'.statFreeBlocks = (b.statFreeBlocks + (addrMod - 1)) % addrMod := by
  have hhead := isChain_head_eq (h.chain o)
  have hc := h.chain o
  rw [Buddy.removeFromFreeList] at hr
  rw [hhead] at hc hr
  obtain ⟨pre, j, post, e, hj, rfl⟩ := @removeLoop_spec b o _ _ [] (fr o) b' hc hr
  rw [List.nil_append] at e
  have hjm : j ∈ fr o := by simp [e]
  have hij : j = i := indexToPtr_inj h.geometry (h.free o j hjm).index hi hj
  subst hij
  have hs : SameGeometry b { b with
      freeLists := update b.freeLists o (spliceHead (b.freeLists o)
        (pre.map b.indexToPtr).getLast? (b.mem (b.indexToPtr j)))
      mem := spliceNext b.mem (pre.map b.indexToPtr).getLast? (b.mem (b.indexToPtr j))
      statFreeBlocks := (b.statFreeBlocks + (addrMod - 1)) % addrMod } := ⟨rfl, rfl, rfl, rfl⟩
  obtain ⟨h1, h2⟩ := h.remove e hs rfl rfl rfl
  refine ⟨pre, post, e, hs, h1, h2, fun o' x hx => ?_, ⟨rfl, rfl⟩, rfl, rfl⟩
  by_cases ho : o' = o
  · subst ho
    rw [update_self] at hx
    rw [e]
    exact (List.mem_append.mp hx).elim (List.mem_append_left _)
      fun hx => List.mem_append_right _ (List.mem_cons_of_mem _ hx)
  · rwa [update_of_ne ho] at hx

lemma InHand.same (h : InHand b fr lv x) (hs : SameGeometry b b')
    (hf : ∀ o, ∀ i ∈ fr' o, i ∈ fr o) : InHand b' fr' lv x :=
  ⟨hs.placed h.placed, fun o i hi => h.free o i (hf o i hi), h.live⟩

/-- What `buddy_free` makes of a block in hand: the free lists cover it, too. -/
structure Freed (b : Buddy) (fr : Nat → List Nat) (lv : List (Nat × Nat)) (order : Nat)
    (b' : Buddy) (fr' : Nat → List Nat) : Prop where
  geometry : SameGeometry b b'
  blocks : Blocks b' fr' lv
  bytes : freeBytes fr' = freeBytes fr + 2 ^ order
  counted : Counted b fr → Counted b' fr'
  stats : SameStats b b'

lemma Blocks.freed (h : Blocks b fr lv) {i o : Nat} (hx : InHand b fr lv (i, o)) :
    Freed b fr lv o (b.addToFreeList i o) (update fr o (i :: fr o)) := by
  have ho := hx.placed.order_lt h.geometry
  exact ⟨⟨rfl, rfl, rfl, rfl⟩, h.push hx, freeBytes_push ho, fun hc => hc.push ho, rfl, rfl⟩

/-- The index of the block that a block and its buddy make. -/
def lowerBuddy (idx order : Nat) : Nat :=
  if buddyIndex idx order < idx then buddyIndex idx order else idx

lemma lowerBuddy_cases (idx order : Nat) :
    (lowerBuddy idx order = idx ∧ buddyIndex idx order = idx + blockPages order) ∨
    (lowerBuddy idx order = buddyIndex idx order ∧
      buddyIndex idx order + blockPages order = idx) := by
  have hpos := blockPages_pos order
  have hxor : buddyIndex idx order = idx + blockPages order ∨
      buddyIndex idx order + blockPages order = idx := xor_two_pow idx _
  unfold lowerBuddy
  split <;> omega

/-- A block in hand and its buddy, which is taken off its list, become one block in hand. -/
lemma Blocks.mergeStep {idx order : Nat} {b1 : Buddy} (h : Blocks b fr lv)
    (hx : InHand b fr lv (idx, order)) (hmax : order < b.maxOrder)
    (hi : buddyIndex idx order < b.numPages)
    (hr : b.removeFromFreeList (buddyIndex idx order) order = some b1) :
    ∃ pre post, fr order = pre ++ buddyIndex idx order :: post ∧
      Blocks (b1.setOrder (lowerBuddy idx order) (order + 1)) (update fr order (pre ++ post)) lv ∧
      InHand (b1.setOrder (lowerBuddy idx order) (order + 1)) (update fr order (pre ++ post)) lv
        (lowerBuddy idx order, order + 1) ∧
      SameGeometry b b1 ∧ SameStats b b1 ∧ b1.maps = b.maps ∧
      b1.statFreeBlocks = (b.statFreeBlocks + (addrMod - 1)) % addrMod := by
  obtain ⟨pre, post, hfr, hs, h1, hy, hsub, hstats, hmaps, hcount⟩ := h.removeFromFreeList hi hr
  have hx1 := hx.same hs hsub
  have hmin : buddyMinOrder ≤ order := hx.placed.minOrder
  have hpos := blockPages_pos (order + 1)
  have hap : ∀ z, Apart (idx, order) z → Apart (buddyIndex idx order, order) z →
      Apart (lowerBuddy idx order, order + 1) z := fun z => apart_merge hmin
  have hlive : ∀ y ∈ lv, lowerBuddy idx order ≠ y.1 := by
    intro y hy'
    rcases lowerBuddy_cases idx order with ⟨e, -⟩ | ⟨e, -⟩ <;> rw [e]
    · exact (hx1.live y hy').ne
    · exact (hy.live y hy').ne
  have hnum : lowerBuddy idx order + blockPages (order + 1) ≤ b1.numPages := by
    have e1 : idx + blockPages order ≤ b1.numPages := hx1.placed.fits
    have e2 : buddyIndex idx order + blockPages order ≤ b1.numPages := hy.placed.fits
    rw [blockPages_succ hmin]
    rcases lowerBuddy_cases idx order with ⟨e, e'⟩ | ⟨e, e'⟩ <;> omega
  refine ⟨pre, post, hfr, ?_, ?_, hs, hstats, hmaps, hcount⟩
  · exact h1.mark (by omega) hlive _ fun j hj _ => update_of_ne hj _ _
  · refine ⟨⟨?_, ?_, hnum⟩, fun o i hi => hap _ (hx1.free o i hi) (hy.free o i hi),
      fun y hy' => hap _ (hx1.live y hy') (hy.live y hy')⟩
    · dsimp only
      omega
    · change order + 1 ≤ b1.maxOrder
      rw [hs.2.2.2]
      omega

/-- Buddies in the region have an index below the number of pages. -/
lemma Geometry.buddy_index (hg : Geometry b) {i : Nat}
    (hi : i < (b.regionEnd - b.regionBase) / buddyPageSize) : i < b.numPages := by
  have he := hg.ends
  have : (b.regionEnd - b.regionBase) / buddyPageSize ≤ b.numPages :=
    Nat.div_le_of_le_mul (by rw [Nat.mul_comm]; omega)
  omega

/-- The merges of `buddy_free` end with one more free block. -/
lemma Blocks.merge {n idx order : Nat} (h : Blocks b fr lv) (hx : InHand b fr lv (idx, order)) :
    ∃ fr', Freed b fr lv order (mergeLoop n idx order b) fr' := by
  induction n generalizing b fr idx order with
  | zero => exact ⟨_, h.freed hx⟩
  | succ n ih =>
    have hstop : ∃ fr', Freed b fr lv order (b.addToFreeList idx order) fr' := ⟨_, h.freed hx⟩
    rw [mergeLoop]
    dsimp only
    split
    · rename_i hc
      obtain ⟨hmax, hbound, -, -⟩ := hc
      split
      · exact hstop
      · rename_i b1 hr
        obtain ⟨pre, post, hfr, h1, hhand, hs, hstats, -, hcount⟩ :=
          h.mergeStep hx hmax (h.geometry.buddy_index hbound) hr
        have ho : order < buddyMaxOrders := hx.placed.order_lt h.geometry
        have hbytes := freeBytes_remove ho hfr
        have hc1 : Counted b fr → Counted b1 _ := fun hc => hc.remove ho hfr hcount
        obtain ⟨fr2, hs2, h3, hbytes2, hc2, hstats2⟩ := ih h1 hhand
        refine ⟨fr2, ?_, h3, ?_, fun hc => hc2 (hc1 hc), ?_⟩
        · exact ⟨hs2.1.trans hs.1, hs2.2.1.trans hs.2.1, hs2.2.2.1.trans hs.2.2.1,
            hs2.2.2.2.trans hs.2.2.2⟩
        · rw [hbytes2, ← hbytes, pow_succ]
          omega
        · exact ⟨hstats2.1.trans hstats.1, hstats2.2.trans hstats.2⟩
    · exact hstop

end Blocks

section Claim

variable {b : Buddy} {fr : Nat → List Nat} {lv : List (Nat × Nat)}

/-- The first block of a free list is unlinked. -/
def popped (b : Buddy) (o block : Nat) : Buddy :=
  { b with
    freeLists := update b.freeLists o (b.mem block)
    statFreeBlocks := (b.statFreeBlocks + (addrMod - 1)) % addrMod }

lemma Blocks.pop {i o : Nat} {rest : List Nat} (h : Blocks b fr lv) (hfr : fr o = i :: rest) :
    Blocks (popped b o (b.indexToPtr i)) (update fr o rest) lv ∧
      InHand (popped b o (b.indexToPtr i)) (update fr o rest) lv (i, o) := by
  have hs : SameGeometry b (popped b o (b.indexToPtr i)) := ⟨rfl, rfl, rfl, rfl⟩
  have hfr' : fr o = [] ++ i :: rest := hfr
  exact h.remove hfr' hs rfl rfl rfl

/-- The end of `buddy_alloc`. -/
def handedOut (b : Buddy) (idx order : Nat) : Buddy :=
  let b := (b.setOrder idx order).setUsed idx 1
  { b with
    statUsed := (b.statUsed + 2 ^ order) % addrMod
    statAllocBlocks := (b.statAllocBlocks + 1) % addrMod }

lemma Blocks.claim {i o : Nat} (h : Blocks b fr lv) (hx : InHand b fr lv (i, o))
    (hbase : b.regionBase ≤ b.indexToPtr i) (hend : b.indexToPtr i + 2 ^ o ≤ b.regionEnd) :
    Blocks (handedOut b i o) fr ((i, o) :: lv) := by
  have hi := hx.placed.index
  have h1 : Blocks (handedOut b i o) fr lv := by
    have h0 := h.mark hi (fun y hy => (hx.live y hy).ne)
      (update (update b.maps i o) (b.numPages + i) 1) fun j h1 h2 => by
        rw [update_of_ne h2, update_of_ne h1]
    exact h0.transfer ⟨rfl, rfl, rfl, rfl⟩ rfl rfl rfl
  have hs : SameGeometry b (handedOut b i o) := ⟨rfl, rfl, rfl, rfl⟩
  refine ⟨h1.geometry, h1.chain, h1.free, ?_, ?_, ?_, h1.freeApart, ?_, ?_⟩
  · rw [List.forall_mem_cons]
    exact ⟨hs.placed hx.placed, h1.live⟩
  · rw [List.forall_mem_cons]
    exact ⟨⟨hbase, hend⟩, h1.inside⟩
  · rw [List.forall_mem_cons]
    refine ⟨⟨?_, ?_⟩, h1.marked⟩
    · change update (update b.maps i o) (b.numPages + i) 1 i = o
      have hne : i ≠ b.numPages + i := by
        dsimp only at hi
        omega
      rw [update_of_ne hne, update_self]
    · change update (update b.maps i o) (b.numPages + i) 1 (b.numPages + i) ≠ 0
      rw [update_self]
      exact one_ne_zero
  · rw [List.forall_mem_cons]
    exact ⟨hx.free, h1.liveFree⟩
  · rw [List.pairwise_cons]
    exact ⟨hx.live, h1.liveApart⟩

/-- The first writes of `buddy_free`. -/
def released (b : Buddy) (idx order : Nat) : Buddy :=
  let b := b.setUsed idx 0
  { b with
    statUsed := (b.statUsed + (addrMod - 2 ^ order)) % addrMod
    statAllocBlocks := (b.statAllocBlocks + (addrMod - 1)) % addrMod }

lemma Blocks.unmarked {i o : Nat}
    (h : Blocks { b with maps := update b.maps (b.numPages + i) 0 } fr lv) :
    Blocks (released b i o) fr lv :=
  h.transfer ⟨rfl, rfl, rfl, rfl⟩ rfl rfl rfl

lemma removeLoop_initialized {target o n : Nat} {prev cur : Option Nat} {b' : Buddy}
    (h : removeLoop target o n prev cur b = some b') : b'.initialized = b.initialized := by
  induction n generalizing prev cur with
  | zero => cases h
  | succ n ih =>
    cases cur with
    | none => cases h
    | some c =>
      rw [removeLoop] at h
      split at h
      · cases h
        rfl
      · exact ih h

lemma mergeLoop_initialized (n idx order : Nat) (b : Buddy) :
    (mergeLoop n idx order b).initialized = b.initialized := by
  induction n generalizing idx order b with
  | zero => rfl
  | succ n ih =>
    rw [mergeLoop]
    dsimp only
    split
    · split
      · rfl
      · rename_i b1 hr
        rw [ih]
        change b1.initialized = b.initialized
        exact removeLoop_initialized hr
    · rfl

end Claim

/-- `buddy_alloc(n)` finds no block, or one of exactly the order of `n` that lies in the
region. -/
def takesWhole (b : Buddy) (n : Nat) : Bool :=
  decide (n = 0) || match b.findOrder (b.sizeToOrder n) with
    | none => true
    | some o => decide (o = b.sizeToOrder n) && match b.freeLists o with
      | none => true
      | some block => decide (b.regionBase ≤ block) && decide (block + 2 ^ o ≤ b.regionEnd)

/-- The blocks that a state of the memory manager stands for. -/
structure Managed (σ : BuddySystem) (fr : Nat → List Nat) (lv : List (Nat × Nat)) : Prop where
  initialized : σ.b.initialized = true
  blocks : Blocks σ.b fr lv
  live : σ.live = lv.map fun x => (σ.b.indexToPtr x.1, x.2)

/-- The blocks behind a step, whose statistics agree with them if they did before. -/
structure Next (b : Buddy) (fr : Nat → List Nat) (lv : List (Nat × Nat)) (σ : BuddySystem)
    (fr' : Nat → List Nat) (lv' : List (Nat × Nat)) : Prop where
  managed : Managed σ fr' lv'
  accounts : Accounts b fr lv → Accounts σ.b fr' lv'

section Steps

variable {σ σ' : BuddySystem} {fr : Nat → List Nat} {lv : List (Nat × Nat)}

/-- A block moves from its free list to the live blocks. -/
lemma Accounts.claim {b : Buddy} {i o p : Nat} {rest : List Nat} (h : Accounts b fr lv)
    (hfr : fr o = i :: rest) (ho : o < buddyMaxOrders) :
    Accounts (handedOut (popped b o p) i o) (update fr o rest) ((i, o) :: lv) := by
  have hfr' : fr o = [] ++ i :: rest := hfr
  have hbytes := freeBytes_remove ho hfr'
  have hlive : liveBytes ((i, o) :: lv) = 2 ^ o + liveBytes lv := by
    rw [liveBytes, List.map_cons, List.sum_cons]
    rfl
  have hc : (handedOut (popped b o p) i o).statFreeBlocks =
      (b.statFreeBlocks + (addrMod - 1)) % addrMod := rfl
  have hcount : Counted (handedOut (popped b o p) i o) (update fr o ([] ++ rest)) :=
    h.count.remove ho hfr' hc
  rw [List.nil_append] at hcount hbytes
  refine ⟨hcount, ?_, ?_, h.bound⟩
  · have hu : (handedOut (popped b o p) i o).statUsed = (b.statUsed + 2 ^ o) % addrMod := rfl
    rw [hu, h.used, Nat.mod_add_mod, hlive, Nat.add_comm]
  · change _ = b.statTotal
    rw [← h.total, hlive]
    omega

lemma liveBytes_filter {x : Nat × Nat} (hx : x ∈ lv) (hn : lv.Nodup) :
    2 ^ x.2 + liveBytes (lv.filter fun y => decide (y ≠ x)) = liveBytes lv := by
  induction lv with
  | nil => cases hx
  | cons y lv ih =>
    obtain ⟨hy, hn⟩ := List.nodup_cons.mp hn
    by_cases hyx : y = x
    · subst hyx
      have he : lv.filter (fun z => decide (z ≠ y)) = lv := by
        apply List.filter_eq_self.mpr
        rintro z hz
        rw [decide_eq_true_eq]
        rintro rfl
        exact hy hz
      rw [List.filter_cons_of_neg (by simp), he, liveBytes, liveBytes, List.map_cons,
        List.sum_cons]
    · have hrest := ih ((List.mem_cons.mp hx).resolve_left fun e => hyx e.symm) hn
      rw [List.filter_cons_of_pos (by simpa using hyx), liveBytes, liveBytes, List.map_cons,
        List.map_cons, List.sum_cons, List.sum_cons]
      rw [liveBytes, liveBytes] at hrest
      omega

/-- A live block is released. -/
lemma Accounts.release {b b' : Buddy} {fr' : Nat → List Nat} {x : Nat × Nat}
    {lv' : List (Nat × Nat)} (h : Accounts b fr lv) (hx : x ∈ lv) (hn : lv.Nodup)
    (ho : x.2 < buddyMaxOrders)
    (hf : Freed (released b x.1 x.2) fr lv' x.2 b' fr') :
    Accounts b' fr' (lv.filter fun y => decide (y ≠ x)) := by
  have hlive := liveBytes_filter hx hn
  have hpow : 2 ^ x.2 ≤ addrMod := Nat.pow_le_pow_right (by decide) (by
    have : buddyMaxOrders = 20 := rfl
    omega)
  refine ⟨hf.counted h.count, ?_, ?_, ?_⟩
  · rw [hf.stats.1]
    change (b.statUsed + (addrMod - 2 ^ x.2)) % addrMod = _
    rw [h.used, Nat.mod_add_mod, ← hlive]
    have he : 2 ^ x.2 + liveBytes (lv.filter fun y => decide (y ≠ x)) + (addrMod - 2 ^ x.2) =
        liveBytes (lv.filter fun y => decide (y ≠ x)) + addrMod := by omega
    rw [he, Nat.add_mod_right]
  · rw [hf.stats.2, hf.bytes]
    change _ = b.statTotal
    rw [← h.total, ← hlive]
    omega
  · rw [hf.stats.2]
    exact h.bound

lemma isChain_some_head {next : Nat → Option Nat} {a : Nat} {f : Nat → Nat} {l : List Nat}
    (h : IsChain next (some a) (l.map f)) : ∃ i rest, l = i :: rest ∧ f i = a := by
  cases l with
  | nil => cases h
  | cons i rest =>
    rw [List.map_cons, isChain_cons, Option.some.injEq] at h
    exact ⟨i, rest, rfl, h.1.symm⟩

lemma managed_alloc {n : Nat} (h : Managed σ fr lv) (hok : takesWhole σ.b n = true)
    (hs : σ.step (.alloc n) = some σ') : ∃ fr' lv', Next σ.b fr lv σ' fr' lv' := by
  rw [BuddySystem.step, Option.some.injEq] at hs
  have hnone : σ.b.alloc n = (σ.b, none) → ∃ fr' lv', Next σ.b fr lv σ' fr' lv' := by
    intro e
    rw [e] at hs
    rw [← hs]
    exact ⟨fr, lv, ⟨h.initialized, h.blocks, h.live⟩, id⟩
  by_cases hn : n = 0
  · apply hnone
    rw [Buddy.alloc, if_pos (.inr hn)]
  have hi : ¬(σ.b.initialized = false ∨ n = 0) := by simp [h.initialized, hn]
  simp only [takesWhole, hn, decide_false, Bool.false_or] at hok
  cases hfind : σ.b.findOrder (σ.b.sizeToOrder n) with
  | none =>
    apply hnone
    simp only [Buddy.alloc, if_neg hi, hfind]
  | some o =>
    cases hfree : σ.b.freeLists o with
    | none =>
      apply hnone
      simp only [Buddy.alloc, if_neg hi, hfind, hfree]
    | some block =>
      simp only [hfind, hfree, Bool.and_eq_true, decide_eq_true_eq] at hok
      obtain ⟨ho, hbase, hend⟩ := hok
      have hc := h.blocks.chain o
      rw [hfree] at hc
      obtain ⟨i, rest, hfr, rfl⟩ := isChain_some_head hc
      obtain ⟨h1, hx⟩ := h.blocks.pop hfr
      have h2 := h1.claim hx hbase hend
      have hidx : (popped σ.b o (σ.b.indexToPtr i)).ptrToIndex (σ.b.indexToPtr i) = i :=
        ptrToIndex_indexToPtr h.blocks.geometry hx.placed.index
      have e : σ.b.alloc n = (handedOut (popped σ.b o (σ.b.indexToPtr i)) i o,
          some (σ.b.indexToPtr i)) := by
        unfold Buddy.alloc
        rw [if_neg hi]
        dsimp only
        rw [hfind]
        dsimp only
        rw [hfree]
        dsimp only
        rw [← ho, Nat.sub_self, splitLoop]
        change (handedOut _ ((popped σ.b o (σ.b.indexToPtr i)).ptrToIndex (σ.b.indexToPtr i)) o,
          some (σ.b.indexToPtr i)) = _
        rw [hidx]
        rfl
      rw [e] at hs
      rw [← hs]
      refine ⟨_, _, ⟨h.initialized, h2, ?_⟩, fun ha => ha.claim hfr ?_⟩
      · change (σ.b.indexToPtr i, σ.b.sizeToOrder n) :: σ.live =
          (σ.b.indexToPtr i, o) :: lv.map fun x => (σ.b.indexToPtr x.1, x.2)
        rw [h.live, ho]
      · exact hx.placed.order_lt h1.geometry

/-- Live blocks have different addresses. -/
lemma managed_ptr {x y : Nat × Nat} (h : Managed σ fr lv) (hx : x ∈ lv) (hy : y ∈ lv)
    (e : σ.b.indexToPtr x.1 = σ.b.indexToPtr y.1) : x = y := by
  by_contra hne
  have hap := h.blocks.liveApart.forall hx hy hne
  exact hap.ne (indexToPtr_inj h.blocks.geometry (h.blocks.live x hx).index
    (h.blocks.live y hy).index e)

lemma Blocks.live_nodup {b : Buddy} (h : Blocks b fr lv) : lv.Nodup := by
  apply h.liveApart.imp
  rintro x y hap rfl
  exact hap.ne rfl

lemma managed_free {ptr : Nat} (h : Managed σ fr lv) (hs : σ.step (.free ptr) = some σ') :
    ∃ fr' lv', Next σ.b fr lv σ' fr' lv' := by
  rw [BuddySystem.step] at hs
  split at hs
  · rename_i hm
    rw [Option.some.injEq] at hs
    rw [h.live, List.map_map] at hm
    obtain ⟨x, hx, rfl⟩ := List.mem_map.mp hm
    simp only [comp_apply] at hs
    obtain ⟨hbase, hend⟩ := h.blocks.inside x hx
    obtain ⟨hord, hused⟩ := h.blocks.marked x hx
    have hpl := h.blocks.live x hx
    have hg := h.blocks.geometry
    have hidx := ptrToIndex_indexToPtr hg hpl.index
    have hpos := Nat.two_pow_pos x.2
    have hne : x.2 ≠ 255 := by
      have := hpl.maxOrder
      have := hg.maxOrder
      have : buddyMaxOrders = 20 := rfl
      omega
    -- The other live blocks stay, and this one is in hand.
    have h1 : Blocks σ.b fr (lv.filter fun y => decide (y ≠ x)) :=
      h.blocks.subset List.filter_sublist
    have hother : ∀ y ∈ lv.filter fun y => decide (y ≠ x), Apart x y := by
      intro y hy
      obtain ⟨hy, hyx⟩ := List.mem_filter.mp hy
      have hyx : y ≠ x := by simpa using hyx
      exact h.blocks.liveApart.forall hx hy hyx.symm
    have h2 := h1.mark hpl.index (fun y hy => (hother y hy).ne)
      (update σ.b.maps (σ.b.numPages + x.1) 0) fun j _ hj => update_of_ne hj _ _
    have hhand : InHand (released σ.b x.1 x.2) fr (lv.filter fun y => decide (y ≠ x)) x :=
      ⟨⟨hpl.minOrder, hpl.maxOrder, hpl.fits⟩, h.blocks.liveFree x hx, hother⟩
    have h3 : Blocks (released σ.b x.1 x.2) fr (lv.filter fun y => decide (y ≠ x)) := h2.unmarked
    obtain ⟨fr', hfreed⟩ := h3.merge (n := buddyMaxOrders) hhand
    have hsame := hfreed.geometry
    have e : σ.b.free (σ.b.indexToPtr x.1) =
        mergeLoop buddyMaxOrders x.1 x.2 (released σ.b x.1 x.2) := by
      rw [Buddy.free, if_neg (by simp [h.initialized]; omega)]
      simp only [hidx, hord]
      rw [if_neg (by simp [hne, hused])]
      rfl
    rw [e] at hs
    rw [← hs]
    refine ⟨fr', lv.filter fun y => decide (y ≠ x), ⟨?_, hfreed.blocks, ?_⟩, fun ha =>
      ha.release hx h.blocks.live_nodup (hpl.order_lt hg) hfreed⟩
    · rw [mergeLoop_initialized]
      exact h.initialized
    · have hf : lv.filter ((fun l : Nat × Nat => decide (l.1 ≠ σ.b.indexToPtr x.1)) ∘
          fun y => (σ.b.indexToPtr y.1, y.2)) = lv.filter fun y => decide (y ≠ x) := by
        apply List.filter_congr
        intro y hy
        simp only [comp_apply, decide_eq_decide]
        exact not_congr ⟨fun e => managed_ptr h hy hx e, fun e => by rw [e]⟩
      dsimp only
      rw [hsame.indexToPtr, h.live, List.filter_map, hf]
      rfl
  · cases hs

/-- Programs write to their own blocks only, where no free list passes. -/
lemma managed_store {a : Nat} {v : Option Nat} (h : Managed σ fr lv)
    (hs : σ.step (.store a v) = some σ') : ∃ fr' lv', Next σ.b fr lv σ' fr' lv' := by
  rw [BuddySystem.step] at hs
  split at hs
  · rename_i hm
    rw [Option.some.injEq] at hs
    rw [← hs]
    obtain ⟨l, hl, hc⟩ := hm
    rw [h.live] at hl
    obtain ⟨x, hx, rfl⟩ := List.mem_map.mp hl
    refine ⟨fr, lv, ⟨h.initialized, ?_, h.live⟩, fun ha => ⟨ha.count, ha.used, ha.total, ha.bound⟩⟩
    have hnot : ∀ o, a ∉ (fr o).map σ.b.indexToPtr := by
      intro o hm
      obtain ⟨i, hi, rfl⟩ := List.mem_map.mp hm
      apply covers_apart h.blocks.geometry (h.blocks.live x hx) (h.blocks.free o i hi)
        (h.blocks.liveFree x hx o i hi) _ ⟨hc, 0, Nat.two_pow_pos o, ?_⟩
      rw [Nat.add_zero, Buddy.indexToPtr, Nat.mod_mod]
    exact h.blocks.change ⟨rfl, rfl, rfl, rfl⟩
      (fun o => (isChain_update_of_notMem (hnot o) _).mpr (h.blocks.chain o)) h.blocks.free
      (fun _ _ => ⟨rfl, rfl⟩) h.blocks.freeApart h.blocks.liveFree
  · cases hs

end Steps

section Init

lemma orderLoop_spec {size maxOrder n order : Nat} (h : order ≤ maxOrder) :
    order ≤ orderLoop size maxOrder n order ∧ orderLoop size maxOrder n order ≤ maxOrder ∧
      (orderLoop size maxOrder n order = order ∨
        2 ^ (orderLoop size maxOrder n order - 1) < size) := by
  induction n generalizing order with
  | zero => exact ⟨le_rfl, h, .inl rfl⟩
  | succ n ih =>
    rw [orderLoop]
    split
    · rename_i hc
      obtain ⟨hlow, hhigh, hlast⟩ := @ih (order + 1) hc.2
      refine ⟨by omega, hhigh, .inr ?_⟩
      rcases hlast with hlast | hlast
      · rw [hlast, Nat.add_sub_cancel]
        exact hc.1
      · exact hlast
    · exact ⟨le_rfl, h, .inl rfl⟩

/-- The block that `buddy_init` carves next fits in the rest of the heap. -/
lemma fittingOrder_spec {b : Buddy} {remaining : Nat} (hmax : buddyMinOrder ≤ b.maxOrder)
    (hr : buddyPageSize ≤ remaining) : buddyMinOrder ≤ b.fittingOrder remaining ∧
      b.fittingOrder remaining ≤ b.maxOrder ∧ 2 ^ b.fittingOrder remaining ≤ remaining := by
  have hpage : buddyPageSize = 2 ^ buddyMinOrder := rfl
  have hne : remaining ≠ 0 := by
    have := Nat.two_pow_pos buddyMinOrder
    omega
  obtain ⟨hlow, hhigh, hlast⟩ :=
    @orderLoop_spec remaining b.maxOrder buddyMaxOrders buddyMinOrder hmax
  have he : b.sizeToOrder remaining =
      orderLoop remaining b.maxOrder buddyMaxOrders buddyMinOrder := by
    rw [sizeToOrder, if_neg hne]
  rw [fittingOrder, he]
  generalize orderLoop remaining b.maxOrder buddyMaxOrders buddyMinOrder = order at *
  rw [if_neg (not_lt.mpr hhigh)]
  split
  · rename_i hlt
    have hne : order ≠ buddyMinOrder := by
      intro e
      rw [e] at hlt
      omega
    refine ⟨by omega, by omega, ?_⟩
    rcases hlast with e | hlast
    · exact absurd e hne
    · exact hlast.le
  · exact ⟨hlow, hhigh, by omega⟩

/-- Every turn of the loop puts a block behind the ones it has made, and the last block ends
with the heap. -/
lemma carveLoop_blocks {alignedStart M n k : Nat} {b : Buddy} {fr : Nat → List Nat}
    (h : Blocks b fr []) (hbase : b.regionBase = alignedStart + M * buddyPageSize)
    (hend : b.regionEnd = alignedStart + b.numPages * buddyPageSize)
    (hfr : ∀ o, ∀ i ∈ fr o, i + blockPages o ≤ M + k) (hk : M + k ≤ b.numPages)
    (hn : b.numPages ≤ M + k + n) :
    ∃ fr', Blocks (carveLoop alignedStart n (k * buddyPageSize) b) fr' [] ∧
      freeBytes fr' + (M + k) * buddyPageSize = freeBytes fr + b.numPages * buddyPageSize ∧
      (Counted b fr → Counted (carveLoop alignedStart n (k * buddyPageSize) b) fr') ∧
      ∀ o, ∀ i ∈ fr' o, i ∈ fr o ∨ M + k ≤ i := by
  induction n generalizing b fr k with
  | zero =>
    refine ⟨fr, h, ?_, id, fun _ _ => .inl⟩
    rw [show b.numPages = M + k by omega]
  | succ n ih =>
    rw [carveLoop]
    dsimp only
    split
    · rename_i hlt
      have hmin := h.geometry.minOrder
      rw [hend, hbase] at hlt ⊢
      have hpages : buddyPageSize = 4096 := rfl
      have hrem : alignedStart + b.numPages * buddyPageSize -
          (alignedStart + M * buddyPageSize) - k * buddyPageSize =
            (b.numPages - (M + k)) * buddyPageSize := by
        rw [Nat.sub_mul, Nat.add_mul]
        omega
      have hk' : M + k < b.numPages := by
        rw [hpages] at hlt
        omega
      rw [hrem]
      have hle : buddyPageSize ≤ (b.numPages - (M + k)) * buddyPageSize :=
        Nat.le_mul_of_pos_left _ (by omega)
      obtain ⟨hlow, hhigh, hfits⟩ := fittingOrder_spec hmin hle
      generalize b.fittingOrder ((b.numPages - (M + k)) * buddyPageSize) = order at *
      have hidx : (alignedStart + M * buddyPageSize + k * buddyPageSize - alignedStart) /
          buddyPageSize = M + k := by
        have e : alignedStart + M * buddyPageSize + k * buddyPageSize - alignedStart =
            (M + k) * buddyPageSize := by
          rw [Nat.add_mul]
          omega
        rw [e, Nat.mul_div_cancel _ (by decide)]
      have hnext : k * buddyPageSize + 2 ^ order = (k + blockPages order) * buddyPageSize := by
        rw [Nat.add_mul, blockPages_bytes hlow]
      rw [hidx, hnext]
      have hroom : blockPages order ≤ b.numPages - (M + k) := by
        rw [← blockPages_bytes hlow] at hfits
        exact Nat.le_of_mul_le_mul_right hfits (by decide)
      have h1 : Blocks ((b.setOrder (M + k) order).setUsed (M + k) 0) fr [] := by
        apply h.mark hk' (fun _ h => absurd h List.not_mem_nil)
        intro j hj hj'
        exact (update_of_ne hj' _ _).trans (update_of_ne hj _ _)
      have hx : InHand ((b.setOrder (M + k) order).setUsed (M + k) 0) fr [] (M + k, order) := by
        refine ⟨⟨hlow, hhigh, ?_⟩, fun o i hi => .inr (hfr o i hi),
          fun _ h => absurd h List.not_mem_nil⟩
        change M + k + blockPages order ≤ b.numPages
        omega
      have hpos := blockPages_pos order
      have hle' : ∀ o, ∀ i ∈ update fr order ((M + k) :: fr order) o,
          i + blockPages o ≤ M + (k + blockPages order) := by
        intro o i hi
        by_cases ho : o = order
        · subst ho
          rw [update_self, List.mem_cons] at hi
          rcases hi with rfl | hi
          · omega
          · have := hfr o i hi
            omega
        · rw [update_of_ne ho] at hi
          have := hfr o i hi
          omega
      have ho : order < buddyMaxOrders := hx.placed.order_lt h1.geometry
      have hk2 : M + (k + blockPages order) ≤ b.numPages := by omega
      have hn2 : b.numPages ≤ M + (k + blockPages order) + n := by omega
      obtain ⟨fr', h2, hbytes, hcount, hnew⟩ := ih (h1.push hx) hbase hend hle' hk2 hn2
      refine ⟨fr', h2, ?_, fun hc => hcount (Counted.push (b := (b.setOrder (M + k) order).setUsed
        (M + k) 0) hc ho), fun o i hi => ?_⟩
      · rw [freeBytes_push ho, ← blockPages_bytes hlow, ← Nat.add_assoc M, Nat.add_mul (M + k)]
          at hbytes
        have hnum : (((b.setOrder (M + k) order).setUsed (M + k) 0).addToFreeList (M + k)
            order).numPages = b.numPages := rfl
        rw [hnum] at hbytes
        linarith only [hbytes]
      · rcases hnew o i hi with hold | hlate
        · by_cases hoo : o = order
          · subst hoo
            rw [update_self, List.mem_cons] at hold
            rcases hold with rfl | hold
            · exact .inr le_rfl
            · exact .inl hold
          · rw [update_of_ne hoo] at hold
            exact .inl hold
        · right
          omega
    · rename_i hge
      refine ⟨fr, h, ?_, id, fun _ _ => .inl⟩
      rw [hend, hbase] at hge
      have hpages : buddyPageSize = 4096 := rfl
      have : M + k = b.numPages := by
        rw [hpages] at hge
        omega
      rw [this]

lemma blocks_nil {b : Buddy} (hg : Geometry b) (hfree : ∀ o, b.freeLists o = none) :
    Blocks b (fun _ => []) [] := by
  constructor
  · exact hg
  · intro o
    rw [hfree]
    rfl
  all_goals simp

lemma alignDown_mul (a : Nat) : buddyPageSize ∣ alignDownPtr a := Nat.dvd_mul_left _ _

lemma alignUp_mul (a : Nat) : buddyPageSize ∣ alignUpPtr a := Nat.dvd_mul_left _ _

/-- The heap before `buddy_init` carves it: `M` pages of metadata, and no free block. -/
structure Uncarved (b : Buddy) (alignedStart M : Nat) : Prop where
  geometry : Geometry b
  empty : ∀ o, b.freeLists o = none
  base : b.regionBase = alignedStart + M * buddyPageSize
  ends : b.regionEnd = alignedStart + b.numPages * buddyPageSize
  metadata : 0 < M
  room : M < b.numPages

/-- The size of the heap between page boundaries. -/
def alignedSize (start total : Nat) : Nat :=
  alignDownPtr ((start + total) % addrMod) - alignUpPtr start

/-- The pages that the two maps take. -/
def metadataPages (start total : Nat) : Nat :=
  (alignedSize start total / buddyPageSize * 2 + (buddyPageSize - 1)) / buddyPageSize

/-- The arguments with which `buddy_init` does not return early. -/
structure Region (start total : Nat) : Prop where
  args : ¬(start = 0 ∨ total < buddyPageSize * 2)
  ends : ¬alignDownPtr ((start + total) % addrMod) ≤ alignUpPtr start
  room : ¬alignedSize start total / 2 ≤ metadataPages start total * buddyPageSize

/-- The state in which `buddy_init` enters its last loop. -/
def laidOut (b : Buddy) (start total : Nat) : Buddy :=
  let numPages := alignedSize start total / buddyPageSize
  { b with
    maxOrder := orderLoop (alignedSize start total) (buddyMaxOrders - 1) buddyMaxOrders
      buddyMinOrder
    numPages := numPages
    maps := fun i => if i < numPages then 255 else if i < numPages * 2 then 0 else b.maps i
    regionBase := alignUpPtr start + metadataPages start total * buddyPageSize
    regionEnd := alignDownPtr ((start + total) % addrMod)
    freeLists := fun _ => none }

lemma init_eq_carveLoop {b : Buddy} {start total : Nat} (h : Region start total) :
    b.init start total =
      { carveLoop (alignUpPtr start) (laidOut b start total).numPages 0 (laidOut b start total) with
        statTotal := (laidOut b start total).regionEnd - (laidOut b start total).regionBase
        statUsed := 0
        statAllocBlocks := 0
        initialized := true } := by
  rw [Buddy.init, if_neg h.args]
  dsimp only
  rw [if_neg h.ends]
  exact if_neg h.room

/-- A `buddy_init` that completes has found a region. -/
lemma region_of_init {b : Buddy} {start total : Nat} (hoff : b.initialized = false)
    (hon : (b.init start total).initialized = true) : Region start total := by
  rw [Buddy.init] at hon
  split at hon
  · rw [hoff] at hon
    cases hon
  rename_i hargs
  dsimp only at hon
  split at hon
  · rw [hoff] at hon
    cases hon
  rename_i hends
  split at hon
  · rw [hoff] at hon
    cases hon
  rename_i hroom
  exact ⟨hargs, hends, hroom⟩

lemma laidOut_uncarved {start total : Nat} (h : Region start total) (b : Buddy) :
    Uncarved (laidOut b start total) (alignUpPtr start) (metadataPages start total) := by
  obtain ⟨-, hends, hroom⟩ := h
  have hlt : (start + total) % addrMod < addrMod := Nat.mod_lt _ (Nat.two_pow_pos 64)
  have hdown : alignDownPtr ((start + total) % addrMod) ≤ (start + total) % addrMod :=
    Nat.div_mul_le_self _ _
  obtain ⟨s, hs⟩ := alignUp_mul start
  obtain ⟨e, he⟩ := alignDown_mul ((start + total) % addrMod)
  rw [laidOut]
  rw [metadataPages, alignedSize] at *
  generalize alignUpPtr start = alignedStart at *
  generalize alignDownPtr ((start + total) % addrMod) = alignedEnd at *
  have hpages : (alignedEnd - alignedStart) / buddyPageSize * buddyPageSize =
      alignedEnd - alignedStart := by
    rw [hs, he, ← Nat.mul_sub]
    exact Nat.div_mul_cancel (Nat.dvd_mul_right _ _)
  generalize (alignedEnd - alignedStart) / buddyPageSize = numPages at *
  generalize hM : (numPages * 2 + (buddyPageSize - 1)) / buddyPageSize = M at *
  obtain ⟨hlow, hhigh, -⟩ := @orderLoop_spec (alignedEnd - alignedStart) (buddyMaxOrders - 1)
    buddyMaxOrders buddyMinOrder (by decide)
  generalize orderLoop (alignedEnd - alignedStart) (buddyMaxOrders - 1) buddyMaxOrders
    buddyMinOrder = maxOrder at *
  have hpage : buddyPageSize = 4096 := rfl
  have horders : buddyMaxOrders = 20 := rfl
  rw [hpage] at hpages hM hroom
  refine ⟨⟨?_, ?_, ?_, ?_, hlow, ?_⟩, fun _ => rfl, rfl, ?_, ?_, ?_⟩
  all_goals
    try dsimp only
    try rw [hpage]
    omega

/-- What a `buddy_init` that completes does. -/
lemma init_uncarved {b : Buddy} {start total : Nat} (hoff : b.initialized = false)
    (hon : (b.init start total).initialized = true) :
    ∃ b0 alignedStart M, Uncarved b0 alignedStart M ∧ b0.statFreeBlocks = b.statFreeBlocks ∧
      b.init start total = { carveLoop alignedStart b0.numPages 0 b0 with
        statTotal := b0.regionEnd - b0.regionBase
        statUsed := 0
        statAllocBlocks := 0
        initialized := true } :=
  have h := region_of_init hoff hon
  ⟨laidOut b start total, alignUpPtr start, metadataPages start total, laidOut_uncarved h b, rfl,
    init_eq_carveLoop h⟩

/-- The free lists behind `buddy_init`. No block of them is at the start of the region. -/
lemma Uncarved.carved {b : Buddy} {alignedStart M : Nat} (h : Uncarved b alignedStart M) :
    ∃ fr, Blocks (carveLoop alignedStart b.numPages 0 b) fr [] ∧
      freeBytes fr = b.regionEnd - b.regionBase ∧
      (b.statFreeBlocks = 0 → Counted (carveLoop alignedStart b.numPages 0 b) fr) ∧
      ∀ o, ∀ i ∈ fr o, M ≤ i := by
  have hroom := h.room
  obtain ⟨fr, h1, hbytes, hcount, hnew⟩ := @carveLoop_blocks alignedStart M b.numPages 0 b _
    (blocks_nil h.geometry h.empty) h.base h.ends (fun _ _ h => absurd h List.not_mem_nil)
    (by omega) (by omega)
  rw [Nat.zero_mul] at h1 hcount
  refine ⟨fr, h1, ?_, hcount, fun o i hi => (hnew o i hi).resolve_left List.not_mem_nil⟩
  have h0 : freeBytes (fun _ => []) = 0 := by simp [freeBytes]
  rw [h0, Nat.add_zero] at hbytes
  rw [h.base, h.ends]
  omega

lemma managed_init {σ : BuddySystem} {b : Buddy} {start total : Nat}
    (hoff : b.initialized = false) (hb : σ.b = b.init start total)
    (hon : σ.b.initialized = true) (hlive : σ.live = []) :
    ∃ fr, Managed σ fr [] ∧ (b.statFreeBlocks = 0 → Accounts σ.b fr []) := by
  rw [hb] at hon
  obtain ⟨b0, alignedStart, M, huncarved, hstat, hinit⟩ := init_uncarved hoff hon
  obtain ⟨fr, h1, hbytes, hcount, -⟩ := huncarved.carved
  rw [hinit] at hb
  refine ⟨fr, ⟨?_, ?_, ?_⟩, fun hfree => ⟨?_, ?_, ?_, ?_⟩⟩
  · rw [hb]
  · rw [hb]
    exact h1.transfer ⟨rfl, rfl, rfl, rfl⟩ rfl rfl rfl
  · rw [hlive]
    rfl
  · rw [hb]
    apply hcount
    rw [hstat, hfree]
  · rw [hb]
    rfl
  · rw [hb]
    change freeBytes fr + 0 = b0.regionEnd - b0.regionBase
    rw [Nat.add_zero, hbytes]
  · rw [hb]
    have := huncarved.geometry.endsIn
    change b0.regionEnd - b0.regionBase < addrMod
    omega

lemma managed_start {σ : BuddySystem} (h : σ.Start) : ∃ fr, Managed σ fr [] := by
  obtain ⟨b, start, total, hoff, -, -, hb, hon, hlive⟩ := h
  obtain ⟨fr, hm, -⟩ := managed_init hoff hb hon hlive
  exact ⟨fr, hm⟩

end Init

/-- Every allocation of a run takes a whole block of the region. -/
def takesWholeBlocks (σ : BuddySystem) : BuddyEvent → Bool
  | .alloc n => takesWhole σ.b n
  | _ => true

section Runs

variable {σ : BuddySystem} {fr : Nat → List Nat} {lv : List (Nat × Nat)}

lemma managed_step {σ' : BuddySystem} {e : BuddyEvent} (h : Managed σ fr lv)
    (hok : takesWholeBlocks σ e = true) (hs : σ.step e = some σ') :
    ∃ fr' lv', Next σ.b fr lv σ' fr' lv' := by
  cases e with
  | alloc n => exact managed_alloc h hok hs
  | free ptr => exact managed_free h hs
  | store a v => exact managed_store h hs

lemma managed_reach
    (h : Transition.Reach BuddySystem.Start BuddySystem.step (fun σ e => takesWholeBlocks σ e) σ) :
    ∃ fr lv, Managed σ fr lv := by
  apply h.invariant
  · intro s hs
    obtain ⟨fr, h⟩ := managed_start hs
    exact ⟨fr, [], h⟩
  · rintro s e s' ⟨fr, lv, h⟩ hok hs
    obtain ⟨fr', lv', h', -⟩ := managed_step h hok hs
    exact ⟨fr', lv', h'⟩

/-- The free lists hold nothing but the free blocks. -/
lemma Blocks.onFreeList {b : Buddy} {o p : Nat} (h : Blocks b fr lv) (hp : OnFreeList b o p) :
    ∃ i ∈ fr o, b.indexToPtr i = p := by
  apply List.mem_map.mp
  have hc := h.chain o
  induction hp with
  | head h =>
    rw [h] at hc
    obtain ⟨i, rest, e, rfl⟩ := isChain_some_head hc
    simp [e]
  | link _ hn ih => exact isChain_next_mem hc ih hn

end Runs

/-- As long as every allocation takes a whole block of the region, the live blocks lie in the
region, and overlap neither each other nor a block of a free list. -/
theorem buddy_blocks_disjoint {σ : BuddySystem}
    (h : Transition.Reach BuddySystem.Start BuddySystem.step (fun σ e => takesWholeBlocks σ e) σ) :
    σ.DisjointBlocks := by
  obtain ⟨fr, lv, hm⟩ := managed_reach h
  have hb := hm.blocks
  constructor
  · intro l hl
    rw [hm.live] at hl
    obtain ⟨x, hx, rfl⟩ := List.mem_map.mp hl
    exact hb.inside x hx
  · rw [hm.live, List.pairwise_map]
    apply hb.liveApart.imp_of_mem
    intro x y hx hy hap a
    exact covers_apart hb.geometry (hb.live x hx) (hb.live y hy) hap a
  · intro l hl o p hp
    rw [hm.live] at hl
    obtain ⟨x, hx, rfl⟩ := List.mem_map.mp hl
    obtain ⟨i, hi, rfl⟩ := hb.onFreeList hp
    intro a
    have hap := hb.liveFree x hx o i hi
    exact covers_apart hb.geometry (hb.live x hx) (hb.free o i hi) hap a

/-- The static variables before the first call. -/
def buddySample : Buddy where
  mem := fun _ => none
  maps := fun _ => 0
  numPages := 0
  freeLists := fun _ => none
  regionBase := 0
  regionEnd := 0
  maxOrder := 0
  initialized := false
  statTotal := 0
  statUsed := 0
  statAllocBlocks := 0
  statFreeBlocks := 0

/-- The heap after `buddy_init(4096, 8 * 4096)`: the first page holds the maps. -/
def buddyStart : BuddySystem := ⟨buddySample.init 4096 (8 * 4096), []⟩

lemma buddyStart_start : buddyStart.Start :=
  ⟨buddySample, 4096, 8 * 4096, rfl, by decide, by decide, rfl, by decide +kernel, rfl⟩

/-- Two blocks are handed out, and one of them is released. -/
def buddyRun : List BuddyEvent := [.alloc 5000, .alloc 10000, .free 28672]

theorem buddy_blocks_disjoint_sample :
    (Transition.final BuddySystem.step takesWholeBlocks buddyStart buddyRun).DisjointBlocks ∧
      (Transition.final BuddySystem.step takesWholeBlocks buddyStart buddyRun).live =
        [(12288, 14)] := by
  constructor
  · apply buddy_blocks_disjoint
    exact Transition.Reach.final buddyRun buddyStart_start (by decide +kernel)
  · decide +kernel

lemma buddyStart_reach (es : List BuddyEvent)
    (hr : (Transition.runIf BuddySystem.step (fun _ _ => true) buddyStart es).isSome) :
    Transition.Reach BuddySystem.Start BuddySystem.step (fun _ _ => True)
      (Transition.final BuddySystem.step (fun _ _ => true) buddyStart es) :=
  (Transition.Reach.final es buddyStart_start hr).mono fun _ _ _ => trivial

/-- The last page that `buddy_init` puts on a free list is outside of the region; and a split
puts a live block on a free list. -/
theorem buddy_blocks_overlap :
    (∃ σ, Transition.Reach BuddySystem.Start BuddySystem.step (fun _ _ => True) σ ∧
      ¬σ.DisjointBlocks ∧ ∃ l ∈ σ.live, σ.b.regionEnd ≤ l.1) ∧
    ∃ σ, Transition.Reach BuddySystem.Start BuddySystem.step (fun _ _ => True) σ ∧
      ¬σ.DisjointBlocks ∧ ∃ l ∈ σ.live, OnFreeList σ.b l.2 l.1 := by
  constructor
  · have hr := buddyStart_reach [.alloc 1] (by decide +kernel)
    generalize hσ : Transition.final _ _ _ _ = σ at hr
    have hl : (36864, 12) ∈ σ.live ∧ σ.b.regionEnd = 36864 := by
      rw [← hσ]
      decide +kernel
    refine ⟨σ, hr, fun h => ?_, _, hl.1, hl.2.le⟩
    have := (h.inside _ hl.1).2
    have : 0 < 2 ^ 12 := Nat.two_pow_pos 12
    dsimp only at *
    omega
  · have hr := buddyStart_reach [.alloc 5000, .alloc 5000] (by decide +kernel)
    generalize hσ : Transition.final _ _ _ _ = σ at hr
    have hl : (28672, 13) ∈ σ.live ∧ σ.b.freeLists 13 = some 28672 := by
      rw [← hσ]
      decide +kernel
    refine ⟨σ, hr, fun h => ?_, _, hl.1, .head hl.2⟩
    have hc : BlockCovers 28672 13 28672 := ⟨0, by decide, by decide⟩
    exact h.free _ hl.1 13 28672 (.head hl.2) 28672 ⟨hc, hc⟩

end TP2Kernel.Proofs
