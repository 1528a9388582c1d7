import TP2Kernel.Proofs.BuddyLayout

/-!
# Releasing a block merges all it can

In a state whose aligned blocks partition the region, `buddy_free` takes the block in hand,
and each turn of its loop joins it with its buddy as long as the buddy is free. The loop stops
at a block whose buddy is not free, since the maps are right at the head of every block.
-/

namespace TP2Kernel.Proofs
open Function LinkedList Buddy

/-- The pages of the region, the bound in `buddy_free`. -/
def regionPages (b : Buddy) : Nat := (b.regionEnd - b.regionBase) / buddyPageSize

/-- A block that is live, free or in hand. -/
def IsBlock (fr : Nat → List Nat) (lv hand : List (Nat × Nat)) (x : Nat × Nat) : Prop :=
  x ∈ lv ∨ x.1 ∈ fr x.2 ∨ x ∈ hand

/-- Blocks that are aligned and cover the first `P` pages. -/
structure AlignedCover (P : Nat) (S : Nat × Nat → Prop) : Prop where
  aligned : ∀ x, S x → blockPages x.2 ∣ x.1
  inside : ∀ x, S x → x.1 + blockPages x.2 ≤ P
  covers : ∀ j < P, ∃ x, S x ∧ x.1 ≤ j ∧ j < x.1 + blockPages x.2

/-- The blocks are aligned and cover the region, no block is twice on a free list, and the maps
are right at the heads. The entries of `order_map` for other pages are arbitrary. -/
structure Tidy (b : Buddy) (fr : Nat → List Nat) (lv hand : List (Nat × Nat)) : Prop where
  cover : AlignedCover (regionPages b) (IsBlock fr lv hand)
  once : ∀ o, (fr o).Nodup
  heads : ∀ x, IsBlock fr lv hand x → b.orderMap x.1 = x.2
  used : ∀ j < regionPages b, b.usedMap j ≠ 0 ↔ ∃ o, (j, o) ∈ lv

/-- A state of the buddy system in which the blocks `lv` are used and the blocks `fr` are on the
free lists. -/
structure WellFormed (b : Buddy) (fr : Nat → List Nat) (lv : List (Nat × Nat)) : Prop where
  initialized : b.initialized = true
  base : 0 < b.regionBase
  blocks : Blocks b fr lv
  tidy : Tidy b fr lv []

/-- No two buddies of an order below the largest are both free. -/
def NoFreeBuddies (b : Buddy) (fr : Nat → List Nat) : Prop :=
  ∀ o < b.maxOrder, ∀ i ∈ fr o, buddyIndex i o ∉ fr o

section Indices

variable {i o : Nat}

lemma buddyIndex_involutive (i o : Nat) : buddyIndex (buddyIndex i o) o = i := by
  rw [buddyIndex, buddyIndex, Nat.xor_assoc, Nat.xor_self, Nat.xor_zero]

lemma buddyIndex_ne (i o : Nat) : buddyIndex i o ≠ i := by
  have hpos := blockPages_pos o
  rcases lowerBuddy_cases i o with ⟨-, h⟩ | ⟨-, h⟩ <;> omega

/-- The lower one of two buddies is aligned for the next order. -/
lemma lowerBuddy_aligned (ho : buddyMinOrder ≤ o) (h : blockPages o ∣ i) :
    blockPages (o + 1) ∣ lowerBuddy i o := by
  obtain ⟨q, rfl⟩ := h
  have hpos := blockPages_pos o
  have hdiv : buddyIndex (blockPages o * q) o / blockPages o = q ^^^ 1 := by
    rw [buddyIndex, ← blockPages, blockPages, Nat.xor_div_two_pow, Nat.div_self (Nat.two_pow_pos _),
      Nat.mul_div_cancel_left _ (Nat.two_pow_pos _)]
  have hhalf : (q ^^^ 1) / 2 = q / 2 := by
    have := @Nat.xor_div_two_pow q 1 1
    simpa using this
  rw [blockPages_succ ho, Nat.mul_comm 2]
  rcases lowerBuddy_cases (blockPages o * q) o with ⟨e, h⟩ | ⟨e, h⟩
  · -- an even multiple: the buddy is above
    rw [h, Nat.mul_comm, ← Nat.succ_mul, Nat.mul_div_cancel _ hpos] at hdiv
    rw [e]
    exact Nat.mul_dvd_mul_left _ (by omega)
  · -- an odd multiple: the buddy is below
    obtain ⟨r, rfl⟩ : ∃ r, q = r + 1 := ⟨q - 1, by
      have : q ≠ 0 := by
        rintro rfl
        omega
      omega⟩
    have hb : buddyIndex (blockPages o * (r + 1)) o = blockPages o * r := by
      rw [Nat.mul_succ] at h ⊢
      exact Nat.add_right_cancel h
    rw [hb, Nat.mul_div_cancel_left _ hpos] at hdiv
    rw [e, hb]
    exact Nat.mul_dvd_mul_left _ (by omega)

end Indices

section Removal

variable {b : Buddy} {fr : Nat → List Nat} {lv : List (Nat × Nat)} {i o : Nat}

/-- A node of the list is found, if the loop has turns enough for the list. -/
lemma removeLoop_found {target n : Nat} {prev cur : Option Nat} {l : List Nat}
    (hc : IsChain b.mem cur l) (hm : target ∈ l) (hn : l.length ≤ n) :
    (removeLoop target o n prev cur b).isSome := by
  induction l generalizing n prev cur with
  | nil => simp at hm
  | cons a l ih =>
    obtain ⟨rfl, htail⟩ := (isChain_cons _ _ _ _).mp hc
    obtain ⟨n, rfl⟩ : ∃ m, n = m + 1 := ⟨n - 1, by simp at hn; omega⟩
    rw [removeLoop]
    split
    · rfl
    · rename_i hne
      have hm' := (List.mem_cons.mp hm).resolve_left (Ne.symm hne)
      exact ih htail hm' (by simpa using hn)

/-- `remove_from_free_list` finds every block of the list. -/
lemma Blocks.removes (h : Blocks b fr lv) (honce : (fr o).Nodup) (hi : i ∈ fr o) :
    ∃ b1, b.removeFromFreeList i o = some b1 := by
  have hlen : (fr o).length ≤ b.numPages := by
    have hsub : fr o ⊆ List.range b.numPages :=
      fun j hj => List.mem_range.mpr (h.free o j hj).index
    have := (honce.subperm hsub).length_le
    rwa [List.length_range] at this
  apply Option.isSome_iff_exists.mp
  apply removeLoop_found (h.chain o) (List.mem_map_of_mem hi)
  rw [List.length_map]
  omega

/-- The loop of `buddy_free` ends: turns beyond the orders that are left change nothing. -/
lemma mergeLoop_ends {n idx order : Nat} (hn : b.maxOrder ≤ order + n) (m : Nat) :
    mergeLoop (n + m) idx order b = mergeLoop n idx order b := by
  induction n generalizing idx order b with
  | zero =>
    have hmax : ¬order < b.maxOrder := by omega
    cases m with
    | zero => rfl
    | succ m =>
      rw [Nat.zero_add, mergeLoop, mergeLoop]
      dsimp only
      rw [if_neg (fun hc => hmax hc.1)]
  | succ n ih =>
    have hsucc : n + 1 + m = n + m + 1 := by omega
    rw [hsucc, mergeLoop, mergeLoop]
    dsimp only
    split
    · split
      · rfl
      · rename_i b1 hr
        obtain ⟨-, -, -, hmax⟩ := removeLoop_same hr
        apply ih
        change b1.maxOrder ≤ order + 1 + n
        rw [hmax]
        omega
    · rfl

end Removal

section Merging

variable {b b' b1 : Buddy} {fr fr' : Nat → List Nat} {lv : List (Nat × Nat)} {x : Nat × Nat}
  {idx order : Nat}

lemma AlignedCover.congr {P : Nat} {S S' : Nat × Nat → Prop} (h : AlignedCover P S)
    (hS : ∀ x, S' x ↔ S x) : AlignedCover P S' := by
  have : S' = S := by
    funext x
    exact propext (hS x)
  rwa [this]

/-- Two buddies can be replaced by the block that they make. -/
lemma AlignedCover.merge {P i o : Nat} {S : Nat × Nat → Prop} (h : AlignedCover P S)
    (hmin : buddyMinOrder ≤ o) (hi : S (i, o)) (hb : S (buddyIndex i o, o)) :
    AlignedCover P fun x => x = (lowerBuddy i o, o + 1) ∨
      (S x ∧ x ≠ (i, o) ∧ x ≠ (buddyIndex i o, o)) := by
  have hal : blockPages o ∣ i := h.aligned (i, o) hi
  have hin : i + blockPages o ≤ P := h.inside (i, o) hi
  have hin' : buddyIndex i o + blockPages o ≤ P := h.inside (buddyIndex i o, o) hb
  have hlower := lowerBuddy_cases i o
  have hsucc := blockPages_succ hmin
  have hroom : lowerBuddy i o + blockPages (o + 1) ≤ P := by omega
  refine ⟨?_, ?_, fun j hj => ?_⟩
  · rintro x (rfl | ⟨hx, -⟩)
    · dsimp only
      exact lowerBuddy_aligned hmin hal
    · exact h.aligned x hx
  · rintro x (rfl | ⟨hx, -⟩)
    · dsimp only
      exact hroom
    · exact h.inside x hx
  · obtain ⟨x, hx, hlow, hhigh⟩ := h.covers j hj
    by_cases hpair : x = (i, o) ∨ x = (buddyIndex i o, o)
    · refine ⟨_, .inl rfl, ?_, ?_⟩ <;> dsimp only <;> rcases hpair with rfl | rfl <;>
        dsimp only at hlow hhigh <;> omega
    · exact ⟨x, .inr ⟨hx, not_or.mp hpair⟩, hlow, hhigh⟩

/-- The block in hand goes back to the list of its order. -/
lemma Tidy.push (hx : InHand b fr lv (idx, order)) (ht : Tidy b fr lv [(idx, order)]) :
    Tidy (b.addToFreeList idx order) (update fr order (idx :: fr order)) lv [] := by
  have hnew : ∀ y, IsBlock (update fr order (idx :: fr order)) lv [] y ↔
      IsBlock fr lv [(idx, order)] y := by
    rintro ⟨j, o⟩
    by_cases ho : o = order
    · subst ho
      simp [IsBlock]
      tauto
    · simp [IsBlock, ho]
  refine ⟨ht.cover.congr hnew, fun o => ?_, fun y hy => ht.heads y ((hnew y).mp hy), ht.used⟩
  by_cases ho : o = order
  · subst ho
    rw [update_self]
    refine List.nodup_cons.mpr ⟨fun hmem => ?_, ht.once o⟩
    exact (hx.free o idx hmem).ne rfl
  · rw [update_of_ne ho]
    exact ht.once o

/-- The blocks after the block in hand was joined with its free buddy. -/
lemma isBlock_merge {pre post : List Nat} (hmin : buddyMinOrder ≤ order)
    (hfr : fr order = pre ++ buddyIndex idx order :: post)
    (hhand : InHand b1 (update fr order (pre ++ post)) lv (lowerBuddy idx order, order + 1))
    (y : Nat × Nat) :
    IsBlock (update fr order (pre ++ post)) lv [(lowerBuddy idx order, order + 1)] y ↔
      y = (lowerBuddy idx order, order + 1) ∨ (IsBlock fr lv [(idx, order)] y ∧
        y ≠ (idx, order) ∧ y ≠ (buddyIndex idx order, order)) := by
  have hsucc := blockPages_succ hmin
  have hlower := lowerBuddy_cases idx order
  have hpos := blockPages_pos order
  have hapart : ∀ z : Nat × Nat, Apart (lowerBuddy idx order, order + 1) z →
      z ≠ (idx, order) ∧ z ≠ (buddyIndex idx order, order) := by
    intro z hz
    constructor
    · rintro rfl
      rcases hz with hz | hz <;> dsimp only at hz <;> omega
    · rintro rfl
      rcases hz with hz | hz <;> dsimp only at hz <;> omega
  obtain ⟨j, o⟩ := y
  constructor
  · rintro (hy | hy | hy)
    · exact .inr ⟨.inl hy, hapart _ (hhand.live _ hy)⟩
    · refine .inr ⟨.inr (.inl ?_), hapart _ (hhand.free _ _ hy)⟩
      dsimp only at hy ⊢
      by_cases ho : o = order
      · subst ho
        rw [update_self] at hy
        rw [hfr]
        exact (List.mem_append.mp hy).elim (List.mem_append_left _)
          fun hy => List.mem_append_right _ (List.mem_cons_of_mem _ hy)
      · rwa [update_of_ne ho] at hy
    · exact .inl (by simpa using hy)
  · rintro (hy | ⟨hy | hy | hy, hidx, hbuddy⟩)
    · exact .inr (.inr (by simp [hy]))
    · exact .inl hy
    · right
      left
      dsimp only at hy ⊢
      by_cases ho : o = order
      · subst ho
        rw [update_self]
        rw [hfr] at hy
        have hne : j ≠ buddyIndex idx o := fun h => hbuddy (by rw [h])
        simpa [hne] using hy
      · rwa [update_of_ne ho]
    · exact absurd (by simpa using hy) hidx

/-- The block in hand and its free buddy become one block in hand. -/
lemma Tidy.mergeStep {pre post : List Nat} (ht : Tidy b fr lv [(idx, order)])
    (hmin : buddyMinOrder ≤ order) (hfr : fr order = pre ++ buddyIndex idx order :: post)
    (hhand : InHand (b1.setOrder (lowerBuddy idx order) (order + 1))
      (update fr order (pre ++ post)) lv (lowerBuddy idx order, order + 1))
    (hs : SameGeometry b b1) (hmaps : b1.maps = b.maps) :
    Tidy (b1.setOrder (lowerBuddy idx order) (order + 1)) (update fr order (pre ++ post)) lv
      [(lowerBuddy idx order, order + 1)] := by
  obtain ⟨hnum, hbase, hend, -⟩ := hs
  have hself : IsBlock fr lv [(idx, order)] (idx, order) := .inr (.inr (by simp))
  have hbuddy : IsBlock fr lv [(idx, order)] (buddyIndex idx order, order) := by
    right
    left
    simp [hfr]
  have hregion : regionPages (b1.setOrder (lowerBuddy idx order) (order + 1)) = regionPages b := by
    change (b1.regionEnd - b1.regionBase) / buddyPageSize = _
    rw [hbase, hend]
    rfl
  have hnew := isBlock_merge hmin hfr hhand
  have hindex : lowerBuddy idx order < b1.numPages := hhand.placed.index
  refine ⟨?_, fun o => ?_, fun y hy => ?_, fun j hj => ?_⟩
  · rw [hregion]
    exact (ht.cover.merge hmin hself hbuddy).congr hnew
  · by_cases ho : o = order
    · subst ho
      have honce := ht.once o
      rw [hfr] at honce
      rw [update_self]
      exact honce.sublist ((List.sublist_cons_self _ _).append_left pre)
    · rw [update_of_ne ho]
      exact ht.once o
  · change update b1.maps (lowerBuddy idx order) (order + 1) y.1 = y.2
    have hkept : y.1 ≠ lowerBuddy idx order →
        update b1.maps (lowerBuddy idx order) (order + 1) y.1 = y.2 := by
      intro hne
      have hold : IsBlock fr lv [(idx, order)] y := by
        rcases (hnew y).mp hy with rfl | ⟨hold, -⟩
        · exact absurd rfl hne
        · exact hold
      rw [update_of_ne hne, hmaps]
      exact ht.heads y hold
    rcases hy with hy | hy | hy
    · exact hkept (hhand.live y hy).ne.symm
    · exact hkept (hhand.free _ _ hy).ne.symm
    · obtain rfl : y = (lowerBuddy idx order, order + 1) := by simpa using hy
      exact update_self _ _ _
  · rw [hregion] at hj
    change update b1.maps (lowerBuddy idx order) (order + 1) (b1.numPages + j) ≠ 0 ↔ _
    rw [update_of_ne (by omega), hmaps, hnum]
    exact ht.used j hj

/-- What the merges make of a state with a block in hand. -/
structure Settled (b : Buddy) (fr : Nat → List Nat) (lv : List (Nat × Nat)) (b' : Buddy)
    (fr' : Nat → List Nat) : Prop where
  blocks : Blocks b' fr' lv
  tidy : Tidy b' fr' lv []
  geometry : SameGeometry b b'
  stats : SameStats b b'
  maximal : NoFreeBuddies b fr → NoFreeBuddies b' fr'

/-- The loop stops at a block whose buddy is not free. -/
lemma settled_push (h : Blocks b fr lv) (hx : InHand b fr lv (idx, order))
    (ht : Tidy b fr lv [(idx, order)])
    (hstop : order < b.maxOrder → buddyIndex idx order ∉ fr order) :
    Settled b fr lv (b.addToFreeList idx order) (update fr order (idx :: fr order)) := by
  refine ⟨h.push hx, ht.push hx, ⟨rfl, rfl, rfl, rfl⟩, ⟨rfl, rfl⟩, fun hmax o ho i hi hb => ?_⟩
  have ho' : o < b.maxOrder := ho
  by_cases heq : o = order
  · subst heq
    rw [update_self, List.mem_cons] at hi hb
    rcases hi with rfl | hi
    · rcases hb with hb | hb
      · exact buddyIndex_ne i o hb
      · exact hstop ho' hb
    · rcases hb with hb | hb
      · apply hstop ho'
        rw [← hb, buddyIndex_involutive]
        exact hi
      · exact hmax o ho' i hi hb
  · rw [update_of_ne heq] at hi hb
    exact hmax o ho' i hi hb

/-- At the head of a free block the checks of `buddy_free` succeed. -/
lemma Tidy.free_buddy (h : Blocks b fr lv) (ht : Tidy b fr lv [(idx, order)])
    (hb : buddyIndex idx order ∈ fr order) : buddyIndex idx order < regionPages b ∧
      b.orderMap (buddyIndex idx order) = order ∧ b.usedMap (buddyIndex idx order) = 0 := by
  have hblock : IsBlock fr lv [(idx, order)] (buddyIndex idx order, order) := .inr (.inl hb)
  have hin : buddyIndex idx order + blockPages order ≤ regionPages b :=
    ht.cover.inside (buddyIndex idx order, order) hblock
  have hpos := blockPages_pos order
  have hlt : buddyIndex idx order < regionPages b := by omega
  refine ⟨hlt, ht.heads _ hblock, ?_⟩
  by_contra hne
  obtain ⟨o, ho⟩ := (ht.used _ hlt).mp hne
  exact (h.liveFree _ ho order _ hb).ne rfl

/-- The loop of `buddy_free`: by induction on the orders that are left. -/
lemma settled_merge {n : Nat} (h : Blocks b fr lv) (hx : InHand b fr lv (idx, order))
    (ht : Tidy b fr lv [(idx, order)]) (hn : b.maxOrder ≤ order + n) :
    ∃ fr', Settled b fr lv (mergeLoop n idx order b) fr' := by
  induction n generalizing b fr idx order with
  | zero => exact ⟨_, settled_push h hx ht fun hlt => absurd hlt (by omega)⟩
  | succ n ih =>
    rw [mergeLoop]
    dsimp only
    split
    · rename_i hc
      obtain ⟨hmax, hbound, -, -⟩ := hc
      split
      · rename_i hr
        refine ⟨_, settled_push h hx ht fun _ hb => ?_⟩
        obtain ⟨b1, hb1⟩ := h.removes (ht.once order) hb
        rw [hr] at hb1
        cases hb1
      · rename_i b1 hr
        have hmin : buddyMinOrder ≤ order := hx.placed.minOrder
        obtain ⟨pre, post, hfr, h1, hhand, hs, hstats, hmaps, -⟩ :=
          h.mergeStep hx hmax (h.geometry.buddy_index hbound) hr
        have ht1 := ht.mergeStep hmin hfr hhand hs hmaps
        obtain ⟨fr', hsettled⟩ := ih h1 hhand ht1 (by
          change b1.maxOrder ≤ order + 1 + n
          rw [hs.2.2.2]
          omega)
        refine ⟨fr', hsettled.blocks, hsettled.tidy, ?_, ?_, fun hnone => ?_⟩
        · obtain ⟨g1, g2, g3, g4⟩ := hsettled.geometry
          exact ⟨g1.trans hs.1, g2.trans hs.2.1, g3.trans hs.2.2.1, g4.trans hs.2.2.2⟩
        · exact ⟨hsettled.stats.1.trans hstats.1, hsettled.stats.2.trans hstats.2⟩
        · have hsub : ∀ o, ∀ i ∈ update fr order (pre ++ post) o, i ∈ fr o := by
            intro o i hi
            by_cases ho : o = order
            · subst ho
              rw [update_self] at hi
              rw [hfr]
              exact (List.mem_append.mp hi).elim (List.mem_append_left _)
                fun hi => List.mem_append_right _ (List.mem_cons_of_mem _ hi)
            · rwa [update_of_ne ho] at hi
          apply hsettled.maximal
          intro o ho i hi hb
          have ho' : o < b.maxOrder := by
            rw [← hs.2.2.2]
            exact ho
          exact hnone o ho' i (hsub o i hi) (hsub o _ hb)
    · rename_i hc
      refine ⟨_, settled_push h hx ht fun hlt hb => ?_⟩
      obtain ⟨hin, horder, hused⟩ := ht.free_buddy h hb
      exact hc ⟨hlt, hin, horder, hused⟩

end Merging

section Release

variable {b : Buddy} {fr : Nat → List Nat} {lv : List (Nat × Nat)} {x : Nat × Nat}

/-- The block is no longer marked and is in hand. -/
lemma WellFormed.release (h : WellFormed b fr lv) (hx : x ∈ lv) :
    Blocks (released b x.1 x.2) fr (lv.filter fun y => decide (y ≠ x)) ∧
    InHand (released b x.1 x.2) fr (lv.filter fun y => decide (y ≠ x)) x ∧
    Tidy (released b x.1 x.2) fr (lv.filter fun y => decide (y ≠ x)) [x] := by
  have hpl := h.blocks.live x hx
  have h1 : Blocks b fr (lv.filter fun y => decide (y ≠ x)) :=
    h.blocks.subset List.filter_sublist
  have hother : ∀ y ∈ lv.filter fun y => decide (y ≠ x), Apart x y := by
    intro y hy
    obtain ⟨hy, hyx⟩ := List.mem_filter.mp hy
    have hyx : y ≠ x := by simpa using hyx
    exact h.blocks.liveApart.forall hx hy hyx.symm
  have h2 := h1.mark hpl.index (fun y hy => (hother y hy).ne)
    (update b.maps (b.numPages + x.1) 0) fun j _ hj => update_of_ne hj _ _
  have hnew : ∀ y, IsBlock fr (lv.filter fun y => decide (y ≠ x)) [x] y ↔ IsBlock fr lv [] y := by
    intro y
    by_cases hy : y = x
    · subst hy
      simp [IsBlock, hx]
    · simp [IsBlock, hy]
  refine ⟨h2.unmarked, ⟨⟨hpl.minOrder, hpl.maxOrder, hpl.fits⟩, h.blocks.liveFree x hx, hother⟩,
    h.tidy.cover.congr hnew, h.tidy.once, fun y hy => ?_, fun j hj => ?_⟩
  · have hold := (hnew y).mp hy
    have hin := h.tidy.cover.inside y hold
    have hpos := blockPages_pos y.2
    have hindex : y.1 < b.numPages := h.blocks.geometry.buddy_index (by
      change y.1 < regionPages b
      omega)
    change update b.maps (b.numPages + x.1) 0 y.1 = y.2
    rw [update_of_ne (by omega)]
    exact h.tidy.heads y hold
  · change update b.maps (b.numPages + x.1) 0 (b.numPages + j) ≠ 0 ↔ _
    by_cases hjx : j = x.1
    · rw [hjx, update_self]
      simp only [ne_eq, not_true, false_iff]
      rintro ⟨o, ho⟩
      exact (hother _ ho).ne rfl
    · rw [update_of_ne (by omega)]
      have hold := h.tidy.used j hj
      change b.maps (b.numPages + j) ≠ 0 ↔ _ at hold
      rw [hold]
      have hne : ∀ o, (j, o) ≠ x := by
        rintro o rfl
        exact hjx rfl
      simp [hne]

lemma WellFormed.free_eq (h : WellFormed b fr lv) (hx : x ∈ lv) :
    b.free (b.indexToPtr x.1) = mergeLoop buddyMaxOrders x.1 x.2 (released b x.1 x.2) := by
  obtain ⟨hbase, hend⟩ := h.blocks.inside x hx
  obtain ⟨hord, hused⟩ := h.blocks.marked x hx
  have hpl := h.blocks.live x hx
  have hg := h.blocks.geometry
  have hidx := ptrToIndex_indexToPtr hg hpl.index
  have hpos := Nat.two_pow_pos x.2
  have hne : x.2 ≠ 255 := by
    have := hpl.order_lt hg
    have : buddyMaxOrders = 20 := rfl
    omega
  rw [Buddy.free, if_neg (by simp [h.initialized]; omega)]
  simp only [hidx, hord]
  rw [if_neg (by simp [hne, hused])]
  rfl

end Release

/-- `buddy_free` of a live pointer makes a well-formed state of a well-formed state. Its loop
ends by itself, and it leaves no two free buddies that it could have merged. -/
theorem buddy_free_well_formed {b : Buddy} {fr : Nat → List Nat} {lv : List (Nat × Nat)}
    {x : Nat × Nat} (h : WellFormed b fr lv) (hx : x ∈ lv) :
    (∃ fr', WellFormed (b.free (b.indexToPtr x.1)) fr' (lv.filter fun y => decide (y ≠ x)) ∧
      (NoFreeBuddies b fr → NoFreeBuddies (b.free (b.indexToPtr x.1)) fr')) ∧
    (∀ n, b.free (b.indexToPtr x.1) =
      mergeLoop (buddyMaxOrders + n) x.1 x.2 (released b x.1 x.2)) ∧
    ((b.free (b.indexToPtr x.1)).statUsed + 2 ^ x.2) % addrMod = b.statUsed % addrMod := by
  have hmax := h.blocks.geometry.maxOrder
  have hturns : (released b x.1 x.2).maxOrder ≤ x.2 + buddyMaxOrders := by
    change b.maxOrder ≤ _
    omega
  obtain ⟨h1, hhand, ht⟩ := h.release hx
  obtain ⟨fr', hsettled⟩ := settled_merge h1 hhand ht hturns
  rw [h.free_eq hx]
  refine ⟨⟨fr', ⟨?_, ?_, hsettled.blocks, hsettled.tidy⟩, hsettled.maximal⟩, fun n => ?_, ?_⟩
  · rw [mergeLoop_initialized]
    exact h.initialized
  · rw [hsettled.geometry.2.1]
    exact h.base
  · rw [mergeLoop_ends hturns]
  · have hle : 2 ^ x.2 ≤ addrMod := by
      have := (h.blocks.live x hx).order_lt h.blocks.geometry
      have horders : buddyMaxOrders = 20 := rfl
      exact Nat.pow_le_pow_right (by decide) (by omega)
    rw [hsettled.stats.1]
    change ((b.statUsed + (addrMod - 2 ^ x.2)) % addrMod + 2 ^ x.2) % addrMod = _
    rw [Nat.mod_add_mod, Nat.add_assoc, Nat.sub_add_cancel hle, Nat.add_mod_right]

/-- A region of four pages: the first page is used, the second is free, and the last two are a
free block. The map still says that a block of one page starts at the last page. -/
def splitHeap : Buddy where
  mem := fun _ => none
  maps := fun i => if i = 2 then 13 else if i < 4 then 12 else if i = 4 then 1 else 0
  numPages := 4
  freeLists := fun o => if o = 12 then some 12288 else if o = 13 then some 16384 else none
  regionBase := 8192
  regionEnd := 24576
  maxOrder := 14
  initialized := true
  statTotal := 16384
  statUsed := 4096
  statAllocBlocks := 1
  statFreeBlocks := 2

def splitFree (o : Nat) : List Nat := if o = 12 then [1] else if o = 13 then [2] else []

lemma mem_splitFree {i o : Nat} : i ∈ splitFree o ↔ (i, o) = (1, 12) ∨ (i, o) = (2, 13) := by
  unfold splitFree
  split_ifs with h1 h2
  · simp [h1]
  · simp [h2]
  · simp [h1, h2]

lemma isBlock_splitFree {x : Nat × Nat} :
    IsBlock splitFree [(0, 12)] [] x ↔ x ∈ [(0, 12), (1, 12), (2, 13)] := by
  simp [IsBlock, mem_splitFree]

lemma splitHeap_blocks : Blocks splitHeap splitFree [(0, 12)] where
  geometry := ⟨by decide, by decide, by decide, by decide, by decide, by decide⟩
  chain o := by
    unfold splitFree splitHeap
    dsimp only
    split_ifs
    · exact ⟨rfl, rfl⟩
    · exact ⟨rfl, rfl⟩
    · rfl
  free o i hi := by
    rcases mem_splitFree.mp hi with h | h <;> rw [h]
    · exact ⟨by decide, by decide, by decide⟩
    · exact ⟨by decide, by decide, by decide⟩
  live := by simpa using ⟨by decide, by decide, by decide⟩
  inside := by decide
  marked := by decide
  freeApart o o' i i' hi hi' hne := by
    rcases mem_splitFree.mp hi with h | h <;> rcases mem_splitFree.mp hi' with h' | h' <;>
      rw [h, h'] at hne ⊢
    · exact absurd rfl hne
    · exact .inl (by decide)
    · exact .inr (by decide)
    · exact absurd rfl hne
  liveFree x hx o i hi := by
    obtain rfl : x = (0, 12) := by simpa using hx
    rcases mem_splitFree.mp hi with h | h <;> rw [h]
    · exact .inl (by decide)
    · exact .inl (by decide)
  liveApart := List.pairwise_singleton _ _

lemma splitHeap_wellFormed : WellFormed splitHeap splitFree [(0, 12)] := by
  have hpages : regionPages splitHeap = 4 := by decide
  refine ⟨rfl, by decide, splitHeap_blocks, ⟨?_, ?_, ?_⟩, fun o => ?_, fun x hx => ?_, ?_⟩
  · intro x hx
    replace hx := isBlock_splitFree.mp hx
    revert x
    decide
  · intro x hx
    replace hx := isBlock_splitFree.mp hx
    revert x
    decide
  · rw [hpages]
    intro j hj
    have hex : ∃ x ∈ [(0, 12), (1, 12), (2, 13)], x.1 ≤ j ∧ j < x.1 + blockPages x.2 := by
      revert j
      decide
    obtain ⟨x, hx, hcov⟩ := hex
    exact ⟨x, isBlock_splitFree.mpr hx, hcov⟩
  · unfold splitFree
    split_ifs <;> simp
  · replace hx := isBlock_splitFree.mp hx
    revert x
    decide
  · rw [hpages]
    intro j hj
    simp only [List.mem_singleton, Prod.mk.injEq, exists_and_left, exists_eq, and_true]
    revert j
    decide

theorem buddy_free_well_formed_sample : ∃ fr', WellFormed (splitHeap.free 8192) fr' [] ∧
    NoFreeBuddies (splitHeap.free 8192) fr' ∧ (splitHeap.free 8192).freeLists 14 = some 8192 := by
  have hnone : NoFreeBuddies splitHeap splitFree := by
    intro o _ i hi hb
    rcases mem_splitFree.mp hi with h | h <;> obtain ⟨rfl, rfl⟩ := Prod.mk.inj h
    · revert hb
      decide
    · revert hb
      decide
  obtain ⟨⟨fr', h1, h2⟩, -⟩ := buddy_free_well_formed splitHeap_wellFormed List.mem_cons_self
  exact ⟨fr', h1, h2 hnone, by decide⟩

end TP2Kernel.Proofs
