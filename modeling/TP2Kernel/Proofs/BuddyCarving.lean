import TP2Kernel.Proofs.BuddyLayout
import TP2Kernel.Lib.WhileLoop

/-!
# How `buddy_init` carves the heap

The last loop of `buddy_init` as a while loop on the offset and the state. It ends exactly at the
end of the region, each block is of the largest order that fits, and the maps are written only at
pages of the heap.
-/

namespace TP2Kernel.Proofs
open Buddy WhileLoop

/-- The bytes that the loop of `buddy_init` distributes. -/
def availableSize (b : Buddy) : ℕ := b.regionEnd - b.regionBase

/-- The order that the loop chooses at an offset. -/
def carveOrder (s : ℕ × Buddy) : ℕ := s.2.fittingOrder (availableSize s.2 - s.1)

/-- The index at which the loop writes the maps. -/
def carveIndex (alignedStart : ℕ) (s : ℕ × Buddy) : ℕ :=
  (s.2.regionBase + s.1 - alignedStart) / buddyPageSize

/-- One turn of the loop. -/
def carveTurn (alignedStart : ℕ) (s : ℕ × Buddy) : ℕ × Buddy :=
  let order := carveOrder s
  let idx := carveIndex alignedStart s
  (s.1 + 2 ^ order, ((s.2.setOrder idx order).setUsed idx 0).addToFreeList idx order)

/-- The condition of the loop. -/
def carving (s : ℕ × Buddy) : Prop := s.1 < availableSize s.2

instance : DecidablePred carving := fun _ => Nat.decLt _ _

/-- What is to be said of a turn of the loop that started in `b`. -/
structure GoodTurn (b : Buddy) (alignedStart : ℕ) (s : ℕ × Buddy) : Prop where
  offset : s.1 < availableSize b
  page : buddyPageSize ∣ s.1
  order : IsGreatest {o | buddyMinOrder ≤ o ∧ o ≤ b.maxOrder ∧ 2 ^ o ≤ availableSize b - s.1}
    (carveOrder s)
  index : carveIndex alignedStart s < b.numPages

lemma carveLoop_eq_run (alignedStart n offset : ℕ) (b : Buddy) :
    carveLoop alignedStart n offset b = (run carving (carveTurn alignedStart) n (offset, b)).2 := by
  induction n generalizing offset b with
  | zero => rfl
  | succ n ih =>
    rw [carveLoop, run]
    by_cases h : carving (offset, b)
    · rw [if_pos h]
      exact (if_pos h).trans (ih _ _)
    · rw [if_neg h]
      exact if_neg h

/-- The chosen order is the largest one that fits. -/
lemma fittingOrder_isGreatest {b : Buddy} {remaining : ℕ} (hmin : buddyMinOrder ≤ b.maxOrder)
    (hmax : b.maxOrder < buddyMaxOrders) (hr : buddyPageSize ≤ remaining) :
    IsGreatest {o | buddyMinOrder ≤ o ∧ o ≤ b.maxOrder ∧ 2 ^ o ≤ remaining}
      (b.fittingOrder remaining) := by
  refine ⟨fittingOrder_spec hmin hr, fun o ho => ?_⟩
  obtain ⟨-, hle, hfits⟩ := ho
  have hne : remaining ≠ 0 := by
    rw [buddyPageSize] at hr
    omega
  have hturns : b.maxOrder ≤ buddyMinOrder + buddyMaxOrders := by
    rw [buddyMinOrder]
    omega
  have hcap := (@orderLoop_spec remaining b.maxOrder buddyMaxOrders buddyMinOrder hmin).2.1
  have hcovers := @orderLoop_covers remaining b.maxOrder buddyMaxOrders buddyMinOrder hturns
  rw [fittingOrder, sizeToOrder, if_neg hne]
  generalize orderLoop remaining b.maxOrder buddyMaxOrders buddyMinOrder = order at *
  rw [if_neg (not_lt.mpr hcap)]
  split
  · rename_i hlt
    have : o < order := (Nat.pow_lt_pow_iff_right (by omega)).mp (hfits.trans_lt hlt)
    omega
  · rcases hcovers with hcovers | hcovers
    · exact hle.trans hcovers
    · exact (Nat.pow_le_pow_iff_right (by omega)).mp (hfits.trans hcovers)

/-- The pages that are still to be carved. -/
def pagesLeft (s : ℕ × Buddy) : ℕ := (availableSize s.2 - s.1) / buddyPageSize

/-- Where a turn starts: at a page of the region `b`, of which nothing else has changed. -/
structure AtPage (b : Buddy) (s : ℕ × Buddy) : Prop where
  same : SameGeometry b s.2
  page : buddyPageSize ∣ s.1
  le : s.1 ≤ availableSize b

variable {b : Buddy} {alignedStart M : ℕ} {s : ℕ × Buddy}

lemma AtPage.availableSize_eq (h : AtPage b s) : availableSize s.2 = availableSize b := by
  obtain ⟨-, hbase, hend, -⟩ := h.same
  rw [availableSize, availableSize, hbase, hend]

lemma Uncarved.availableSize_eq (h : Uncarved b alignedStart M) :
    availableSize b = (b.numPages - M) * buddyPageSize := by
  rw [availableSize, h.ends, h.base, Nat.sub_mul]
  omega

lemma AtPage.goodTurn (hu : Uncarved b alignedStart M) (h : AtPage b s) (hc : carving s) :
    GoodTurn b alignedStart s := by
  have hlt : s.1 < availableSize b := by
    rw [← h.availableSize_eq]
    exact hc
  obtain ⟨k, hk⟩ := h.page
  have havail := hu.availableSize_eq
  have hpage : buddyPageSize = 4096 := rfl
  obtain ⟨hnum, hbase, -, hmax⟩ := h.same
  refine ⟨hlt, h.page, ?_, ?_⟩
  · rw [carveOrder, h.availableSize_eq, ← hmax]
    apply fittingOrder_isGreatest
    · rw [hmax]
      exact hu.geometry.minOrder
    · rw [hmax]
      exact hu.geometry.maxOrder
    · rw [havail, hk, hpage] at hlt ⊢
      omega
  · rw [carveIndex, hbase, hu.base, Nat.div_lt_iff_lt_mul (by decide)]
    rw [havail, Nat.sub_mul] at hlt
    omega

lemma AtPage.step (hu : Uncarved b alignedStart M) (h : AtPage b s) (hc : carving s) :
    AtPage b (carveTurn alignedStart s) ∧
      pagesLeft (carveTurn alignedStart s) < pagesLeft s := by
  obtain ⟨⟨hmin, -, hfits⟩, -⟩ := (h.goodTurn hu hc).order
  have hpos := Nat.two_pow_pos (carveOrder s)
  have hblock : buddyPageSize ∣ 2 ^ carveOrder s := Nat.pow_dvd_pow 2 hmin
  have hle := h.le
  have hoffset : (carveTurn alignedStart s).1 = s.1 + 2 ^ carveOrder s := rfl
  have h' : AtPage b (carveTurn alignedStart s) := by
    refine ⟨h.same, ?_, ?_⟩
    · rw [hoffset]
      exact Nat.dvd_add h.page hblock
    · omega
  refine ⟨h', ?_⟩
  have hlt : s.1 < availableSize s.2 := hc
  have hpage : buddyPageSize ≤ 2 ^ carveOrder s := Nat.le_of_dvd hpos hblock
  rw [pagesLeft, pagesLeft, h'.availableSize_eq, hoffset, h.availableSize_eq]
  have hp : buddyPageSize = 4096 := rfl
  rw [hp] at hpage ⊢
  omega

/-- The last loop of `buddy_init`, for every region that it accepts. -/
theorem init_carves (b : Buddy) {start total : ℕ} (h : Region start total) :
    ∃ turns, Turns carving (carveTurn (alignUpPtr start)) (0, laidOut b start total) turns ∧
      (∀ j < turns, GoodTurn (laidOut b start total) (alignUpPtr start)
        ((carveTurn (alignUpPtr start))^[j] (0, laidOut b start total))) ∧
      ((carveTurn (alignUpPtr start))^[turns] (0, laidOut b start total)).1 =
        availableSize (laidOut b start total) ∧
      b.init start total =
        { ((carveTurn (alignUpPtr start))^[turns] (0, laidOut b start total)).2 with
          statTotal := availableSize (laidOut b start total)
          statUsed := 0
          statAllocBlocks := 0
          initialized := true } := by
  have hu := laidOut_uncarved h b
  generalize hb0 : laidOut b start total = b0 at *
  have h0 : AtPage b0 (0, b0) := ⟨⟨rfl, rfl, rfl, rfl⟩, Nat.dvd_zero _, Nat.zero_le _⟩
  have hstep : ∀ s, AtPage b0 s → carving s → AtPage b0 (carveTurn (alignUpPtr start) s) :=
    fun s hs hc => (hs.step hu hc).1
  obtain ⟨n, hn, hturns⟩ := exists_turns (m := pagesLeft) h0
    fun s hs hc => hs.step hu hc
  have hlast := hturns.invariant h0 hstep le_rfl
  refine ⟨n, hturns, fun j hj => ?_, ?_, ?_⟩
  · exact (hturns.invariant h0 hstep hj.le).goodTurn hu (hturns.runs j hj)
  · have hge := hturns.ends
    rw [carving, hlast.availableSize_eq] at hge
    exact hlast.le.antisymm (not_lt.mp hge)
  · have hle : n ≤ b0.numPages := by
      rw [pagesLeft, Nat.sub_zero, hu.availableSize_eq, Nat.mul_div_cancel _ (by decide)] at hn
      omega
    rw [init_eq_carveLoop h, hb0, carveLoop_eq_run, hturns.run_eq hle, availableSize]

/-- Sixteen pages, of which the maps take one. -/
theorem init_carves_sixteen_pages :
    Region 4096 65536 ∧ ∃ turns,
      Turns carving (carveTurn 4096) (0, laidOut buddySample 4096 65536) turns ∧
        (∀ j < turns, GoodTurn (laidOut buddySample 4096 65536) 4096
          ((carveTurn 4096)^[j] (0, laidOut buddySample 4096 65536))) ∧
        ((carveTurn 4096)^[turns] (0, laidOut buddySample 4096 65536)).1 = 61440 := by
  have h : Region 4096 65536 := ⟨by decide, by decide, by decide⟩
  obtain ⟨turns, hturns, hgood, hend, -⟩ := init_carves buddySample h
  exact ⟨h, turns, hturns, hgood, hend⟩

end TP2Kernel.Proofs
