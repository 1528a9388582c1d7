import TP2Kernel.Proofs.FirstFit

/-!
# Allocation and recovery of blocks

What `first_fit_malloc` does to the block list, when the block it returns is too small, and
the heap after everything was freed.
-/

namespace TP2Kernel.Proofs
open Function FirstFit

/-- The heap lies where it lay before. -/
structure SameHeap (h h' : FirstFit) : Prop where
  initialized : h'.initialized = h.initialized
  start : h'.heapStart = h.heapStart
  stop : h'.heapEnd = h.heapEnd
  size : h'.totalHeapSize = h.totalHeapSize

section SameHeap

variable {h h' : FirstFit} {σ σ' σ₀ : FirstFitSystem} {e : FirstFitEvent}

lemma SameHeap.refl (h : FirstFit) : SameHeap h h := ⟨rfl, rfl, rfl, rfl⟩

lemma sameHeap_malloc (h : FirstFit) (n : Nat) : SameHeap h (h.malloc n).1 := by
  by_cases hi : h.initialized = true
  · rw [malloc_eq h n hi]
    split_ifs
    · exact .refl h
    · split
      · exact .refl h
      · rw [take_static]
        exact ⟨rfl, rfl, rfl, rfl⟩
  · unfold FirstFit.malloc
    rw [if_pos (.inl (by simpa using hi))]
    exact .refl h

lemma sameHeap_free (h : FirstFit) (p : Option Nat) : SameHeap h (h.free p) := by
  unfold FirstFit.free
  split
  · dsimp only
    split_ifs
    · exact .refl h
    · exact ⟨rfl, by simp [FirstFit.coalesceBlocks, FirstFit.write, *], rfl, rfl⟩
  · exact .refl h

lemma sameHeap_step (hs : σ.step e = some σ') : SameHeap σ.h σ'.h := by
  cases e with
  | malloc n =>
    cases hs
    exact sameHeap_malloc σ.h n
  | free p =>
    cases p with
    | none =>
      cases hs
      exact sameHeap_free σ.h none
    | some p =>
      simp only [FirstFitSystem.step] at hs
      split at hs
      · cases hs
        exact sameHeap_free σ.h (some p)
      · cases hs

end SameHeap

/-- The heap of a run fits the address space. -/
lemma start_small {σ : FirstFitSystem} (h : σ.Start) : σ.h.totalHeapSize < sizeMod := by
  obtain ⟨h, startAddr, totalSize, h0, hwrap, hsize, rfl⟩ := h
  have hlt : ¬(startAddr = 0 ∨ totalSize < headerSize) := by
    rintro (h1 | h1)
    · exact h0 h1
    · omega
  unfold FirstFit.init
  rw [if_neg hlt]
  show totalSize - (alignSize startAddr - startAddr) < sizeMod
  omega

lemma reach_tiled {σ : FirstFitSystem}
    (h : Transition.Reach FirstFitSystem.Start FirstFitSystem.step (fun _ _ => True) σ) :
    ∃ a bs, Tiled σ a bs ∧ total bs < sizeMod := by
  have hsmall : σ.h.totalHeapSize < sizeMod := by
    apply h.invariant (I := fun σ => σ.h.totalHeapSize < sizeMod) (fun _ => start_small)
    intro s e s' hs _ hstep
    rw [(sameHeap_step hstep).size]
    exact hs
  obtain ⟨a, bs, ht⟩ := h.invariant (I := fun σ => ∃ a bs, Tiled σ a bs) (fun _ => start_tiled)
    fun _ _ _ ⟨a, bs, hb⟩ _ hs => ⟨a, tiled_step hb hs⟩
  refine ⟨a, bs, ht, ?_⟩
  rw [← ht.size]
  exact hsmall

section Recovery

variable {σ σ' σ₀ : FirstFitSystem} {a n : Nat} {b : Cell} {bs : List Cell}

lemma payloads_nil (h : payloads a bs = []) : ∀ b ∈ bs, b.isFree = true := by
  induction bs generalizing a with
  | nil => simp
  | cons b bs ih =>
    rw [payloads, List.append_eq_nil_iff] at h
    refine List.forall_mem_cons.mpr ⟨?_, ih h.2⟩
    by_contra hb
    simp [hb] at h

/-- When nothing is allocated, all neighbours were merged. -/
lemma tiled_empty (h : Tiled σ a bs) (hl : σ.live = []) :
    bs = [⟨σ.h.totalHeapSize - headerSize, true⟩] := by
  have hfree : ∀ b ∈ bs, b.isFree = true := by
    apply payloads_nil (a := a)
    have := h.live
    rw [hl] at this
    exact this.nil_eq.symm
  have hsize := h.size
  match bs, h.cells with
  | [b], _ =>
    have hb : b.isFree = true := hfree b (by simp)
    have hn : σ.h.totalHeapSize - headerSize = b.size := by
      rw [hsize]
      simp [total, Cell.bytes]
    rw [hn, ← hb]
  | b :: c :: bs, _ =>
    have hmerged := (List.isChain_cons_cons.mp h.merged).1
    exact absurd ⟨hfree b (by simp), hfree c (by simp)⟩ hmerged

/-- On a heap of one free block only the size of the request decides. -/
lemma malloc_single (h : Tiled σ a [b]) (hb : b.isFree = true) : (σ.h.malloc n).2 =
    if n = 0 ∨ b.size < mallocSize n then none else some (a + headerSize) := by
  by_cases hn : n = 0
  · rw [hn, malloc_zero h.initialized]
    rfl
  rcases malloc_cases h hn with ⟨hno, hall⟩ | ⟨pre, c, post, hbs, ⟨-, hsize⟩, -, hfound, -⟩
  · have hlt : b.size < mallocSize n := by
      by_contra hge
      exact hall b (by simp) ⟨hb, not_lt.mp hge⟩
    rw [hno, if_pos (.inr hlt)]
  · obtain ⟨rfl, hcons⟩ : pre = [] ∧ [b] = c :: post := by
      cases pre with
      | nil => exact ⟨rfl, hbs⟩
      | cons d pre => simp at hbs
    cases hcons
    have hge : ¬(n = 0 ∨ b.size < mallocSize n) := by
      rintro (h1 | h1)
      · exact hn h1
      · omega
    rw [hfound, if_neg hge]
    rfl

/-- In every run in which each allocation was freed exactly once, in whatever order, the block
list is the one behind `first_fit_init`, and every request has the outcome that it had on the
fresh heap. -/
theorem heap_recovered (h₀ : σ₀.Start)
    (h : Transition.Reach (fun s => s = σ₀) FirstFitSystem.step (fun _ _ => True) σ)
    (hl : σ.live = []) :
    ∃ a, σ₀.h.heapStart = some a ∧ SameHeap σ₀.h σ.h ∧
      σ.h.mem a = ⟨σ₀.h.totalHeapSize - headerSize, true, none, freeMagic⟩ ∧
      σ.h.mem a = σ₀.h.mem a ∧ σ.h.currentAllocatedBlocks = 0 ∧
      ∀ n, (σ.h.malloc n).2 = (σ₀.h.malloc n).2 := by
  have hlive : σ₀.live = [] := by
    obtain ⟨h, startAddr, totalSize, -, -, -, rfl⟩ := h₀
    rfl
  obtain ⟨a, bs₀, ht₀⟩ := start_tiled h₀
  have hkept : SameHeap σ₀.h σ.h ∧ ∃ bs, Tiled σ a bs := by
    apply h.invariant (I := fun σ => SameHeap σ₀.h σ.h ∧ ∃ bs, Tiled σ a bs)
    · rintro s rfl
      exact ⟨.refl _, bs₀, ht₀⟩
    · rintro s e s' ⟨hsame, bs, ht⟩ - hs
      have hstep := sameHeap_step hs
      refine ⟨⟨?_, ?_, ?_, ?_⟩, tiled_step ht hs⟩
      · rw [hstep.initialized, hsame.initialized]
      · rw [hstep.start, hsame.start]
      · rw [hstep.stop, hsame.stop]
      · rw [hstep.size, hsame.size]
  obtain ⟨hsame, bs, ht⟩ := hkept
  have hbs := tiled_empty ht hl
  have hbs₀ := tiled_empty ht₀ hlive
  rw [hsame.size] at hbs
  subst hbs hbs₀
  have hmem : ∀ {s : FirstFitSystem} {n : Nat}, Tiled s a [⟨n, true⟩] →
      s.h.mem a = ⟨n, true, none, freeMagic⟩ := fun hs => hs.holds.1
  refine ⟨a, ht₀.start, hsame, hmem ht, ?_, ?_, fun n => ?_⟩
  · rw [hmem ht, hmem ht₀]
  · rw [ht.count, hl]
    rfl
  · rw [malloc_single ht rfl, malloc_single ht₀ rfl]

/-- Three blocks, the middle one freed and allocated again, and then all of them freed out of
order. -/
def recoveryCalls : List FirstFitEvent :=
  [.malloc 100, .malloc 1, .malloc 64, .free (some 4272), .malloc 10, .free (some 4136),
    .free (some 4320), .free (some 4272)]

def recoveredHeap : FirstFitSystem :=
  Transition.final FirstFitSystem.step (fun _ _ => true) sampleHeap recoveryCalls

theorem heap_recovered_sample : ∃ a, sampleHeap.h.heapStart = some a ∧
    recoveredHeap.h.mem a = ⟨sampleHeap.h.totalHeapSize - headerSize, true, none, freeMagic⟩ := by
  have hreach : Transition.Reach (fun s => s = sampleHeap) FirstFitSystem.step
      (fun _ _ => true = true) recoveredHeap :=
    Transition.Reach.final recoveryCalls rfl (by decide +kernel)
  obtain ⟨a, h1, -, h2, -⟩ := heap_recovered sampleHeap_start
    (hreach.mono fun _ _ _ => trivial) (by decide +kernel)
  exact ⟨a, h1, h2⟩

end Recovery

/-- The block at `c` is free and has room for `m` bytes. -/
def BlockFits (h : FirstFit) (m c : Nat) : Prop := (h.mem c).isFree = true ∧ m ≤ (h.mem c).size

/-- The blocks at `pre`, `c` and `post` become those of a heap in which `m` bytes are allocated
in the block at `c`: the rest becomes a block of its own if it has room for a header and 16
bytes, and no other block changes. -/
structure Carved (h h' : FirstFit) (a m c : Nat) (pre post : List Nat) : Prop where
  split : headerSize + minBlockSize ≤ (h.mem c).size - m →
    h'.mem c = ⟨m, false, some (c + headerSize + m), blockMagic⟩ ∧
    h'.mem (c + headerSize + m) =
      ⟨(h.mem c).size - m - headerSize, true, (h.mem c).next, freeMagic⟩ ∧
    Tiles h'.mem h'.heapEnd a (pre ++ c :: (c + headerSize + m) :: post)
  whole : (h.mem c).size - m < headerSize + minBlockSize →
    h'.mem c = { h.mem c with isFree := false, magic := blockMagic } ∧
    Tiles h'.mem h'.heapEnd a (pre ++ c :: post)
  others : ∀ d ∈ pre ++ post, h'.mem d = h.mem d
  same : h' = { h with
    mem := h'.mem
    totalAllocations := h.totalAllocations + 1
    currentAllocatedBlocks := h.currentAllocatedBlocks + 1 }

section Allocation

variable {σ : FirstFitSystem} {h : FirstFit} {mem : Nat → MemoryBlock} {nx : Option Nat}
  {a e m n : Nat} {b : Cell} {bs pre post : List Cell}

/-- What holds of every cell holds of every block that is read in memory. -/
lemma holds_forall (P : Cell → Prop) (hh : Holds mem e nx a bs) :
    (∀ c ∈ addrs a bs, P ⟨(mem c).size, (mem c).isFree⟩) ↔ ∀ b ∈ bs, P b := by
  induction bs generalizing a with
  | nil => simp [addrs]
  | cons b bs ih =>
    obtain ⟨hs, hf, -, -⟩ := holds_head hh
    rw [addrs, List.forall_mem_cons, List.forall_mem_cons, ih hh.2, hs, hf]

lemma hasRoom_forall (hh : Holds h.mem e nx a bs) :
    (∀ c ∈ addrs a bs, ¬BlockFits h m c) ↔ ∀ b ∈ bs, ¬b.Fits m :=
  holds_forall (fun b => ¬b.Fits m) hh

lemma addrs_split (a : Nat) (pre post : List Cell) (b : Cell) : addrs a (pre ++ b :: post) =
    addrs a pre ++ (a + total pre) :: addrs (a + total pre + b.bytes) post := by
  rw [addrs_append, addrs]

/-- The first block that fits has the lowest address of those that do. -/
lemma lowest_room (hh : Holds h.mem e nx a (pre ++ b :: post)) (hpre : ∀ c ∈ pre, ¬c.Fits m) :
    ∀ d ∈ addrs a (pre ++ b :: post), BlockFits h m d → a + total pre ≤ d := by
  intro d hd hroom
  rw [addrs_split] at hd
  rcases List.mem_append.mp hd with hd | hd
  · exact absurd hroom ((hasRoom_forall (holds_append.mp hh).1).mpr hpre d hd)
  · rcases List.mem_cons.mp hd with rfl | hd
    · exact le_rfl
    · have := (mem_addrs hd).1
      omega

lemma carved_split (hh : Holds h.mem h.heapEnd none a (pre ++ b :: post)) (hn : n ≤ b.size)
    (hholds : Holds (take h (a + total pre) n).mem h.heapEnd none a
      (pre ++ (allocated b n ++ post)))
    (hrest : headerSize + minBlockSize ≤ b.size - n) :
    (take h (a + total pre) n).mem (a + total pre) =
      ⟨n, false, some (a + total pre + headerSize + n), blockMagic⟩ ∧
    (take h (a + total pre) n).mem (a + total pre + headerSize + n) =
      ⟨b.size - n - headerSize, true, (h.mem (a + total pre)).next, freeMagic⟩ ∧
    Tiles (take h (a + total pre) n).mem h.heapEnd a (addrs a pre ++ (a + total pre) ::
      (a + total pre + headerSize + n) :: addrs (a + total pre + b.bytes) post) := by
  have hcells : allocated b n = [⟨n, false⟩, ⟨b.size - n - headerSize, true⟩] := by
    rw [allocated, if_neg (by omega)]
  have hnext : a + total pre + (Cell.mk n false).bytes = a + total pre + headerSize + n := by
    rw [bytes_mk, ← Nat.add_assoc]
  have hend : a + total pre + headerSize + n + (Cell.mk (b.size - n - headerSize) true).bytes =
      a + total pre + b.bytes := by
    rw [bytes_mk, Cell.bytes]
    omega
  obtain ⟨-, -, -, hx⟩ := holds_head (holds_append.mp hh).2
  rw [hcells] at hholds
  obtain ⟨hc, hd, -⟩ := (holds_append.mp hholds).2
  refine ⟨?_, ?_, ?_⟩
  · rw [hc, hnext]
    rfl
  · rw [hnext] at hd
    rw [hd, hend, hx]
    rfl
  · have htiles := holds_tiles hholds (by simp)
    rw [List.cons_append, List.cons_append, List.nil_append, addrs_split, addrs, hnext, hend]
      at htiles
    exact htiles

lemma carved_whole (hh : Holds h.mem h.heapEnd none a (pre ++ b :: post))
    (hholds : Holds (take h (a + total pre) n).mem h.heapEnd none a
      (pre ++ (allocated b n ++ post)))
    (hrest : b.size - n < headerSize + minBlockSize) :
    (take h (a + total pre) n).mem (a + total pre) =
      { h.mem (a + total pre) with isFree := false, magic := blockMagic } ∧
    Tiles (take h (a + total pre) n).mem h.heapEnd a (addrs a (pre ++ b :: post)) := by
  have hcells : allocated b n = [⟨b.size, false⟩] := by
    rw [allocated, if_pos hrest]
  rw [hcells] at hholds
  constructor
  · rw [(holds_append.mp hholds).2.1, (holds_append.mp hh).2.1]
    rfl
  · have htiles := holds_tiles hholds (by simp)
    rw [List.singleton_append, addrs_split] at htiles
    rw [addrs_split]
    exact htiles

lemma carved_others (hh : Holds h.mem e none a (pre ++ b :: post)) (hn : n ≤ b.size) {d : Nat}
    (hd : d ∈ addrs a pre ++ addrs (a + total pre + b.bytes) post) :
    (take h (a + total pre) n).mem d = h.mem d := by
  obtain ⟨hs, -, -, -⟩ := holds_head (holds_append.mp hh).2
  have hpos := b.bytes_pos
  rcases List.mem_append.mp hd with hd | hd
  · have := (mem_addrs hd).2
    rw [headerSize] at this
    apply take_frame
    · omega
    · omega
  · have := (mem_addrs hd).1
    apply take_frame
    · omega
    · intro hlast
      rw [Cell.bytes] at this
      rw [hs, headerSize]
      omega

end Allocation

lemma mallocSize_eq {n : Nat} (hn : n ≤ 2 ^ 64 - 8) :
    mallocSize n = max minBlockSize ((n + 7) / 8 * 8) := by
  have hmod : (n + 7) % sizeMod = n + 7 := by
    rw [sizeMod]
    omega
  rw [mallocSize, alignSize, hmod, Nat.max_def]
  split_ifs <;> omega

/-- `first_fit_malloc` of `n` bytes, which it rounds up to a multiple of 8 and at least 16: it
fails without a change if no free block has room, and else it allocates in the lowest one that
has. -/
theorem malloc_first_fit {σ : FirstFitSystem} {n : Nat}
    (h : Transition.Reach FirstFitSystem.Start FirstFitSystem.step (fun _ _ => True) σ)
    (h0 : 0 < n) (hn : n ≤ 2 ^ 64 - 8) :
    ∃ a l, σ.h.heapStart = some a ∧ Tiles σ.h.mem σ.h.heapEnd a l ∧
      ((σ.h.malloc n).2 = none ↔ ∀ c ∈ l, ¬BlockFits σ.h (max minBlockSize ((n + 7) / 8 * 8)) c) ∧
      ((σ.h.malloc n).2 = none → (σ.h.malloc n).1 = σ.h) ∧
      ∀ p, (σ.h.malloc n).2 = some p → ∃ pre c post, l = pre ++ c :: post ∧ p = c + headerSize ∧
        BlockFits σ.h (max minBlockSize ((n + 7) / 8 * 8)) c ∧
        (∀ d ∈ l, BlockFits σ.h (max minBlockSize ((n + 7) / 8 * 8)) d → c ≤ d) ∧
        Carved σ.h (σ.h.malloc n).1 a (max minBlockSize ((n + 7) / 8 * 8)) c pre post := by
  obtain ⟨a, bs, ht, -⟩ := reach_tiled h
  rw [← mallocSize_eq hn]
  refine ⟨a, addrs a bs, ht.start, holds_tiles ht.holds ht.cells, ?_⟩
  rw [hasRoom_forall ht.holds]
  rcases malloc_cases ht h0.ne' with ⟨hno, hall⟩ | ⟨pre, b, post, rfl, hfit, hpre, hfound, hholds⟩
  · rw [hno]
    exact ⟨⟨fun _ => hall, fun _ => rfl⟩, fun _ => rfl, by simp⟩
  · obtain ⟨hs, hf, -, -⟩ := holds_head (holds_append.mp ht.holds).2
    have hroom : BlockFits σ.h (mallocSize n) (a + total pre) := by
      rw [BlockFits, hs, hf]
      exact hfit
    rw [hfound]
    refine ⟨⟨by simp, fun hall => absurd hfit (hall b (by simp))⟩, by simp, ?_⟩
    rintro p ⟨⟩
    refine ⟨addrs a pre, a + total pre, addrs (a + total pre + b.bytes) post, addrs_split a pre post b,
      rfl, hroom, lowest_room ht.holds hpre, ?_, ?_, ?_, rfl⟩
    · intro hrest
      rw [hs] at hrest ⊢
      exact carved_split ht.holds hfit.2 hholds hrest
    · intro hrest
      rw [hs] at hrest
      rw [← addrs_split]
      exact carved_whole ht.holds hholds hrest
    · intro d hd
      exact carved_others ht.holds hfit.2 hd

theorem malloc_first_fit_sample : ∃ pre c post, (sampleAllocations.h.malloc 90).2 =
      some (c + headerSize) ∧
    Carved sampleAllocations.h (sampleAllocations.h.malloc 90).1 4104 96 c pre post := by
  have hreach : Transition.Reach FirstFitSystem.Start FirstFitSystem.step
      (fun _ _ => true = true) sampleAllocations :=
    Transition.Reach.final _ sampleHeap_start (by decide +kernel)
  obtain ⟨a, l, ha, -, -, -, hcarved⟩ := malloc_first_fit (n := 90)
    (hreach.mono fun _ _ _ => trivial) (by decide) (by decide)
  obtain ⟨pre, c, post, -, hp, -, -, hc⟩ := hcarved 4136 (by decide +kernel)
  have ha' : sampleAllocations.h.heapStart = some 4104 := by decide +kernel
  rw [ha'] at ha
  cases ha
  refine ⟨pre, c, post, ?_, hc⟩
  rw [← hp]
  decide +kernel

lemma mallocSize_wraps {n : Nat} (hn : ¬n ≤ 2 ^ 64 - 8) (hlt : n < sizeMod) :
    mallocSize n = minBlockSize := by
  rw [sizeMod] at hlt
  rw [mallocSize, alignSize, sizeMod]
  split_ifs
  · rfl
  · omega

/-- The size of a block is less than the heap. -/
lemma block_small {mem : Nat → MemoryBlock} {a e : Nat} {bs cs : List Cell}
    (hb : a + total bs = e) (hc : Holds mem e none a cs) : ∀ c ∈ addrs a cs,
    (mem c).size + headerSize ≤ total bs := by
  apply (holds_forall (fun b => b.size + headerSize ≤ total bs) hc).mpr
  intro b hmem
  have hend := holds_end hc
  have hle : b.bytes ≤ total cs := List.single_le_sum (by simp) _ (List.mem_map_of_mem hmem)
  rw [Cell.bytes] at hle
  omega

/-- `first_fit_malloc` returns a block of the requested size if the request can be rounded up
in a `size_t`. A larger request becomes the smallest one, which is met as soon as some free
block has 16 bytes. -/
theorem malloc_covers {σ : FirstFitSystem} {n : Nat}
    (h : Transition.Reach FirstFitSystem.Start FirstFitSystem.step (fun _ _ => True) σ)
    (hlt : n < sizeMod) :
    ∃ a l, σ.h.heapStart = some a ∧ Tiles σ.h.mem σ.h.heapEnd a l ∧
      ((∀ p, (σ.h.malloc n).2 = some p → n ≤ ((σ.h.malloc n).1.mem (p - headerSize)).size) ↔
        n ≤ 2 ^ 64 - 8 ∨ ∀ c ∈ l, ¬BlockFits σ.h minBlockSize c) := by
  obtain ⟨a, bs, ht, hsmall⟩ := reach_tiled h
  refine ⟨a, addrs a bs, ht.start, holds_tiles ht.holds ht.cells, ?_⟩
  by_cases hn : n ≤ 2 ^ 64 - 8
  · refine ⟨fun _ => .inl hn, fun _ p hp => ?_⟩
    have hsize := malloc_size ht hp
    have hround := mallocSize_eq hn
    omega
  · have h0 : n ≠ 0 := by omega
    have hmin := mallocSize_wraps hn hlt
    rw [hasRoom_forall ht.holds]
    rcases malloc_cases ht h0 with ⟨hno, hall⟩ | ⟨pre, b, post, rfl, hfit, -, hfound, hholds⟩
    · rw [hno]
      rw [hmin] at hall
      exact ⟨fun _ => .inr hall, by simp⟩
    · rw [hfound, hmin]
      rw [hmin] at hfit hholds
      refine ⟨fun hcov => ?_, fun hor => ?_⟩
      · have hcover := hcov _ rfl
        have hin : a + total pre ∈ addrs a (pre ++ (allocated b minBlockSize ++ post)) := by
          obtain ⟨c, cs, hc, -⟩ := allocated_cons b minBlockSize
          rw [hc, List.cons_append, addrs_split]
          simp
        have hle := block_small (holds_end ht.holds) hholds _ hin
        rw [Nat.add_sub_cancel] at hcover
        rw [headerSize] at hle
        rw [sizeMod] at hsmall hlt
        dsimp only at hcover
        omega
      · rcases hor with hle | hall
        · exact absurd hle hn
        · exact absurd hfit (hall b (by simp))

theorem malloc_covers_sample : ∃ a l, sampleAllocations.h.heapStart = some a ∧
    Tiles sampleAllocations.h.mem sampleAllocations.h.heapEnd a l ∧
      ((∀ p, (sampleAllocations.h.malloc 100).2 = some p →
        100 ≤ ((sampleAllocations.h.malloc 100).1.mem (p - headerSize)).size) ↔
        100 ≤ 2 ^ 64 - 8 ∨ ∀ c ∈ l, ¬BlockFits sampleAllocations.h minBlockSize c) := by
  have hreach : Transition.Reach FirstFitSystem.Start FirstFitSystem.step
      (fun _ _ => true = true) sampleAllocations :=
    Transition.Reach.final _ sampleHeap_start (by decide +kernel)
  exact malloc_covers (hreach.mono fun _ _ _ => trivial) (by decide)

/-- A request of the largest size is met with a block of 16 bytes. -/
theorem malloc_wraps :
    Transition.Reach FirstFitSystem.Start FirstFitSystem.step (fun _ _ => True) sampleHeap ∧
    ∃ p, (sampleHeap.h.malloc (2 ^ 64 - 1)).2 = some p ∧
      ((sampleHeap.h.malloc (2 ^ 64 - 1)).1.mem (p - headerSize)).size < 2 ^ 64 - 1 := by
  refine ⟨.start sampleHeap_start, 4136, ?_, ?_⟩
  · decide +kernel
  · decide +kernel

end TP2Kernel.Proofs
