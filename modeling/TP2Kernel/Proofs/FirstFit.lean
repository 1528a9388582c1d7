import TP2Kernel.FirstFit

/-!
# The block list tiles the heap

The allocator against a list of cells: the headers in memory hold the list, allocation
splits the first free cell that is large enough, and freeing merges neighbours that are
free. Addresses are the sums of the sizes before, so the tiling and the payloads follow
from the list.
-/

namespace TP2Kernel.Proofs
open Function FirstFit

/-- A block without its links. -/
structure Cell where
  size : Nat
  isFree : Bool

/-- The block is free and has room for `n` bytes. -/
def Cell.Fits (b : Cell) (n : Nat) : Prop := b.isFree = true ∧ n ≤ b.size

/-- The bytes that a block takes. -/
def Cell.bytes (b : Cell) : Nat := headerSize + b.size

lemma Cell.bytes_pos (b : Cell) : 0 < b.bytes := by
  rw [Cell.bytes, headerSize]
  omega

lemma bytes_mk (n : Nat) (isFree : Bool) : (Cell.mk n isFree).bytes = headerSize + n := rfl

lemma bytes_merge (b c : Cell) : (Cell.mk (b.size + c.bytes) true).bytes = b.bytes + c.bytes := by
  simp only [Cell.bytes]
  omega

/-- The magic number that goes with the flag. -/
def magicOf (isFree : Bool) : Nat := if isFree then freeMagic else blockMagic

/-- From address `a` on, memory holds the cells `bs`, which end at `e`; the last one links
to `nx`. -/
def Holds (mem : Nat → MemoryBlock) (e : Nat) (nx : Option Nat) : Nat → List Cell → Prop
  | a, [] => a = e
  | a, b :: bs =>
    mem a = ⟨b.size, b.isFree, if bs.isEmpty then nx else some (a + b.bytes), magicOf b.isFree⟩ ∧
      Holds mem e nx (a + b.bytes) bs

/-- The address of each cell. -/
def addrs : Nat → List Cell → List Nat
  | _, [] => []
  | a, b :: bs => a :: addrs (a + b.bytes) bs

/-- The pointers to the cells that are not free. -/
def payloads : Nat → List Cell → List Nat
  | _, [] => []
  | a, b :: bs => (if b.isFree then [] else [a + headerSize]) ++ payloads (a + b.bytes) bs

/-- The bytes of a list of cells. -/
def total (bs : List Cell) : Nat := (bs.map Cell.bytes).sum

lemma total_cons (b : Cell) (bs : List Cell) : total (b :: bs) = b.bytes + total bs := by
  simp [total]

lemma total_append (bs cs : List Cell) : total (bs ++ cs) = total bs + total cs := by
  simp [total]

section Holds

variable {mem mem' : Nat → MemoryBlock} {a e : Nat} {nx : Option Nat} {b c : Cell} {bs cs : List Cell}

lemma holds_end (h : Holds mem e nx a bs) : a + total bs = e := by
  induction bs generalizing a with
  | nil => exact h
  | cons b bs ih =>
    rw [total_cons, ← Nat.add_assoc]
    exact ih h.2

lemma mem_addrs {x : Nat} (h : x ∈ addrs a bs) : a ≤ x ∧ x + headerSize ≤ a + total bs := by
  induction bs generalizing a with
  | nil => simp [addrs] at h
  | cons b bs ih =>
    rw [total_cons]
    rcases List.mem_cons.mp h with rfl | h
    · simp only [Cell.bytes]
      omega
    · have := ih h
      simp only [Cell.bytes] at this ⊢
      omega

lemma length_le_total (bs : List Cell) : headerSize * bs.length ≤ total bs := by
  induction bs with
  | nil => simp [total]
  | cons b bs ih =>
    rw [total_cons, List.length_cons, Nat.mul_add, Cell.bytes]
    omega

lemma holds_cons : Holds mem e nx a (b :: bs) ↔
    mem a = ⟨b.size, b.isFree, if bs.isEmpty then nx else some (a + b.bytes), magicOf b.isFree⟩ ∧
      Holds mem e nx (a + b.bytes) bs := Iff.rfl

lemma holds_congr (hm : ∀ x ∈ addrs a bs, mem' x = mem x) (h : Holds mem e nx a bs) :
    Holds mem' e nx a bs := by
  induction bs generalizing a with
  | nil => exact h
  | cons b bs ih =>
    refine ⟨(hm a (by simp [addrs])).trans h.1, ih (fun x hx => hm x ?_) h.2⟩
    exact List.mem_cons_of_mem a hx

/-- Writes below the cells and into their payloads do not matter. -/
lemma holds_below (hm : ∀ x, a ≤ x → mem' x = mem x) (h : Holds mem e nx a bs) :
    Holds mem' e nx a bs := holds_congr (fun x hx => hm x (mem_addrs hx).1) h

lemma holds_append : Holds mem e nx a (bs ++ c :: cs) ↔
    Holds mem (a + total bs) (some (a + total bs)) a bs ∧ Holds mem e nx (a + total bs) (c :: cs) := by
  induction bs generalizing a with
  | nil => simp [Holds, total]
  | cons b bs ih =>
    have ha : a + total (b :: bs) = a + b.bytes + total bs := by
      rw [total_cons, Nat.add_assoc]
    rw [List.cons_append, holds_cons, ih, ha, @holds_cons mem a _ _ b bs,
      and_assoc]
    cases bs with
    | nil => simp [total]
    | cons d ds => simp

lemma payloads_append : payloads a (bs ++ cs) = payloads a bs ++ payloads (a + total bs) cs := by
  induction bs generalizing a with
  | nil => simp [payloads, total]
  | cons b bs ih =>
    simp only [List.cons_append, payloads, ih, List.append_assoc, total_cons, Nat.add_assoc]

lemma addrs_append : addrs a (bs ++ cs) = addrs a bs ++ addrs (a + total bs) cs := by
  induction bs generalizing a with
  | nil => simp [addrs, total]
  | cons b bs ih =>
    simp only [List.cons_append, addrs, ih, total_cons, Nat.add_assoc]

lemma holds_head (h : Holds mem e nx a (b :: bs)) : (mem a).size = b.size ∧
    (mem a).isFree = b.isFree ∧ (mem a).magic = magicOf b.isFree ∧
    (mem a).next = if bs.isEmpty then nx else some (a + b.bytes) := by
  rw [h.1]
  exact ⟨rfl, rfl, rfl, rfl⟩

end Holds

section Find

variable {mem : Nat → MemoryBlock} {a e n : Nat} {bs : List Cell}

/-- `find_free_block` returns the first free cell that is large enough, or there is none. -/
lemma findLoop_spec (size : Nat) (h : Holds mem e none a bs) (hn : bs.length ≤ n) :
    (findLoop mem size n (if bs.isEmpty then none else some a) = none ∧ ∀ b ∈ bs, ¬b.Fits size) ∨
    ∃ pre b post, bs = pre ++ b :: post ∧ b.Fits size ∧ (∀ c ∈ pre, ¬c.Fits size) ∧
      findLoop mem size n (if bs.isEmpty then none else some a) = some (a + total pre) := by
  induction bs generalizing a n with
  | nil =>
    left
    cases n <;> exact ⟨rfl, by simp⟩
  | cons b bs ih =>
    obtain ⟨n, rfl⟩ : ∃ m, n = m + 1 := ⟨n - 1, by simp at hn; omega⟩
    obtain ⟨hs, hf, -, hx⟩ := holds_head h
    simp only [List.isEmpty_cons, Bool.false_eq_true, if_false, findLoop, hs, hf, hx]
    by_cases hfit : b.isFree = true ∧ size ≤ b.size
    · right
      exact ⟨[], b, bs, rfl, hfit, by simp, by simp [hfit, total]⟩
    · rw [if_neg hfit]
      rcases ih h.2 (by simpa using hn) with ⟨hno, hall⟩ | ⟨pre, c, post, rfl, hc, hpre, hfound⟩
      · left
        exact ⟨hno, List.forall_mem_cons.mpr ⟨hfit, hall⟩⟩
      · right
        refine ⟨b :: pre, c, post, rfl, hc, List.forall_mem_cons.mpr ⟨hfit, hpre⟩, ?_⟩
        apply hfound.trans
        rw [total_cons, Nat.add_assoc]

end Find

/-- Merge neighbours that are both free. -/
def coalesce : List Cell → List Cell
  | [] => []
  | [b] => [b]
  | b :: c :: bs =>
    if b.isFree && c.isFree then coalesce (⟨b.size + c.bytes, true⟩ :: bs)
    else b :: coalesce (c :: bs)
termination_by bs => bs.length

lemma coalesce_ne_nil (b : Cell) (bs : List Cell) : coalesce (b :: bs) ≠ [] := by
  induction bs generalizing b with
  | nil => simp [coalesce]
  | cons c bs ih =>
    rw [coalesce]
    split
    · exact ih _
    · simp

section Coalesce

variable {mem : Nat → MemoryBlock} {a e n : Nat} {bs : List Cell}

/-- The header of two blocks that were merged. -/
def merged (b c : MemoryBlock) : MemoryBlock :=
  { b with size := b.size + (headerSize + c.size), next := c.next }

lemma coalesceLoop_some {c next : Nat} (hx : (mem c).next = some next) :
    coalesceLoop (n + 1) (some c) mem =
      if (mem c).isFree ∧ (mem next).isFree ∧ c + headerSize + (mem c).size = next then
        coalesceLoop n (some c) (update mem c (merged (mem c) (mem next)))
      else coalesceLoop n (some next) mem := by
  rw [coalesceLoop]
  simp only [hx]
  rfl

/-- Two free neighbours become one cell. -/
lemma holds_merge {b c : Cell} (h : Holds mem e none a (b :: c :: bs)) (hb : b.isFree = true) :
    Holds (update mem a (merged (mem a) (mem (a + b.bytes)))) e none a
      (⟨b.size + c.bytes, true⟩ :: bs) := by
  obtain ⟨h1, h2, h3⟩ := h
  have ha : a + b.bytes + c.bytes = a + (Cell.mk (b.size + c.bytes) true).bytes := by
    rw [bytes_merge, Nat.add_assoc]
  have hpos := b.bytes_pos
  constructor
  · rw [update_self, h1, h2, hb, ha]
    rfl
  · rw [← ha]
    apply holds_below _ h3
    intro x hx
    apply update_of_ne
    omega

/-- `coalesce_blocks` merges the neighbours that are both free, and writes no header below
the cell it starts at. -/
lemma coalesceLoop_spec (h : Holds mem e none a bs) (hne : bs ≠ []) (hn : bs.length ≤ n) :
    Holds (coalesceLoop n (some a) mem) e none a (coalesce bs) ∧
      ∀ x, x < a → coalesceLoop n (some a) mem x = mem x := by
  induction n generalizing a bs mem with
  | zero =>
    simp at hn
    exact absurd hn hne
  | succ n ih =>
    match bs, hne with
    | [b], _ =>
      obtain ⟨-, -, -, hx⟩ := holds_head h
      rw [coalesce, coalesceLoop]
      simp only [hx, List.isEmpty_nil, if_true]
      exact ⟨h, fun _ _ => trivial⟩
    | b :: c :: bs, _ =>
      obtain ⟨hs, hf, -, hx⟩ := holds_head h
      obtain ⟨-, hf', -, -⟩ := holds_head h.2
      have hadj : a + headerSize + (mem a).size = a + b.bytes := by
        rw [hs, Cell.bytes, Nat.add_assoc]
      have hx' : (mem a).next = some (a + b.bytes) := by simpa using hx
      rw [coalesceLoop_some hx', coalesce]
      simp only [hf, hf', hadj, and_true, Bool.and_eq_true]
      by_cases hfree : b.isFree = true ∧ c.isFree = true
      · rw [if_pos hfree, if_pos hfree]
        obtain ⟨h1, h2⟩ := ih (holds_merge h hfree.1) (by simp) (by simpa using hn)
        refine ⟨h1, fun x hx => (h2 x hx).trans (update_of_ne (by omega) _ _)⟩
      · rw [if_neg hfree, if_neg hfree]
        obtain ⟨h1, h2⟩ := ih h.2 (by simp) (by simpa using hn)
        have hlt : ∀ x, x ≤ a → x < a + b.bytes := by
          intro x hx
          have := b.bytes_pos
          omega
        refine ⟨⟨?_, h1⟩, fun x hx => h2 x (hlt x hx.le)⟩
        rw [h2 a (hlt a le_rfl), h.1]
        simp [coalesce_ne_nil]

lemma coalesce_head (b : Cell) (bs : List Cell) :
    ∃ c cs, coalesce (b :: bs) = c :: cs ∧ c.isFree = b.isFree := by
  induction bs generalizing b with
  | nil => exact ⟨b, [], by rw [coalesce], rfl⟩
  | cons c bs ih =>
    rw [coalesce]
    split
    · rename_i h
      obtain ⟨d, ds, hd, hf⟩ := ih ⟨b.size + c.bytes, true⟩
      refine ⟨d, ds, hd, hf.trans ?_⟩
      simp_all
    · exact ⟨b, _, rfl, rfl⟩

/-- No two neighbours are free. -/
def Merged (bs : List Cell) : Prop := bs.IsChain fun b c => ¬(b.isFree = true ∧ c.isFree = true)

lemma merged_coalesce (bs : List Cell) : Merged (coalesce bs) := by
  induction bs using coalesce.induct with
  | case1 =>
    rw [coalesce]
    exact .nil
  | case2 b =>
    rw [coalesce]
    exact .singleton b
  | case3 b c bs h ih =>
    rw [coalesce, if_pos h]
    exact ih
  | case4 b c bs h ih =>
    rw [coalesce, if_neg h]
    obtain ⟨d, ds, hd, hf⟩ := coalesce_head c bs
    rw [Merged, hd] at ih ⊢
    refine .cons_cons ?_ ih
    rw [hf]
    simpa using h

lemma coalesce_of_merged {bs : List Cell} (h : Merged bs) : coalesce bs = bs := by
  induction bs using coalesce.induct with
  | case1 => rw [coalesce]
  | case2 b => rw [coalesce]
  | case3 b c bs hf ih => exact absurd (by simpa using hf) (List.isChain_cons_cons.mp h).1
  | case4 b c bs hf ih => rw [coalesce, if_neg hf, ih (List.isChain_cons_cons.mp h).2]

lemma payloads_coalesce (a : Nat) (bs : List Cell) : payloads a (coalesce bs) = payloads a bs := by
  induction bs using coalesce.induct generalizing a with
  | case1 => rw [coalesce]
  | case2 b => rw [coalesce]
  | case3 b c bs h ih =>
    rw [coalesce, if_pos h, ih]
    rw [Bool.and_eq_true] at h
    simp [payloads, bytes_merge, h, Nat.add_assoc]
  | case4 b c bs h ih =>
    rw [coalesce, if_neg h, payloads, ih]
    rfl

lemma addrs_coalesce (a : Nat) (bs : List Cell) : ∀ x ∈ addrs a (coalesce bs), x ∈ addrs a bs := by
  induction bs using coalesce.induct generalizing a with
  | case1 => simp [coalesce]
  | case2 b => simp [coalesce]
  | case3 b c bs h ih =>
    rw [coalesce, if_pos h]
    intro x hx
    have := ih a x hx
    simp only [addrs, bytes_merge, ← Nat.add_assoc, List.mem_cons] at this ⊢
    tauto
  | case4 b c bs h ih =>
    rw [coalesce, if_neg h]
    intro x hx
    rcases List.mem_cons.mp hx with rfl | hx
    · exact List.mem_cons_self
    · exact List.mem_cons_of_mem _ (ih _ x hx)

end Coalesce

section Operations

variable {mem mem' : Nat → MemoryBlock} {a e n : Nat} {b : Cell} {pre post : List Cell}

/-- The cells from one address on are replaced. -/
lemma holds_replace {c : Cell} {cs : List Cell} (h : Holds mem e none a (pre ++ b :: post))
    (hm : ∀ x, x + headerSize ≤ a + total pre → mem' x = mem x)
    (hc : Holds mem' e none (a + total pre) (c :: cs)) : Holds mem' e none a (pre ++ c :: cs) := by
  refine holds_append.mpr ⟨holds_congr (fun x hx => hm x (mem_addrs hx).2) (holds_append.mp h).1, hc⟩

/-- The cells that replace a free cell of which `n` bytes are allocated. -/
def allocated (b : Cell) (n : Nat) : List Cell :=
  if b.size - n < headerSize + minBlockSize then [⟨b.size, false⟩]
  else [⟨n, false⟩, ⟨b.size - n - headerSize, true⟩]

lemma allocated_cons (b : Cell) (n : Nat) : ∃ c cs, allocated b n = c :: cs ∧ c.isFree = false := by
  unfold allocated
  split
  · exact ⟨_, [], rfl, rfl⟩
  · exact ⟨_, _, rfl, rfl⟩

lemma total_allocated (b : Cell) {n : Nat} (hn : n ≤ b.size) : total (allocated b n) = b.bytes := by
  unfold allocated
  split
  · simp [total, Cell.bytes]
  · simp only [total, Cell.bytes, List.map_cons, List.map_nil, List.sum_cons, List.sum_nil]
    omega

/-- The part of `first_fit_malloc` behind the search. -/
def take (h : FirstFit) (block size : Nat) : FirstFit :=
  (h.splitBlock block size).write block
    { (h.splitBlock block size).mem block with isFree := false, magic := blockMagic }

lemma holds_allocated {h : FirstFit} (hh : Holds h.mem e none a (b :: post)) (hb : b.isFree = true)
    (hn : n ≤ b.size) : Holds (take h a n).mem e none a (allocated b n ++ post) ∧
      ∀ x, x < a → (take h a n).mem x = h.mem x := by
  obtain ⟨hs, hf, -, hx⟩ := holds_head hh
  unfold take allocated splitBlock
  simp only [hf, hb, Bool.true_eq_false, if_false, hs]
  have hpos := b.bytes_pos
  by_cases hrem : b.size - n < headerSize + minBlockSize
  · simp only [if_pos hrem, write]
    refine ⟨⟨?_, ?_⟩, fun x hx => update_of_ne (by omega) _ _⟩
    · rw [update_self, hh.1]
      rfl
    · apply holds_below _ hh.2
      intro x hx
      apply update_of_ne
      have hx' : a + b.bytes ≤ x := hx
      omega
  · simp only [if_neg hrem, write, update_self]
    have hne : a ≠ a + headerSize + n := by
      rw [headerSize]
      omega
    have hnext : a + (Cell.mk n false).bytes = a + headerSize + n := by
      rw [bytes_mk]
      omega
    have hend : a + headerSize + n + (Cell.mk (b.size - n - headerSize) true).bytes = a + b.bytes := by
      rw [bytes_mk, Cell.bytes]
      omega
    refine ⟨⟨?_, ?_, ?_⟩, fun x hx => ?_⟩
    · rw [update_self, hnext]
      rfl
    · rw [hnext, update_of_ne hne.symm, update_of_ne hne.symm, update_self, hend, hx]
      rfl
    · rw [hnext, hend]
      apply holds_below _ hh.2
      intro x hx
      have hlt : a + headerSize + n < a + b.bytes := by
        rw [Cell.bytes, headerSize] at *
        omega
      rw [update_of_ne (by omega), update_of_ne (by omega), update_of_ne (by omega)]
    · rw [update_of_ne (by omega), update_of_ne (by omega), update_of_ne (by omega)]

lemma merged_allocated (h : Merged (pre ++ b :: post)) (hb : b.isFree = true) :
    Merged (pre ++ (allocated b n ++ post)) := by
  obtain ⟨h1, h2, -⟩ := List.isChain_append.mp h
  have h3 : Merged post := h2.tail
  refine List.isChain_append.mpr ⟨h1, ?_, ?_⟩
  · unfold allocated
    split
    · rw [List.singleton_append]
      cases post with
      | nil => exact .singleton _
      | cons c post => exact .cons_cons (by simp) h3
    · cases post with
      | nil => exact .cons_cons (by simp) (.singleton _)
      | cons c post =>
        refine .cons_cons (by simp) (.cons_cons ?_ h3)
        have := List.isChain_cons_cons.mp h2
        simpa [hb] using this.1
  · obtain ⟨c, cs, hc, hf⟩ := allocated_cons b n
    rw [hc]
    simp [hf]

lemma payloads_allocated (a : Nat) (hb : b.isFree = true) (hn : n ≤ b.size) :
    payloads a (allocated b n ++ post) = (a + headerSize) :: payloads a (b :: post) := by
  rw [payloads_append, total_allocated b hn]
  simp only [payloads, hb, if_true, List.nil_append]
  unfold allocated
  split <;> simp [payloads]

lemma mem_payloads {x : Nat} {bs : List Cell} (h : x ∈ payloads a bs) : ∃ pre b post,
    bs = pre ++ b :: post ∧ b.isFree = false ∧ x = a + total pre + headerSize := by
  induction bs generalizing a with
  | nil => simp [payloads] at h
  | cons b bs ih =>
    rw [payloads] at h
    rcases List.mem_append.mp h with h | h
    · split at h
      · simp at h
      · rename_i hb
        refine ⟨[], b, bs, rfl, by simpa using hb, ?_⟩
        simpa [total] using h
    · obtain ⟨pre, c, post, rfl, hc, rfl⟩ := ih h
      exact ⟨b :: pre, c, post, rfl, hc, by rw [total_cons, ← Nat.add_assoc a]⟩

/-- A pointer to a block behind `x` is not below it. -/
lemma payloads_bound {x : Nat} {bs : List Cell} (h : x ∈ payloads a bs) :
    a + headerSize ≤ x ∧ x ≤ a + total bs := by
  obtain ⟨pre, b, post, rfl, -, rfl⟩ := mem_payloads h
  rw [total_append, total_cons, Cell.bytes]
  omega

end Operations

/-- The heap holds a list of cells that tile it, in which no two free ones are neighbours,
and the live pointers are those of the cells that are not free. -/
structure Tiled (σ : FirstFitSystem) (a : Nat) (bs : List Cell) : Prop where
  initialized : σ.h.initialized = true
  start : σ.h.heapStart = some a
  cells : bs ≠ []
  holds : Holds σ.h.mem σ.h.heapEnd none a bs
  size : σ.h.totalHeapSize = total bs
  merged : Merged bs
  aligned : ∀ x ∈ addrs a bs, x % 8 = 0
  live : σ.live.Perm (payloads a bs)
  count : σ.h.currentAllocatedBlocks = σ.live.length

lemma alignSize_mod (n : Nat) : alignSize n % 8 = 0 := by
  unfold alignSize
  omega

lemma start_tiled {σ : FirstFitSystem} (h : σ.Start) : ∃ a bs, Tiled σ a bs := by
  obtain ⟨h, startAddr, totalSize, h0, hwrap, hsize, rfl⟩ := h
  have hlt : ¬(startAddr = 0 ∨ totalSize < headerSize) := by
    rintro (h1 | h1)
    · exact h0 h1
    · omega
  have hb : (Cell.mk (totalSize - (alignSize startAddr - startAddr) - headerSize) true).bytes =
      totalSize - (alignSize startAddr - startAddr) := by
    simp only [Cell.bytes]
    omega
  refine ⟨alignSize startAddr, [⟨totalSize - (alignSize startAddr - startAddr) - headerSize, true⟩],
    ?_⟩
  unfold FirstFit.init
  rw [if_neg hlt]
  refine ⟨rfl, rfl, by simp, ⟨?_, ?_⟩, ?_, .singleton _, ?_, .refl _, rfl⟩
  · simp [magicOf]
  · rw [hb]
    rfl
  · rw [total_cons, hb]
    rfl
  · intro x hx
    have : x = alignSize startAddr := by simpa [addrs] using hx
    rw [this]
    exact alignSize_mod startAddr

/-- The size that `first_fit_malloc` looks for. -/
def mallocSize (n : Nat) : Nat :=
  if alignSize n < minBlockSize then minBlockSize else alignSize n

lemma mallocSize_mod (n : Nat) : mallocSize n % 8 = 0 := by
  unfold mallocSize
  split
  · rfl
  · exact alignSize_mod n

lemma malloc_eq (h : FirstFit) (n : Nat) (hi : h.initialized = true) : h.malloc n =
    if n = 0 then (h, none)
    else match h.findFreeBlock (mallocSize n) with
      | none => (h, none)
      | some block =>
        ({ take h block (mallocSize n) with
          totalAllocations := (take h block (mallocSize n)).totalAllocations + 1
          currentAllocatedBlocks := (take h block (mallocSize n)).currentAllocatedBlocks + 1 },
          some (block + headerSize)) := by
  unfold FirstFit.malloc
  simp only [hi, Bool.true_eq_false, false_or]
  rfl

lemma take_static (h : FirstFit) (block n : Nat) :
    take h block n = { h with mem := (take h block n).mem } := by
  unfold take FirstFit.splitBlock
  dsimp only
  split_ifs <;> rfl

lemma aligned_allocated {a n : Nat} {b : Cell} {pre post : List Cell}
    (h : ∀ x ∈ addrs a (pre ++ b :: post), x % 8 = 0) (hn : n % 8 = 0) (hb : n ≤ b.size) :
    ∀ x ∈ addrs a (pre ++ (allocated b n ++ post)), x % 8 = 0 := by
  rw [addrs_append] at h
  have hm : (a + total pre) % 8 = 0 := h _ (List.mem_append_right _ List.mem_cons_self)
  intro x hx
  rw [addrs_append, addrs_append, total_allocated b hb] at hx
  rcases List.mem_append.mp hx with hx | hx
  · exact h x (List.mem_append_left _ hx)
  · rcases List.mem_append.mp hx with hx | hx
    · have hx' : x = a + total pre ∨ x = a + total pre + (Cell.mk n false).bytes := by
        unfold allocated at hx
        split at hx
        · exact .inl (by simpa [addrs] using hx)
        · simpa [addrs] using hx
      rw [bytes_mk, headerSize] at hx'
      omega
    · exact h x (List.mem_append_right _ (List.mem_cons_of_mem _ hx))

/-- Allocation writes the header of the block and, if it splits it, the one of the rest. -/
lemma take_frame {h : FirstFit} {block n x : Nat} (hx : x ≠ block)
    (hx' : x = block + headerSize + n → (h.mem block).size - n < headerSize + minBlockSize) :
    (take h block n).mem x = h.mem x := by
  unfold take FirstFit.splitBlock
  dsimp only
  split_ifs with hf hrem
  · simp [write, hx]
  · simp [write, hx]
  · have hne : x ≠ block + headerSize + n := fun h => hrem (hx' h)
    simp [write, hx, hne]

lemma Tiled.length {σ : FirstFitSystem} {a : Nat} {bs : List Cell} (h : Tiled σ a bs) :
    bs.length ≤ σ.h.totalHeapSize := by
  have := length_le_total bs
  rw [h.size]
  rw [headerSize] at this
  omega

/-- `first_fit_malloc` of `n > 0` bytes fails if no cell fits, and else allocates in the first
one that does. -/
lemma malloc_cases {σ : FirstFitSystem} {a n : Nat} {bs : List Cell} (h : Tiled σ a bs)
    (hn : n ≠ 0) :
    (σ.h.malloc n = (σ.h, none) ∧ ∀ b ∈ bs, ¬b.Fits (mallocSize n)) ∨
    ∃ pre b post, bs = pre ++ b :: post ∧ b.Fits (mallocSize n) ∧
      (∀ c ∈ pre, ¬c.Fits (mallocSize n)) ∧
      σ.h.malloc n = ({ σ.h with
        mem := (take σ.h (a + total pre) (mallocSize n)).mem
        totalAllocations := σ.h.totalAllocations + 1
        currentAllocatedBlocks := σ.h.currentAllocatedBlocks + 1 },
        some (a + total pre + headerSize)) ∧
      Holds (take σ.h (a + total pre) (mallocSize n)).mem σ.h.heapEnd none a
        (pre ++ (allocated b (mallocSize n) ++ post)) := by
  have hempty : bs.isEmpty = false := by simpa using h.cells
  have hfind := findLoop_spec (mallocSize n) h.holds h.length
  rw [hempty, if_neg (by simp)] at hfind
  rw [malloc_eq _ _ h.initialized, if_neg hn]
  unfold FirstFit.findFreeBlock
  rw [h.start]
  rcases hfind with ⟨hno, hall⟩ | ⟨pre, b, post, rfl, hfit, hpre, hfound⟩
  · left
    rw [hno]
    exact ⟨rfl, hall⟩
  · right
    obtain ⟨h1, h2⟩ := holds_allocated (holds_append.mp h.holds).2 hfit.1 hfit.2
    obtain ⟨c, cs, hc, -⟩ := allocated_cons b (mallocSize n)
    refine ⟨pre, b, post, rfl, hfit, hpre, ?_, ?_⟩
    · rw [hfound]
      dsimp only
      rw [take_static]
    · rw [hc, List.cons_append] at h1 ⊢
      apply holds_replace h.holds _ h1
      intro x hx
      apply h2
      rw [headerSize] at hx
      omega

lemma malloc_zero {h : FirstFit} (hi : h.initialized = true) : h.malloc 0 = (h, none) := by
  rw [malloc_eq _ _ hi, if_pos rfl]

/-- The cells behind an allocation of `n` bytes in the cell `b`. -/
lemma tiled_take {σ : FirstFitSystem} {a n : Nat} {b : Cell} {pre post : List Cell}
    (h : Tiled σ a (pre ++ b :: post)) (hb : b.Fits (mallocSize n))
    (hfound : σ.h.malloc n = ({ σ.h with
      mem := (take σ.h (a + total pre) (mallocSize n)).mem
      totalAllocations := σ.h.totalAllocations + 1
      currentAllocatedBlocks := σ.h.currentAllocatedBlocks + 1 },
      some (a + total pre + headerSize)))
    (hholds : Holds (take σ.h (a + total pre) (mallocSize n)).mem σ.h.heapEnd none a
      (pre ++ (allocated b (mallocSize n) ++ post))) :
    Tiled ⟨(σ.h.malloc n).1, σ.live ++ (σ.h.malloc n).2.toList⟩ a
      (pre ++ (allocated b (mallocSize n) ++ post)) := by
  obtain ⟨hfree, hsize⟩ := hb
  rw [hfound]
  have hlive : (σ.live ++ [a + total pre + headerSize]).Perm
      (payloads a (pre ++ (allocated b (mallocSize n) ++ post))) := by
    have hl := h.live
    rw [payloads_append] at hl ⊢
    rw [payloads_allocated _ hfree hsize]
    exact (List.perm_append_singleton _ _).trans ((hl.cons _).trans List.perm_middle.symm)
  obtain ⟨c, cs, hc, -⟩ := allocated_cons b (mallocSize n)
  refine ⟨h.initialized, h.start, by simp [hc], hholds, ?_, merged_allocated h.merged hfree, ?_,
    hlive, ?_⟩
  · show σ.h.totalHeapSize = _
    rw [h.size, total_append, total_append, total_append, total_allocated b hsize, total_cons]
  · exact aligned_allocated h.aligned (mallocSize_mod n) hsize
  · show σ.h.currentAllocatedBlocks + 1 = (σ.live ++ [a + total pre + headerSize]).length
    rw [h.count, List.length_append]
    rfl

theorem tiled_malloc {σ : FirstFitSystem} {a : Nat} {bs : List Cell} (h : Tiled σ a bs) (n : Nat) :
    ∃ bs', Tiled ⟨(σ.h.malloc n).1, σ.live ++ (σ.h.malloc n).2.toList⟩ a bs' := by
  have hnone : Tiled ⟨σ.h, σ.live ++ (none : Option Nat).toList⟩ a bs := by
    rw [Option.toList_none, List.append_nil]
    exact h
  by_cases hn : n = 0
  · rw [hn, malloc_zero h.initialized]
    exact ⟨bs, hnone⟩
  rcases malloc_cases h hn with ⟨hno, -⟩ | ⟨pre, b, post, rfl, hb, -, hfound, hholds⟩
  · rw [hno]
    exact ⟨bs, hnone⟩
  · exact ⟨_, tiled_take h hb hfound hholds⟩

lemma mallocSize_ge {n : Nat} (hn : n + 7 < sizeMod) : n ≤ mallocSize n := by
  unfold mallocSize alignSize
  rw [Nat.mod_eq_of_lt hn]
  split <;> omega

lemma allocated_size {c : Cell} {cs : List Cell} {b : Cell} {n : Nat} (h : allocated b n = c :: cs)
    (hn : n ≤ b.size) : n ≤ c.size := by
  unfold allocated at h
  split at h
  · cases h
    exact hn
  · cases h
    exact le_rfl

/-- A block that `first_fit_malloc` returns has at least the size it looks for. -/
lemma malloc_size {σ : FirstFitSystem} {a n p : Nat} {bs : List Cell} (h : Tiled σ a bs)
    (hp : (σ.h.malloc n).2 = some p) :
    mallocSize n ≤ ((σ.h.malloc n).1.mem (p - headerSize)).size := by
  by_cases hn : n = 0
  · rw [hn, malloc_zero h.initialized] at hp
    cases hp
  rcases malloc_cases h hn with ⟨hno, -⟩ | ⟨pre, b, post, rfl, ⟨hb, hsize⟩, -, hfound, hholds⟩
  · rw [hno] at hp
    cases hp
  · rw [hfound] at hp ⊢
    cases hp
    obtain ⟨c, cs, hc, -⟩ := allocated_cons b (mallocSize n)
    rw [hc, List.cons_append] at hholds
    obtain ⟨hs, -, -, -⟩ := holds_head (holds_append.mp hholds).2
    rw [Nat.add_sub_cancel, hs]
    exact allocated_size hc hsize

/-- Clearing the payload of a block leaves every header of the list alone. -/
lemma holds_memset {mem : Nat → MemoryBlock} {a e : Nat} {b : Cell} {pre post : List Cell}
    (h : Holds mem e none a (pre ++ b :: post)) :
    Holds (memsetZero mem (a + total pre + headerSize) b.size) e none a (pre ++ b :: post) := by
  apply holds_congr _ h
  intro x hx
  unfold memsetZero
  rw [if_neg]
  rintro ⟨h1, h2⟩
  rw [addrs_append, addrs] at hx
  rcases List.mem_append.mp hx with hx | hx
  · have := (mem_addrs hx).2
    omega
  · rcases List.mem_cons.mp hx with hx | hx
    · omega
    · have := (mem_addrs hx).1
      rw [Cell.bytes] at this
      omega

/-- The part of `first_fit_free` behind the checks. -/
def release (h : FirstFit) (p : Nat) : FirstFit :=
  { h with
    mem := coalesceLoop h.totalHeapSize h.heapStart (memsetZero
      (update h.mem (p - headerSize) { h.mem (p - headerSize) with isFree := true, magic := freeMagic })
      p (h.mem (p - headerSize)).size)
    totalFrees := h.totalFrees + 1
    currentAllocatedBlocks := h.currentAllocatedBlocks - 1 }

lemma free_eq {h : FirstFit} {a p : Nat} (hi : h.initialized = true) (hs : h.heapStart = some a)
    (hm : (h.mem (p - headerSize)).magic = blockMagic) (hf : (h.mem (p - headerSize)).isFree = false)
    (ha : a ≤ p - headerSize) (he : p - headerSize < h.heapEnd) : h.free (some p) = release h p := by
  unfold FirstFit.free release FirstFit.coalesceBlocks FirstFit.write
  simp only [hi, hs, hm, hf, Bool.true_eq_false, Bool.false_eq_true, not_lt.mpr ha, not_le.mpr he,
    ne_eq, not_true, or_self, if_false]

/-- The cells behind a release of the cell `b`. -/
lemma tiled_release {σ : FirstFitSystem} {a : Nat} {b : Cell} {pre post : List Cell}
    (h : Tiled σ a (pre ++ b :: post)) (hb : b.isFree = false) :
    a + total pre + headerSize ∈ σ.live ∧
      Tiled ⟨σ.h.free (some (a + total pre + headerSize)),
        σ.live.erase (a + total pre + headerSize)⟩ a
        (coalesce (pre ++ ⟨b.size, true⟩ :: post)) := by
  obtain ⟨h1, h2⟩ := holds_append.mp h.holds
  obtain ⟨hsize, hfree, hmagic, -⟩ := holds_head h2
  have hlen := length_le_total (pre ++ ⟨b.size, true⟩ :: post)
  have htot : total (pre ++ ⟨b.size, true⟩ :: post) = total (pre ++ b :: post) := by
    rw [total_append, total_append, total_cons, total_cons]
    rfl
  have hend := holds_end h.holds
  have hpos := b.bytes_pos
  have hmark : Holds (update σ.h.mem (a + total pre) { σ.h.mem (a + total pre) with
      isFree := true, magic := freeMagic }) σ.h.heapEnd none a (pre ++ ⟨b.size, true⟩ :: post) := by
    apply holds_replace h.holds
    · intro x hx
      apply update_of_ne
      rw [headerSize] at hx
      omega
    · constructor
      · rw [update_self, h2.1]
        rfl
      · apply holds_below _ h2.2
        intro x hx
        apply update_of_ne
        have hx' : a + total pre + b.bytes ≤ x := hx
        omega
  obtain ⟨h3, -⟩ := coalesceLoop_spec (n := σ.h.totalHeapSize) (holds_memset hmark) (by simp) (by
    rw [h.size, ← htot]
    rw [headerSize] at hlen
    omega)
  have hsub : a + total pre + headerSize - headerSize = a + total pre := by omega
  rw [free_eq h.initialized h.start (by rw [hsub, hmagic, hb]; rfl) (by rw [hsub, hfree, hb])
    (by omega) (by rw [hsub, ← hend, total_append, total_cons]; omega)]
  unfold release
  rw [hsub, hsize, h.start]
  have hpay : payloads a (pre ++ b :: post) = payloads a pre ++
      (a + total pre + headerSize) :: payloads (a + total pre + b.bytes) post := by
    rw [payloads_append]
    simp [payloads, hb]
  have hpay' : payloads a (coalesce (pre ++ ⟨b.size, true⟩ :: post)) = payloads a pre ++
      payloads (a + total pre + b.bytes) post := by
    rw [payloads_coalesce, payloads_append]
    rfl
  have hp : a + total pre + headerSize ∈ σ.live := by
    rw [h.live.mem_iff, hpay]
    simp
  refine ⟨hp, h.initialized, rfl, ?_, h3, ?_, merged_coalesce _, ?_, ?_, ?_⟩
  · cases pre with
    | nil => exact coalesce_ne_nil _ _
    | cons c pre => exact coalesce_ne_nil _ _
  · show σ.h.totalHeapSize = _
    have hend3 := holds_end h3
    have := h.size
    omega
  · intro x hx
    have := addrs_coalesce a _ x hx
    apply h.aligned
    rw [addrs_append] at this ⊢
    exact this
  · show (σ.live.erase _).Perm _
    rw [hpay']
    have hl := h.live.erase (a + total pre + headerSize)
    rw [hpay, List.erase_append_right, List.erase_cons_head] at hl
    · exact hl
    · intro hmem
      have := (payloads_bound hmem).2
      rw [headerSize] at this
      omega
  · show σ.h.currentAllocatedBlocks - 1 = _
    rw [h.count, List.length_erase_of_mem hp]

theorem tiled_free {σ : FirstFitSystem} {a p : Nat} {bs : List Cell} (h : Tiled σ a bs)
    (hp : p ∈ σ.live) :
    ∃ bs', Tiled ⟨σ.h.free (some p), σ.live.erase p⟩ a bs' := by
  obtain ⟨pre, b, post, rfl, hb, rfl⟩ := mem_payloads (h.live.mem_iff.mp hp)
  exact ⟨_, (tiled_release h hb).2⟩

theorem tiled_step {σ σ' : FirstFitSystem} {e : FirstFitEvent} {a : Nat} {bs : List Cell}
    (h : Tiled σ a bs) (hs : σ.step e = some σ') : ∃ bs', Tiled σ' a bs' := by
  cases e with
  | malloc n =>
    cases hs
    exact tiled_malloc h n
  | free p =>
    cases p with
    | none =>
      cases hs
      exact ⟨bs, h⟩
    | some p =>
      simp only [FirstFitSystem.step] at hs
      split at hs
      · rename_i hp
        cases hs
        exact tiled_free h hp
      · cases hs

/-- The blocks at the addresses `l` tile memory from `a` to `e`: each one links to the address
behind its payload, and the last one ends at `e` and links to nothing. -/
def Tiles (mem : Nat → MemoryBlock) (e : Nat) : Nat → List Nat → Prop
  | _, [] => False
  | a, [c] => c = a ∧ (mem c).next = none ∧ c + headerSize + (mem c).size = e
  | a, c :: d :: l => c = a ∧ (mem c).next = some d ∧ d = c + headerSize + (mem c).size ∧
      Tiles mem e d (d :: l)

/-- The size of the payload at a pointer, as its header says. -/
def payloadSize (h : FirstFit) (p : Nat) : Nat := (h.mem (p - headerSize)).size

section Reading

variable {h : FirstFit} {mem : Nat → MemoryBlock} {a e n : Nat} {bs : List Cell}

lemma holds_tiles (hh : Holds mem e none a bs) (hne : bs ≠ []) : Tiles mem e a (addrs a bs) := by
  induction bs generalizing a with
  | nil => exact absurd rfl hne
  | cons b bs ih =>
    obtain ⟨hs, -, -, hx⟩ := holds_head hh
    cases bs with
    | nil =>
      refine ⟨rfl, hx, ?_⟩
      rw [hs, Nat.add_assoc]
      exact hh.2
    | cons c bs =>
      refine ⟨rfl, hx, ?_, ih hh.2 (by simp)⟩
      rw [hs, Nat.add_assoc]
      rfl

lemma holds_chain (hh : Holds mem e none a bs) (hm : Merged bs) :
    (addrs a bs).IsChain fun c d => ¬((mem c).isFree = true ∧ (mem d).isFree = true) := by
  induction bs generalizing a with
  | nil => exact .nil
  | cons b bs ih =>
    cases bs with
    | nil => exact .singleton a
    | cons c bs =>
      obtain ⟨-, hf, -, -⟩ := holds_head hh
      obtain ⟨-, hf', -, -⟩ := holds_head hh.2
      obtain ⟨h1, h2⟩ := List.isChain_cons_cons.mp hm
      refine .cons_cons ?_ (ih hh.2 h2)
      rw [hf, hf']
      exact h1

lemma holds_magic (hh : Holds mem e none a bs) : ∀ c ∈ addrs a bs,
    (mem c).magic = if (mem c).isFree then freeMagic else blockMagic := by
  induction bs generalizing a with
  | nil => simp [addrs]
  | cons b bs ih =>
    intro c hc
    obtain ⟨-, hf, hm, -⟩ := holds_head hh
    rcases List.mem_cons.mp hc with rfl | hc
    · rw [hm, hf]
      rfl
    · exact ih hh.2 c hc

lemma holds_count (hh : Holds mem e none a bs) :
    (addrs a bs).countP (fun c => !(mem c).isFree) = (payloads a bs).length := by
  induction bs generalizing a with
  | nil => rfl
  | cons b bs ih =>
    obtain ⟨-, hf, -, -⟩ := holds_head hh
    rw [addrs, payloads, List.countP_cons, ih hh.2, hf, List.length_append]
    cases b.isFree <;> simp [Nat.add_comm]

lemma blockErrors_zero {start : Nat} (hh : Holds h.mem h.heapEnd none a bs) (hne : bs ≠ [])
    (ha : start ≤ a) : FirstFit.blockErrors h start a = 0 := by
  cases bs with
  | nil => exact absurd rfl hne
  | cons b bs =>
    obtain ⟨-, hf, hm, hx⟩ := holds_head hh
    have hend := holds_end hh.2
    unfold FirstFit.blockErrors
    rw [hf, hm, hx]
    cases bs with
    | nil => simp [magicOf]
    | cons c bs =>
      have hpos := c.bytes_pos
      rw [total_cons] at hend
      have h1 : ¬(a + b.bytes < start ∨ h.heapEnd ≤ a + b.bytes) := by omega
      simp [magicOf, h1]

lemma integrityLoop_zero {start : Nat} (hh : Holds h.mem h.heapEnd none a bs) (ha : start ≤ a)
    (hn : bs.length ≤ n) :
    FirstFit.integrityLoop h start n (if bs.isEmpty then none else some a) 0 = 0 := by
  induction bs generalizing a n with
  | nil => cases n <;> rfl
  | cons b bs ih =>
    obtain ⟨n, rfl⟩ : ∃ m, n = m + 1 := ⟨n - 1, by simp at hn; omega⟩
    obtain ⟨-, -, -, hx⟩ := holds_head hh
    have hend := holds_end hh
    have hpos := b.bytes_pos
    rw [total_cons] at hend
    rw [List.isEmpty_cons, if_neg (by simp), FirstFit.integrityLoop]
    simp only [blockErrors_zero hh (by simp) ha, hx]
    rw [if_neg (by omega)]
    exact ih hh.2 (by omega) (by simpa using hn)

/-- The payloads lie one behind the other. -/
lemma payloads_pairwise (hh : Holds h.mem e none a bs) :
    (payloads a bs).Pairwise fun p q => p + payloadSize h p ≤ q := by
  induction bs generalizing a with
  | nil => exact .nil
  | cons b bs ih =>
    obtain ⟨hs, -, -, -⟩ := holds_head hh
    rw [payloads]
    split
    · exact ih hh.2
    · refine List.pairwise_cons.mpr ⟨fun q hq => ?_, ih hh.2⟩
      have := (payloads_bound hq).1
      rw [payloadSize, Nat.add_sub_cancel, hs]
      rw [Cell.bytes] at this
      omega

lemma payload_inside (hh : Holds h.mem e none a bs) {p : Nat} (hp : p ∈ payloads a bs) :
    a ≤ p ∧ p + payloadSize h p ≤ e := by
  obtain ⟨pre, b, post, rfl, -, rfl⟩ := mem_payloads hp
  have hend := holds_end hh
  obtain ⟨hs, -, -, -⟩ := holds_head (holds_append.mp hh).2
  rw [payloadSize, Nat.add_sub_cancel, hs]
  rw [total_append, total_cons, Cell.bytes] at hend
  omega

lemma payload_aligned (hal : ∀ x ∈ addrs a bs, x % 8 = 0) {p : Nat} (hp : p ∈ payloads a bs) :
    p % 8 = 0 := by
  obtain ⟨pre, b, post, rfl, -, rfl⟩ := mem_payloads hp
  have := hal (a + total pre) (by
    rw [addrs_append]
    exact List.mem_append_right _ List.mem_cons_self)
  rw [headerSize]
  omega

end Reading

/-- After every sequence of calls the blocks tile the heap, no two neighbours are free, the
magic numbers and the counter agree with the flags, and the payloads of the live pointers are
aligned, inside the heap and disjoint. -/
theorem first_fit_tiles {σ : FirstFitSystem}
    (h : Transition.Reach FirstFitSystem.Start FirstFitSystem.step (fun _ _ => True) σ) :
    ∃ a l, σ.h.heapStart = some a ∧ Tiles σ.h.mem σ.h.heapEnd a l ∧
      l.IsChain (fun c d => ¬((σ.h.mem c).isFree = true ∧ (σ.h.mem d).isFree = true)) ∧
      (∀ c ∈ l, (σ.h.mem c).magic = if (σ.h.mem c).isFree then freeMagic else blockMagic) ∧
      σ.h.checkIntegrity = true ∧
      σ.h.currentAllocatedBlocks = l.countP (fun c => !(σ.h.mem c).isFree) ∧
      (∀ p ∈ σ.live, p % 8 = 0 ∧ a ≤ p ∧ p + payloadSize σ.h p ≤ σ.h.heapEnd) ∧
      σ.live.Pairwise fun p q => p + payloadSize σ.h p ≤ q ∨ q + payloadSize σ.h q ≤ p := by
  obtain ⟨a, bs, ht⟩ := h.invariant (I := fun σ => ∃ a bs, Tiled σ a bs) (fun _ => start_tiled)
    fun _ _ _ ⟨a, bs, hb⟩ _ hs => ⟨a, tiled_step hb hs⟩
  refine ⟨a, addrs a bs, ht.start, holds_tiles ht.holds ht.cells, holds_chain ht.holds ht.merged,
    holds_magic ht.holds, ?_, ?_, fun p hp => ?_, ?_⟩
  · have hlen := length_le_total bs
    have hloop := integrityLoop_zero (n := σ.h.totalHeapSize) ht.holds (le_refl a) (by
      rw [ht.size]
      rw [headerSize] at hlen
      omega)
    have hempty : bs.isEmpty = false := by simpa using ht.cells
    rw [hempty, if_neg (by simp)] at hloop
    unfold FirstFit.checkIntegrity
    rw [ht.start]
    simp [ht.initialized, hloop]
  · rw [ht.count, ht.live.length_eq, holds_count ht.holds]
  · have hp' := ht.live.mem_iff.mp hp
    exact ⟨payload_aligned ht.aligned hp', payload_inside ht.holds hp'⟩
  · refine (ht.live.pairwise_iff ?_).mpr ((payloads_pairwise ht.holds).imp .inl)
    exact fun hpq => hpq.symm

/-- A heap of 4096 bytes at an address that is not aligned. -/
def sampleHeap : FirstFitSystem :=
  ⟨FirstFit.init ⟨fun _ => .zero, none, 0, 0, false, 0, 0, 0⟩ 4097 4096, []⟩

lemma sampleHeap_start : sampleHeap.Start := ⟨_, 4097, 4096, by decide, by decide, by decide, rfl⟩

/-- Three allocations, of which the first and the second are freed. -/
def sampleAllocations : FirstFitSystem :=
  Transition.final FirstFitSystem.step (fun _ _ => true) sampleHeap
    [.malloc 100, .malloc 1, .malloc 5000, .malloc 64, .free (some 4136), .free (some 4272)]

theorem first_fit_tiles_sample : ∃ a l, sampleAllocations.h.heapStart = some a ∧
    Tiles sampleAllocations.h.mem sampleAllocations.h.heapEnd a l := by
  obtain ⟨a, l, h1, h2, -⟩ := first_fit_tiles
    ((Transition.Reach.final _ sampleHeap_start (by decide +kernel) :
      Transition.Reach FirstFitSystem.Start FirstFitSystem.step (fun _ _ => true = true)
        sampleAllocations).mono fun _ _ _ => trivial)
  exact ⟨a, l, h1, h2⟩

end TP2Kernel.Proofs
