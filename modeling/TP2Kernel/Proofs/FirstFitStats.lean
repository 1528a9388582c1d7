import TP2Kernel.FirstFitStats
import TP2Kernel.Proofs.FirstFitBlocks

/-!
# The two reports agree

Both loops fold over the addresses of the blocks. The sums of the sizes add up to the heap
because the blocks tile it.
-/

namespace TP2Kernel.Proofs
open Function FirstFit

/-- The bytes in the payloads of the blocks at `l`. -/
def payloadBytes (mem : Nat → MemoryBlock) (l : List Nat) : Nat :=
  (l.map fun c => (mem c).size).sum

/-- The free blocks among those at `l`. -/
def freeBlocksOf (mem : Nat → MemoryBlock) (l : List Nat) : List Nat :=
  l.filter fun c => (mem c).isFree

/-- The allocated blocks among those at `l`. -/
def usedBlocksOf (mem : Nat → MemoryBlock) (l : List Nat) : List Nat :=
  l.filter fun c => !(mem c).isFree

section Folds

variable {mem : Nat → MemoryBlock} {nx : Option Nat} {a e n t : Nat} {bs : List Cell}
  {l : List Nat}

/-- The loop visits every block once, from the lowest address on. -/
lemma blockLoop_eq {β : Type} (f : β → Nat → β) (hh : Holds mem e none a bs)
    (hn : bs.length ≤ n) (acc : β) :
    blockLoop mem f n (if bs.isEmpty then none else some a) acc = (addrs a bs).foldl f acc := by
  induction bs generalizing a n acc with
  | nil => cases n <;> rfl
  | cons b bs ih =>
    obtain ⟨n, rfl⟩ : ∃ m, n = m + 1 := ⟨n - 1, by simp at hn; omega⟩
    obtain ⟨-, -, -, hx⟩ := holds_head hh
    rw [List.isEmpty_cons, if_neg (by simp), blockLoop, addrs, List.foldl_cons, hx]
    exact ih hh.2 (by simpa using hn) (f acc a)

lemma addrs_sorted (a : Nat) (bs : List Cell) : (addrs a bs).Pairwise (· < ·) := by
  induction bs generalizing a with
  | nil => exact .nil
  | cons b bs ih =>
    rw [addrs]
    refine List.pairwise_cons.mpr ⟨fun d hd => ?_, ih _⟩
    have := (mem_addrs hd).1
    have := b.bytes_pos
    omega

/-- The payloads and the headers fill the heap. -/
lemma holds_bytes (hh : Holds mem e nx a bs) :
    payloadBytes mem (addrs a bs) + headerSize * (addrs a bs).length = total bs := by
  induction bs generalizing a with
  | nil => rfl
  | cons b bs ih =>
    obtain ⟨hs, -, -, -⟩ := holds_head hh
    rw [addrs, payloadBytes, List.map_cons, List.sum_cons, hs, List.length_cons, total_cons,
      ← ih hh.2, payloadBytes, Nat.mul_add]
    simp only [Cell.bytes]
    omega

lemma payloadBytes_append (l l' : List Nat) :
    payloadBytes mem (l ++ l') = payloadBytes mem l + payloadBytes mem l' := by
  simp [payloadBytes]

lemma payloadBytes_single (c : Nat) : payloadBytes mem [c] = (mem c).size := by
  simp [payloadBytes]

lemma payloadBytes_nil : payloadBytes mem [] = 0 := rfl

lemma freeBlocksOf_concat (l : List Nat) (c : Nat) : freeBlocksOf mem (l ++ [c]) =
    freeBlocksOf mem l ++ if (mem c).isFree then [c] else [] := by
  rw [freeBlocksOf, List.filter_append]
  cases hf : (mem c).isFree <;> simp [freeBlocksOf, hf]

lemma usedBlocksOf_concat (l : List Nat) (c : Nat) : usedBlocksOf mem (l ++ [c]) =
    usedBlocksOf mem l ++ if (mem c).isFree then [] else [c] := by
  rw [usedBlocksOf, List.filter_append]
  cases hf : (mem c).isFree <;> simp [usedBlocksOf, hf]

/-- Every block is either free or allocated. -/
lemma blocks_split (mem : Nat → MemoryBlock) (l : List Nat) :
    payloadBytes mem (usedBlocksOf mem l) + payloadBytes mem (freeBlocksOf mem l) =
      payloadBytes mem l ∧
    (usedBlocksOf mem l).length + (freeBlocksOf mem l).length = l.length := by
  induction l using List.reverseRecOn with
  | nil => exact ⟨rfl, rfl⟩
  | append_singleton l c ih =>
    rw [freeBlocksOf_concat, usedBlocksOf_concat]
    simp only [payloadBytes_append, List.length_append]
    cases hf : (mem c).isFree
    · simp [payloadBytes] at ih ⊢
      omega
    · simp [payloadBytes] at ih ⊢
      omega

lemma addBlock_free {c u f x y : Nat} (hf : (mem c).isFree = true)
    (hb : u + f + (mem c).size + headerSize < sizeMod) (hn : y + 1 < sizeMod) :
    MemoryInfo.addBlock mem ⟨t, u, f, x, y⟩ c = ⟨t, u + headerSize, f + (mem c).size, x, y + 1⟩ := by
  have h1 : (u + headerSize) % sizeMod = u + headerSize := Nat.mod_eq_of_lt (by omega)
  have h2 : (f + (mem c).size) % sizeMod = f + (mem c).size := Nat.mod_eq_of_lt (by omega)
  have h3 : (y + 1) % sizeMod = y + 1 := Nat.mod_eq_of_lt hn
  rw [MemoryInfo.addBlock, if_pos hf]
  simp only [h1, h2, h3]

lemma addBlock_used {c u f x y : Nat} (hf : (mem c).isFree = false)
    (hb : u + f + (mem c).size + headerSize < sizeMod) (hn : x + 1 < sizeMod) :
    MemoryInfo.addBlock mem ⟨t, u, f, x, y⟩ c =
      ⟨t, u + (mem c).size + headerSize, f, x + 1, y⟩ := by
  have h1 : (u + (mem c).size) % sizeMod = u + (mem c).size := Nat.mod_eq_of_lt (by omega)
  have h2 : (u + (mem c).size + headerSize) % sizeMod = u + (mem c).size + headerSize :=
    Nat.mod_eq_of_lt (by omega)
  have h3 : (x + 1) % sizeMod = x + 1 := Nat.mod_eq_of_lt hn
  rw [MemoryInfo.addBlock, if_neg (by simp [hf])]
  simp only [h1, h2, h3]

/-- What `first_fit_get_info` reports of the blocks at `l`. -/
lemma foldl_info (hl : payloadBytes mem l + headerSize * l.length < sizeMod) :
    l.foldl (MemoryInfo.addBlock mem) ⟨t, 0, 0, 0, 0⟩ =
      ⟨t, payloadBytes mem (usedBlocksOf mem l) + headerSize * l.length,
        payloadBytes mem (freeBlocksOf mem l), (usedBlocksOf mem l).length,
        (freeBlocksOf mem l).length⟩ := by
  induction l using List.reverseRecOn with
  | nil => rfl
  | append_singleton l c ih =>
    rw [payloadBytes_append, payloadBytes_single, List.length_append, List.length_singleton,
      Nat.mul_add, Nat.mul_one] at hl
    obtain ⟨hbytes, hlen⟩ := blocks_split mem l
    have hheader : l.length ≤ headerSize * l.length := Nat.le_mul_of_pos_left _ (by decide)
    have hone : 1 ≤ headerSize := by decide
    rw [List.foldl_append, ih (by omega), List.foldl_cons, List.foldl_nil,
      freeBlocksOf_concat, usedBlocksOf_concat, payloadBytes_append, payloadBytes_append,
      List.length_append, List.length_append, List.length_append, List.length_singleton,
      Nat.mul_add, Nat.mul_one]
    have hb : payloadBytes mem (usedBlocksOf mem l) + headerSize * l.length +
        payloadBytes mem (freeBlocksOf mem l) + (mem c).size + headerSize < sizeMod := by
      omega
    cases hf : (mem c).isFree
    · have hcomm : payloadBytes mem (usedBlocksOf mem l) + headerSize * l.length + (mem c).size +
          headerSize = payloadBytes mem (usedBlocksOf mem l) + (mem c).size +
          (headerSize * l.length + headerSize) := by omega
      rw [addBlock_used hf hb (by omega), if_neg (by simp), if_neg (by simp), payloadBytes_single,
        payloadBytes_nil, hcomm]
      rfl
    · rw [addBlock_free hf hb (by omega), if_pos rfl, if_pos rfl, payloadBytes_single,
        payloadBytes_nil, Nat.add_assoc]
      rfl

/-- What the loop of `first_fit_collect_stats` has found behind the free blocks `l`. -/
structure Scanned (mem : Nat → MemoryBlock) (l : List Nat) (s : StatsScan) : Prop where
  bytes : s.freeBytes = payloadBytes mem l
  blocks : s.freeBlocks = l.length
  captured : s.captured = min mmMaxSimpleBlocks l.length
  truncated : s.truncated = (l.length - mmMaxSimpleBlocks) % 2 ^ 32
  largest : s.largestFree = (l.map fun c => (mem c).size).foldl max 0
  freelist : (List.range s.captured).map s.freelist =
    (l.take mmMaxSimpleBlocks).map fun c => ⟨c, (mem c).size⟩

lemma foldl_capture (hl : payloadBytes mem l < sizeMod) (hn : l.length < sizeMod) :
    Scanned mem l (l.foldl (StatsScan.capture mem) ⟨0, 0, 0, 0, 0, fun _ => ⟨0, 0⟩⟩) := by
  induction l using List.reverseRecOn with
  | nil => exact ⟨rfl, rfl, rfl, rfl, rfl, rfl⟩
  | append_singleton l c ih =>
    rw [payloadBytes_append, payloadBytes_single] at hl
    rw [List.length_append, List.length_singleton] at hn
    have h := ih (by omega) (by omega)
    rw [List.foldl_append, List.foldl_cons, List.foldl_nil]
    generalize l.foldl (StatsScan.capture mem) ⟨0, 0, 0, 0, 0, fun _ => ⟨0, 0⟩⟩ = s at h ⊢
    have hbytes : (s.freeBytes + (mem c).size) % sizeMod = payloadBytes mem (l ++ [c]) := by
      rw [h.bytes, payloadBytes_append, payloadBytes_single]
      exact Nat.mod_eq_of_lt hl
    have hblocks : (s.freeBlocks + 1) % sizeMod = (l ++ [c]).length := by
      rw [h.blocks, List.length_append, List.length_singleton]
      exact Nat.mod_eq_of_lt hn
    have hlargest : (if s.largestFree < (mem c).size then (mem c).size else s.largestFree) =
        ((l ++ [c]).map fun c => (mem c).size).foldl max 0 := by
      rw [List.map_append, List.foldl_append, ← h.largest, List.map_cons, List.map_nil,
        List.foldl_cons, List.foldl_nil, Nat.max_def]
      split_ifs <;> omega
    have hcaptured := h.captured
    have htruncated := h.truncated
    have hlist := h.freelist
    by_cases hroom : s.captured < mmMaxSimpleBlocks
    · have hlen : s.captured = l.length := by omega
      rw [StatsScan.capture, if_pos hroom]
      refine ⟨hbytes, hblocks, ?_, ?_, hlargest, ?_⟩
      · rw [List.length_append, List.length_singleton]
        dsimp only
        omega
      · rw [List.length_append, List.length_singleton]
        dsimp only
        omega
      · dsimp only
        rw [List.take_of_length_le (by omega)] at hlist
        rw [List.range_succ, List.map_append, List.take_of_length_le (by simp; omega),
          List.map_append, ← hlist]
        congr 1
        · apply List.map_congr_left
          intro i hi
          exact update_of_ne (List.mem_range.mp hi).ne _ _
        · simp
    · rw [StatsScan.capture, if_neg hroom]
      refine ⟨hbytes, hblocks, ?_, ?_, hlargest, ?_⟩
      · rw [List.length_append, List.length_singleton]
        dsimp only
        omega
      · rw [List.length_append, List.length_singleton]
        dsimp only
        omega
      · dsimp only
        rw [List.take_append_of_le_length (by omega)]
        exact hlist

lemma foldl_max_le {l : List Nat} {m : Nat} (h : ∀ x ∈ l, x ≤ m) (k : Nat) (hk : k ≤ m) :
    l.foldl max k ≤ m := by
  induction l generalizing k with
  | nil => exact hk
  | cons x l ih =>
    rw [List.foldl_cons]
    have hx := h x (by simp)
    exact ih (fun y hy => h y (List.mem_cons_of_mem x hy)) _ (max_le hk hx)

lemma le_payloadBytes {c : Nat} (hc : c ∈ l) : (mem c).size ≤ payloadBytes mem l :=
  List.single_le_sum (by simp) _ (List.mem_map_of_mem hc)

end Folds

/-- The reports `info` and `stats` agree with each other, with the counters and with the blocks
at `l`. -/
structure ReportsAgree (h : FirstFit) (l : List Nat) (info : MemoryInfo) (stats : MmStats) :
    Prop where
  total : info.usedMemory + info.freeMemory = info.totalMemory
  heapSize : info.totalMemory = h.totalHeapSize ∧ stats.heapTotal = h.totalHeapSize
  allocated : info.allocatedBlocks = h.currentAllocatedBlocks
  blocks : info.allocatedBlocks = (usedBlocksOf h.mem l).length ∧
    info.freeBlocks = (freeBlocksOf h.mem l).length
  freeMemory : info.freeMemory = payloadBytes h.mem (freeBlocksOf h.mem l)
  usedMemory : info.usedMemory = payloadBytes h.mem (usedBlocksOf h.mem l) + headerSize * l.length
  freeBytes : stats.freeBytes = info.freeMemory
  usedBytes : stats.usedBytes = info.usedMemory
  heapTotal : stats.usedBytes + stats.freeBytes = stats.heapTotal
  largest : stats.largestFree =
    ((freeBlocksOf h.mem l).map fun c => (h.mem c).size).foldl max 0
  freeBlocks : stats.freeBlocks = (freeBlocksOf h.mem l).length
  truncated : stats.freelistTruncated = (stats.freeBlocks - stats.freelistCount) % 2 ^ 32
  captured : stats.freelistCount = min mmMaxSimpleBlocks stats.freeBlocks
  freelist : (List.range stats.freelistCount).map stats.freelist =
    ((freeBlocksOf h.mem l).take mmMaxSimpleBlocks).map fun c => ⟨c, (h.mem c).size⟩

section Reports

variable {σ : FirstFitSystem} {a : Nat} {bs : List Cell}

lemma tiled_loop {β : Type} (ht : Tiled σ a bs) (f : β → Nat → β) (acc : β) :
    blockLoop σ.h.mem f σ.h.totalHeapSize σ.h.heapStart acc = (addrs a bs).foldl f acc := by
  have hempty : bs.isEmpty = false := by simpa using ht.cells
  have hloop := blockLoop_eq f ht.holds ht.length acc
  rw [hempty, if_neg (by simp)] at hloop
  rw [ht.start]
  exact hloop

lemma tiled_bytes (ht : Tiled σ a bs) :
    payloadBytes σ.h.mem (addrs a bs) + headerSize * (addrs a bs).length = σ.h.totalHeapSize := by
  rw [ht.size]
  exact holds_bytes ht.holds

lemma tiled_info (ht : Tiled σ a bs) (hsmall : total bs < sizeMod) (info : MemoryInfo) :
    σ.h.getInfo info = ⟨σ.h.totalHeapSize,
      payloadBytes σ.h.mem (usedBlocksOf σ.h.mem (addrs a bs)) + headerSize * (addrs a bs).length,
      payloadBytes σ.h.mem (freeBlocksOf σ.h.mem (addrs a bs)),
      (usedBlocksOf σ.h.mem (addrs a bs)).length, (freeBlocksOf σ.h.mem (addrs a bs)).length⟩ := by
  rw [FirstFit.getInfo, if_neg (by simp [ht.initialized]), tiled_loop ht]
  apply foldl_info
  rw [holds_bytes ht.holds]
  exact hsmall

/-- The loop of `first_fit_collect_stats` only counts free blocks. -/
lemma tiled_scanned (ht : Tiled σ a bs) (hsmall : total bs < sizeMod) :
    Scanned σ.h.mem (freeBlocksOf σ.h.mem (addrs a bs)) σ.h.statsLoop := by
  have hbytes := tiled_bytes ht
  obtain ⟨hb, hn⟩ := blocks_split σ.h.mem (addrs a bs)
  have hloop : σ.h.statsLoop = (freeBlocksOf σ.h.mem (addrs a bs)).foldl
      (StatsScan.capture σ.h.mem) ⟨0, 0, 0, 0, 0, fun _ => ⟨0, 0⟩⟩ := by
    rw [FirstFit.statsLoop, tiled_loop ht, freeBlocksOf, List.foldl_filter]
    rfl
  rw [hloop]
  have hsize := ht.size
  rw [headerSize] at hbytes
  apply foldl_capture
  · omega
  · omega

/-- None of the corrections at the end of `first_fit_collect_stats` is made. -/
lemma tiled_corrections (ht : Tiled σ a bs) (hsmall : total bs < sizeMod) :
    σ.h.statsLoop.freeBytes ≤ σ.h.totalHeapSize ∧
      σ.h.statsLoop.largestFree ≤ σ.h.statsLoop.freeBytes := by
  have hs := tiled_scanned ht hsmall
  have hbytes := tiled_bytes ht
  obtain ⟨hb, -⟩ := blocks_split σ.h.mem (addrs a bs)
  constructor
  · rw [hs.bytes]
    omega
  · rw [hs.largest, hs.bytes]
    apply foldl_max_le _ 0 (Nat.zero_le _)
    intro x hx
    obtain ⟨c, hc, rfl⟩ := List.mem_map.mp hx
    exact le_payloadBytes hc

lemma tiled_stats (ht : Tiled σ a bs) (hsmall : total bs < sizeMod) :
    σ.h.collectStats = { MmStats.zero.setName "simple" with
      heapTotal := σ.h.totalHeapSize
      usedBytes := σ.h.totalHeapSize - σ.h.statsLoop.freeBytes
      freeBytes := σ.h.statsLoop.freeBytes
      freeBlocks := σ.h.statsLoop.freeBlocks
      largestFree := σ.h.statsLoop.largestFree
      heapBase := a
      heapEnd := σ.h.heapEnd
      freelistCount := σ.h.statsLoop.captured
      freelistTruncated := σ.h.statsLoop.truncated
      freelist := σ.h.statsLoop.freelist } := by
  obtain ⟨hle, hmax⟩ := tiled_corrections ht hsmall
  unfold FirstFit.collectStats
  rw [ht.start]
  dsimp only
  rw [if_neg (by simp [ht.initialized]), if_pos hle]
  dsimp only
  rw [if_neg (by omega)]
  rfl

/-- The counter of the blocks that are not captured wraps at `2 ^ 32`. -/
lemma tiled_counted (ht : Tiled σ a bs) (hsmall : total bs < sizeMod) :
    σ.h.collectStats.freelistCount + σ.h.collectStats.freelistTruncated =
      σ.h.collectStats.freeBlocks ↔ σ.h.collectStats.freeBlocks < 2 ^ 32 + mmMaxSimpleBlocks := by
  have hs := tiled_scanned ht hsmall
  have hcaptured := hs.captured
  have htruncated := hs.truncated
  have hblocks := hs.blocks
  rw [tiled_stats ht hsmall]
  dsimp only
  omega

end Reports

/-- In every heap that the calls of the allocator lead to, the two reports agree, and none of
the corrections at the end of `first_fit_collect_stats` is made. The counter of the blocks that are
not captured is 32 bits wide, so it is right up to `2 ^ 32 + 31` free blocks. -/
theorem reports_agree {σ : FirstFitSystem}
    (h : Transition.Reach FirstFitSystem.Start FirstFitSystem.step (fun _ _ => True) σ) :
    ∃ a l, σ.h.heapStart = some a ∧ Tiles σ.h.mem σ.h.heapEnd a l ∧ l.Pairwise (· < ·) ∧
      (∀ info, ReportsAgree σ.h l (σ.h.getInfo info) σ.h.collectStats) ∧
      (σ.h.collectStats.freelistCount + σ.h.collectStats.freelistTruncated =
        σ.h.collectStats.freeBlocks ↔ σ.h.collectStats.freeBlocks < 2 ^ 32 + mmMaxSimpleBlocks) ∧
      σ.h.statsLoop.freeBytes ≤ σ.h.totalHeapSize ∧
      σ.h.statsLoop.largestFree ≤ σ.h.statsLoop.freeBytes := by
  obtain ⟨a, bs, ht, hsmall⟩ := reach_tiled h
  have hs := tiled_scanned ht hsmall
  have hbytes := tiled_bytes ht
  obtain ⟨hb, -⟩ := blocks_split σ.h.mem (addrs a bs)
  obtain ⟨hle, hmax⟩ := tiled_corrections ht hsmall
  refine ⟨a, addrs a bs, ht.start, holds_tiles ht.holds ht.cells, addrs_sorted a bs,
    fun info => ?_, tiled_counted ht hsmall, hle, hmax⟩
  have hcount : (usedBlocksOf σ.h.mem (addrs a bs)).length = σ.h.currentAllocatedBlocks := by
    rw [ht.count, ht.live.length_eq, ← holds_count ht.holds, List.countP_eq_length_filter]
    rfl
  have hfree := hs.bytes
  have htruncated := hs.truncated
  have hcaptured := hs.captured
  have hblocks := hs.blocks
  rw [tiled_info ht hsmall, tiled_stats ht hsmall]
  exact {
    total := by
      dsimp only
      omega
    heapSize := ⟨rfl, rfl⟩
    allocated := hcount
    blocks := ⟨rfl, rfl⟩
    freeMemory := rfl
    usedMemory := rfl
    freeBytes := hfree
    usedBytes := by
      dsimp only
      omega
    heapTotal := Nat.sub_add_cancel hle
    largest := hs.largest
    freeBlocks := hblocks
    truncated := by
      dsimp only
      omega
    captured := by
      dsimp only
      rw [hblocks]
      exact hcaptured
    freelist := hs.freelist }

theorem reports_agree_sample : ∃ a l, sampleAllocations.h.heapStart = some a ∧
    ReportsAgree sampleAllocations.h l (sampleAllocations.h.getInfo ⟨0, 0, 0, 0, 0⟩)
      sampleAllocations.h.collectStats := by
  have hreach : Transition.Reach FirstFitSystem.Start FirstFitSystem.step
      (fun _ _ => true = true) sampleAllocations :=
    Transition.Reach.final _ sampleHeap_start (by decide +kernel)
  obtain ⟨a, l, ha, -, -, hagree, -⟩ := reports_agree (hreach.mono fun _ _ _ => trivial)
  exact ⟨a, l, ha, hagree _⟩

/-- A block of the smallest size in use, and one that was freed. -/
def smallUsed : Cell := ⟨16, false⟩

def smallHole : Cell := ⟨16, true⟩

/-- Every second of `2 * n` blocks was freed. -/
def holes (n : Nat) : List Cell := (List.replicate n [smallHole, smallUsed]).flatten

lemma holes_succ (n : Nat) : holes (n + 1) = holes n ++ [smallHole, smallUsed] := by
  rw [holes, List.replicate_succ', List.flatten_append]
  simp [holes]

lemma total_holes (n : Nat) : total (holes n) = 96 * n := by
  induction n with
  | zero => rfl
  | succ n ih =>
    rw [holes_succ, total_append, ih]
    simp only [total, List.map_cons, List.map_nil, List.sum_cons, List.sum_nil, Cell.bytes,
      smallHole, smallUsed, headerSize]
    omega

lemma countP_holes (n : Nat) : (holes n).countP (·.isFree) = n := by
  induction n with
  | zero => rfl
  | succ n ih =>
    rw [holes_succ, List.countP_append, ih]
    rfl

lemma merged_used {l : List Cell} (h : Merged l) : Merged (smallUsed :: l) := by
  cases l with
  | nil => exact .singleton _
  | cons b l => exact .cons_cons (by simp [smallUsed]) h

lemma merged_holes {l : List Cell} (h : Merged l) (n : Nat) : Merged (holes n ++ l) := by
  induction n with
  | zero => exact h
  | succ n ih => exact .cons_cons (by simp [smallUsed]) (merged_used ih)

lemma merged_replicate {l : List Cell} (h : Merged l) (n : Nat) :
    Merged (List.replicate n smallUsed ++ l) := by
  induction n with
  | zero => exact h
  | succ n ih => exact merged_used ih

section Crowded

variable {σ : FirstFitSystem} {a n : Nat} {b c : Cell} {pre post us : List Cell}

lemma split_last (h : us ++ [b] = pre ++ c :: post) (hus : ∀ u ∈ us, u.isFree = false)
    (hc : c.isFree = true) : pre = us ∧ c = b ∧ post = [] := by
  induction us generalizing pre with
  | nil =>
    cases pre with
    | nil => simpa [eq_comm] using h
    | cons d pre => simp at h
  | cons u us ih =>
    cases pre with
    | nil =>
      obtain ⟨rfl, -⟩ := List.cons.inj h
      rw [hus _ (.head _)] at hc
      cases hc
    | cons d pre =>
      obtain ⟨rfl, htail⟩ := List.cons.inj h
      obtain ⟨rfl, hb, hpost⟩ := ih htail fun v hv => hus v (.tail _ hv)
      exact ⟨rfl, hb, hpost⟩

/-- Behind blocks that are in use, an allocation is carved from the last one. -/
lemma tiled_malloc_last (h : Tiled σ a (us ++ [b])) (hus : ∀ u ∈ us, u.isFree = false)
    (hb : b.Fits (mallocSize n)) (hn : n ≠ 0) :
    Tiled ⟨(σ.h.malloc n).1, σ.live ++ (σ.h.malloc n).2.toList⟩ a
      (us ++ allocated b (mallocSize n)) := by
  rcases malloc_cases h hn with ⟨-, hall⟩ | ⟨pre, c, post, hbs, hc, -, hfound, hholds⟩
  · exact absurd hb (hall b (by simp))
  · obtain ⟨rfl, rfl, rfl⟩ := split_last hbs hus hc.1
    have ht := tiled_take h hc hfound hholds
    rwa [List.append_nil] at ht

/-- Allocations of one byte take the start of what is left. -/
lemma run_malloc (n m : Nat)
    (h : Tiled σ a (List.replicate m smallUsed ++ [⟨48 * n + 64, true⟩])) :
    ∃ σ', Transition.run FirstFitSystem.step σ (List.replicate n (.malloc 1)) = some σ' ∧
      Tiled σ' a (List.replicate (m + n) smallUsed ++ [⟨64, true⟩]) := by
  induction n generalizing σ m with
  | zero => exact ⟨σ, rfl, h⟩
  | succ n ih =>
    have hused : ∀ u ∈ List.replicate m smallUsed, u.isFree = false := by
      intro u hu
      rw [List.eq_of_mem_replicate hu]
      rfl
    have hsize : mallocSize 1 = 16 := rfl
    have hcarved : allocated ⟨48 * (n + 1) + 64, true⟩ 16 =
        [smallUsed, ⟨48 * n + 64, true⟩] := by
      rw [allocated, if_neg (by simp only [headerSize, minBlockSize]; omega)]
      simp only [headerSize, smallUsed, List.cons.injEq, Cell.mk.injEq, and_true, true_and]
      omega
    have ht := tiled_malloc_last (n := 1) h hused ⟨rfl, by rw [hsize]; dsimp only; omega⟩ (by decide)
    rw [hsize, hcarved, List.append_cons, ← List.replicate_succ'] at ht
    obtain ⟨σ', hrun, ht'⟩ := ih (m + 1) ht
    refine ⟨σ', hrun, ?_⟩
    rwa [Nat.add_assoc, Nat.add_comm 1] at ht'

/-- The calls that free every second one of `2 * n` blocks from the `2 * j`-th on. -/
def freeCalls (a n j : Nat) : List FirstFitEvent :=
  (List.range' j n).map fun i => .free (some (a + 96 * i + headerSize))

lemma run_free (n j : Nat)
    (h : Tiled σ a (holes j ++ (List.replicate (2 * n) smallUsed ++ [⟨64, true⟩]))) :
    ∃ σ', Transition.run FirstFitSystem.step σ (freeCalls a n j) = some σ' ∧
      Tiled σ' a (holes (j + n) ++ [⟨64, true⟩]) := by
  induction n generalizing σ j with
  | zero => exact ⟨σ, rfl, h⟩
  | succ n ih =>
    have hcells : List.replicate (2 * (n + 1)) smallUsed =
        smallUsed :: smallUsed :: List.replicate (2 * n) smallUsed := rfl
    rw [hcells, List.cons_append, List.cons_append] at h
    obtain ⟨hp, ht⟩ := tiled_release h rfl
    have hmerged : Merged (holes j ++ smallHole ::
        smallUsed :: (List.replicate (2 * n) smallUsed ++ [⟨64, true⟩])) := by
      apply merged_holes
      exact .cons_cons (by simp [smallUsed]) (merged_used (merged_replicate (.singleton _) _))
    have hnext : holes j ++ smallHole :: smallUsed ::
        (List.replicate (2 * n) smallUsed ++ [⟨64, true⟩]) =
        holes (j + 1) ++ (List.replicate (2 * n) smallUsed ++ [⟨64, true⟩]) := by
      rw [holes_succ, List.append_assoc]
      rfl
    rw [total_holes] at hp ht
    rw [show (⟨smallUsed.size, true⟩ : Cell) = smallHole from rfl, coalesce_of_merged hmerged,
      hnext] at ht
    obtain ⟨σ', hrun, ht'⟩ := ih (j + 1) ht
    refine ⟨σ', ?_, ?_⟩
    · rw [freeCalls, List.range'_succ, List.map_cons, Transition.run, FirstFitSystem.step,
        if_pos hp]
      exact hrun
    · rwa [Nat.add_assoc, Nat.add_comm 1] at ht'

end Crowded

/-- A heap with room for `2 * n` small blocks. -/
def crowdedHeap (n : Nat) : FirstFitSystem :=
  ⟨FirstFit.init ⟨fun _ => .zero, none, 0, 0, false, 0, 0, 0⟩ 8 (96 * n + 96), []⟩

/-- All blocks are allocated, and then every second one is freed. -/
def crowdedCalls (n : Nat) : List FirstFitEvent :=
  List.replicate (2 * n) (.malloc 1) ++ freeCalls 8 n 0

lemma crowdedHeap_start {n : Nat} (hn : 96 * n + 104 < sizeMod) : (crowdedHeap n).Start := by
  have halign : alignSize 8 = 8 := rfl
  refine ⟨_, 8, 96 * n + 96, by decide, by omega, ?_, rfl⟩
  rw [halign, headerSize]
  omega

lemma crowdedHeap_tiled (n : Nat) : Tiled (crowdedHeap n) 8 [⟨48 * (2 * n) + 64, true⟩] := by
  have halign : alignSize 8 = 8 := rfl
  have hsize : 96 * n + 96 - headerSize = 48 * (2 * n) + 64 := by
    rw [headerSize]
    omega
  rw [crowdedHeap, FirstFit.init, if_neg (by rw [headerSize]; omega)]
  simp only [halign, Nat.sub_self, Nat.sub_zero, hsize]
  refine ⟨rfl, rfl, by simp, ⟨by simp [magicOf], ?_⟩, ?_, .singleton _, ?_, .refl _, rfl⟩
  · show 8 + (headerSize + (48 * (2 * n) + 64)) = 8 + (96 * n + 96)
    omega
  · simp only [total, Cell.bytes, List.map_cons, List.map_nil, List.sum_cons, List.sum_nil]
    omega
  · intro x hx
    rw [show x = 8 by simpa [addrs] using hx]

lemma holds_freeBlocks {mem : Nat → MemoryBlock} {nx : Option Nat} {a e : Nat} {bs : List Cell}
    (h : Holds mem e nx a bs) :
    (freeBlocksOf mem (addrs a bs)).length = bs.countP (·.isFree) := by
  induction bs generalizing a with
  | nil => rfl
  | cons b bs ih =>
    obtain ⟨-, hf, -, -⟩ := holds_head h
    rw [addrs, freeBlocksOf, List.filter_cons, List.countP_cons, ← ih h.2, hf]
    cases b.isFree <;> rfl

/-- In the crowded heap `n` free blocks lie between blocks in use, and one behind them. -/
lemma run_crowded {n : Nat} (hn : 96 * n + 104 < sizeMod) :
    ∃ σ, Transition.run FirstFitSystem.step (crowdedHeap n) (crowdedCalls n) = some σ ∧
      (σ.h.collectStats.freelistCount + σ.h.collectStats.freelistTruncated =
        σ.h.collectStats.freeBlocks ↔ n + 1 < 2 ^ 32 + mmMaxSimpleBlocks) := by
  obtain ⟨σ₁, h₁, ht₁⟩ := run_malloc (σ := crowdedHeap n) (2 * n) 0 (crowdedHeap_tiled n)
  rw [Nat.zero_add] at ht₁
  obtain ⟨σ, h₂, ht⟩ := run_free n 0 ht₁
  rw [Nat.zero_add] at ht
  have hsmall : total (holes n ++ [⟨64, true⟩]) < sizeMod := by
    rw [total_append, total_holes]
    simp only [total, Cell.bytes, List.map_cons, List.map_nil, List.sum_cons, List.sum_nil,
      headerSize]
    omega
  have hfree : σ.h.collectStats.freeBlocks = n + 1 := by
    rw [tiled_stats ht hsmall]
    dsimp only
    rw [(tiled_scanned ht hsmall).blocks, holds_freeBlocks ht.holds, List.countP_append,
      countP_holes]
    rfl
  have hcounted := tiled_counted ht hsmall
  rw [hfree] at hcounted
  exact ⟨σ, (Transition.run_append h₁).trans h₂, by rwa [hfree]⟩

/-- The counter of the blocks that are not captured wraps in a heap with `2 ^ 32 + 32` free blocks:
behind `2 ^ 33 + 62` allocations of one byte, of which every second one is freed. -/
theorem truncated_wraps : (crowdedHeap (2 ^ 32 + 31)).Start ∧ ∃ σ,
    Transition.run FirstFitSystem.step (crowdedHeap (2 ^ 32 + 31))
      (crowdedCalls (2 ^ 32 + 31)) = some σ ∧
    σ.h.collectStats.freelistCount + σ.h.collectStats.freelistTruncated ≠
      σ.h.collectStats.freeBlocks := by
  have hroom : 96 * (2 ^ 32 + 31) + 104 < sizeMod := by norm_num
  obtain ⟨σ, hrun, hcounted⟩ := run_crowded hroom
  exact ⟨crowdedHeap_start hroom, σ, hrun, fun h => absurd (hcounted.mp h) (by norm_num)⟩

end TP2Kernel.Proofs
