import TP2Kernel.Lib.Transition
import TP2Kernel.Lib.LinkedList

/-!
# The buddy memory manager

The functions of `buddy_system.c`. A free block holds the address of the next one in its
first word, `mem`; `maps` is the array of bytes at the start of the heap, in which
`used_map` follows `order_map`. Loops carry the number of turns they may still make.
-/

namespace TP2Kernel
open Function LinkedList

abbrev buddyPageSize : Nat := 4096
abbrev buddyMinOrder : Nat := 12
abbrev buddyMaxOrders : Nat := 20
/-- The number of values of a `uintptr_t`. -/
abbrev addrMod : Nat := 2 ^ 64

/-- The static variables of `buddy_system.c`, the links in the free blocks, and the maps. -/
structure Buddy where
  mem : Nat → Option Nat
  maps : Nat → Nat
  numPages : Nat
  freeLists : Nat → Option Nat
  regionBase : Nat
  regionEnd : Nat
  maxOrder : Nat
  initialized : Bool
  statTotal : Nat
  statUsed : Nat
  statAllocBlocks : Nat
  statFreeBlocks : Nat

/-- `align_up_ptr` to a page. -/
def alignUpPtr (addr : Nat) : Nat :=
  (addr + (buddyPageSize - 1)) % addrMod / buddyPageSize * buddyPageSize

/-- `align_down_ptr` to a page. -/
def alignDownPtr (addr : Nat) : Nat := addr / buddyPageSize * buddyPageSize

/-- `buddy_index`. -/
def buddyIndex (idx order : Nat) : Nat := idx ^^^ 2 ^ (order - buddyMinOrder)

namespace Buddy

/-- `ptr_to_index`. -/
def ptrToIndex (b : Buddy) (ptr : Nat) : Nat :=
  (ptr + (addrMod - b.regionBase)) % addrMod / buddyPageSize

/-- `index_to_ptr`. -/
def indexToPtr (b : Buddy) (idx : Nat) : Nat := (b.regionBase + idx * buddyPageSize) % addrMod

/-- The loop of `size_to_order`, which is also the one that `buddy_init` runs for the order of
the whole heap. -/
def orderLoop (size maxOrder : Nat) : Nat → Nat → Nat
  | 0, order => order
  | n + 1, order =>
    if 2 ^ order < size ∧ order < maxOrder then orderLoop size maxOrder n (order + 1) else order

/-- `size_to_order`. -/
def sizeToOrder (b : Buddy) (size : Nat) : Nat :=
  if size = 0 then buddyMinOrder else orderLoop size b.maxOrder buddyMaxOrders buddyMinOrder

def orderMap (b : Buddy) (idx : Nat) : Nat := b.maps idx

def usedMap (b : Buddy) (idx : Nat) : Nat := b.maps (b.numPages + idx)

/-- `order_map[idx] = order`. -/
def setOrder (b : Buddy) (idx order : Nat) : Buddy := { b with maps := update b.maps idx order }

/-- `used_map[idx] = used`. -/
def setUsed (b : Buddy) (idx used : Nat) : Buddy :=
  { b with maps := update b.maps (b.numPages + idx) used }

/-- `add_to_free_list`. -/
def addToFreeList (b : Buddy) (idx order : Nat) : Buddy :=
  { b with
    mem := update b.mem (b.indexToPtr idx) (b.freeLists order)
    freeLists := update b.freeLists order (some (b.indexToPtr idx))
    statFreeBlocks := (b.statFreeBlocks + 1) % addrMod }

/-- The loop of `remove_from_free_list`; `none` stands for the result 0. -/
def removeLoop (target order : Nat) : Nat → Option Nat → Option Nat → Buddy → Option Buddy
  | 0, _, _, _ => none
  | n + 1, prev, current, b =>
    match current with
    | none => none
    | some c =>
      if c = target then
        some { b with
          freeLists := update b.freeLists order (spliceHead (b.freeLists order) prev (b.mem c))
          mem := spliceNext b.mem prev (b.mem c)
          statFreeBlocks := (b.statFreeBlocks + (addrMod - 1)) % addrMod }
      else removeLoop target order n (some c) (b.mem c) b

/-- `remove_from_free_list`. A free list has at most one node for every page. -/
def removeFromFreeList (b : Buddy) (idx order : Nat) : Option Buddy :=
  removeLoop (b.indexToPtr idx) order (b.numPages + 1) none (b.freeLists order) b

/-- The largest order whose block fits in the rest of the heap, which is at least a page. -/
def fittingOrder (b : Buddy) (remaining : Nat) : Nat :=
  let order := b.sizeToOrder remaining
  let order := if b.maxOrder < order then b.maxOrder else order
  if remaining < 2 ^ order then order - 1 else order

/-- The last loop of `buddy_init`. -/
def carveLoop (alignedStart : Nat) : Nat → Nat → Buddy → Buddy
  | 0, _, b => b
  | n + 1, offset, b =>
    let available := b.regionEnd - b.regionBase
    if offset < available then
      let order := b.fittingOrder (available - offset)
      let idx := (b.regionBase + offset - alignedStart) / buddyPageSize
      carveLoop alignedStart n (offset + 2 ^ order)
        (((b.setOrder idx order).setUsed idx 0).addToFreeList idx order)
    else b

/-- `buddy_init`. -/
def init (b : Buddy) (startAddr totalSize : Nat) : Buddy :=
  if startAddr = 0 ∨ totalSize < buddyPageSize * 2 then b
  else
    let alignedStart := alignUpPtr startAddr
    let alignedEnd := alignDownPtr ((startAddr + totalSize) % addrMod)
    if alignedEnd ≤ alignedStart then b
    else
      let alignedSize := alignedEnd - alignedStart
      let numPages := alignedSize / buddyPageSize
      let b := { b with
        maxOrder := orderLoop alignedSize (buddyMaxOrders - 1) buddyMaxOrders buddyMinOrder }
      let metadataSize := (numPages * 2 + (buddyPageSize - 1)) / buddyPageSize * buddyPageSize
      if alignedSize / 2 ≤ metadataSize then b
      else
        let regionBase := alignedStart + metadataSize
        let b := { b with
          numPages := numPages
          maps := fun i =>
            if i < numPages then 255 else if i < numPages * 2 then 0 else b.maps i
          regionBase := regionBase
          regionEnd := alignedEnd
          freeLists := fun _ => none }
        { carveLoop alignedStart numPages 0 b with
          statTotal := alignedEnd - regionBase
          statUsed := 0
          statAllocBlocks := 0
          initialized := true }

/-- The search of `buddy_alloc` for a free list that is not empty. -/
def findOrder (b : Buddy) (order : Nat) : Option Nat :=
  ((List.range (b.maxOrder + 1 - order)).map (order + ·)).find? fun o => (b.freeLists o).isSome

/-- The loop of `buddy_alloc` that splits a block `n` times. -/
def splitLoop (idx order : Nat) : Nat → Buddy → Buddy
  | 0, b => b
  | n + 1, b =>
    let current := order + n
    let buddyIdx := buddyIndex idx (current + 1)
    splitLoop idx order n
      (((b.setOrder buddyIdx current).setUsed buddyIdx 0).addToFreeList buddyIdx current)

/-- `buddy_alloc`. -/
def alloc (b : Buddy) (size : Nat) : Buddy × Option Nat :=
  if b.initialized = false ∨ size = 0 then (b, none)
  else
    let order := b.sizeToOrder size
    match b.findOrder order with
    | none => (b, none)
    | some current =>
      match b.freeLists current with
      | none => (b, none)
      | some block =>
        let b := { b with
          freeLists := update b.freeLists current (b.mem block)
          statFreeBlocks := (b.statFreeBlocks + (addrMod - 1)) % addrMod }
        let idx := b.ptrToIndex block
        let b := splitLoop idx order (current - order) b
        let b := (b.setOrder idx order).setUsed idx 1
        ({ b with
            statUsed := (b.statUsed + 2 ^ order) % addrMod
            statAllocBlocks := (b.statAllocBlocks + 1) % addrMod }, some block)

/-- The loop of `buddy_free`. -/
def mergeLoop : Nat → Nat → Nat → Buddy → Buddy
  | 0, idx, order, b => b.addToFreeList idx order
  | n + 1, idx, order, b =>
    let buddyIdx := buddyIndex idx order
    if order < b.maxOrder ∧ buddyIdx < (b.regionEnd - b.regionBase) / buddyPageSize ∧
        b.orderMap buddyIdx = order ∧ b.usedMap buddyIdx = 0 then
      match b.removeFromFreeList buddyIdx order with
      | none => b.addToFreeList idx order
      | some b =>
        let idx := if buddyIdx < idx then buddyIdx else idx
        mergeLoop n idx (order + 1) (b.setOrder idx (order + 1))
    else b.addToFreeList idx order

/-- `buddy_free` of a non-null pointer. -/
def free (b : Buddy) (ptr : Nat) : Buddy :=
  if b.initialized = false ∨ ptr < b.regionBase ∨ b.regionEnd ≤ ptr then b
  else
    let idx := b.ptrToIndex ptr
    if b.orderMap idx = 255 ∨ b.usedMap idx = 0 then b
    else
      let order := b.orderMap idx
      let b := b.setUsed idx 0
      mergeLoop buddyMaxOrders idx order { b with
        statUsed := (b.statUsed + (addrMod - 2 ^ order)) % addrMod
        statAllocBlocks := (b.statAllocBlocks + (addrMod - 1)) % addrMod }

/-- The loop of `buddy_check_integrity` over one free list; `none` stands for a loop that has
not ended. -/
def countLoop (mem : Nat → Option Nat) : Nat → Option Nat → Nat → Option Nat
  | 0, _, _ => none
  | n + 1, current, counted =>
    match current with
    | none => some counted
    | some c => countLoop mem n (mem c) ((counted + 1) % addrMod)

/-- The loop of `buddy_check_integrity` over the orders. -/
def integrityLoop (b : Buddy) (fuel : Nat) : Nat → Nat → Nat → Option Nat
  | 0, _, counted => some counted
  | n + 1, order, counted =>
    (countLoop b.mem fuel (b.freeLists order) counted).bind (integrityLoop b fuel n (order + 1))

/-- `buddy_check_integrity`. -/
def checkIntegrity (b : Buddy) (fuel : Nat) : Option Nat :=
  if b.initialized = false then some 0
  else (b.integrityLoop fuel (b.maxOrder + 1 - buddyMinOrder) buddyMinOrder 0).map fun counted =>
    if counted = b.statFreeBlocks then 1 else 0

end Buddy

/-- The memory manager and the live allocations: their addresses and orders. -/
structure BuddySystem where
  b : Buddy
  live : List (Nat × Nat)

/-- The address `a` lies in the block of order `order` at `ptr`. -/
def BlockCovers (ptr order a : Nat) : Prop := ∃ i < 2 ^ order, a = (ptr + i) % addrMod

instance (ptr order a : Nat) : Decidable (BlockCovers ptr order a) :=
  inferInstanceAs (Decidable (∃ i < 2 ^ order, a = (ptr + i) % addrMod))

/-- The blocks of a free list: its head, and what the links in its blocks lead to. -/
inductive OnFreeList (b : Buddy) (order : Nat) : Nat → Prop
  | head {ptr : Nat} (h : b.freeLists order = some ptr) : OnFreeList b order ptr
  | link {node ptr : Nat} (h : OnFreeList b order node) (hn : b.mem node = some ptr) :
    OnFreeList b order ptr

/-- An allocation, a release of a live pointer, or a write of a program to a live block. -/
inductive BuddyEvent
  | alloc (n : Nat)
  | free (ptr : Nat)
  | store (a : Nat) (v : Option Nat)

namespace BuddySystem

def step (σ : BuddySystem) : BuddyEvent → Option BuddySystem
  | .alloc n =>
    let r := σ.b.alloc n
    some ⟨r.1, match r.2 with
      | some ptr => (ptr, σ.b.sizeToOrder n) :: σ.live
      | none => σ.live⟩
  | .free ptr =>
    if ptr ∈ σ.live.map Prod.fst then
      some ⟨σ.b.free ptr, σ.live.filter fun l => decide (l.1 ≠ ptr)⟩
    else none
  | .store a v =>
    if ∃ l ∈ σ.live, BlockCovers l.1 l.2 a then
      some { σ with b := { σ.b with mem := update σ.b.mem a v } }
    else none

/-- A heap that `buddy_init` has just set up. -/
def Start (σ : BuddySystem) : Prop :=
  ∃ (b : Buddy) (start total : Nat), b.initialized = false ∧ start < addrMod ∧ total < addrMod ∧
    σ.b = b.init start total ∧ σ.b.initialized = true ∧ σ.live = []

/-- A heap that the first `buddy_init` since the start of the kernel has just set up. -/
def FirstStart (σ : BuddySystem) : Prop :=
  ∃ (b : Buddy) (start total : Nat), b.initialized = false ∧ b.statFreeBlocks = 0 ∧
    start < addrMod ∧ total < addrMod ∧ σ.b = b.init start total ∧ σ.b.initialized = true ∧
    σ.live = []

/-- The free lists are `lists`, without a cycle and without a common block, and the statistics
agree with them and with the live blocks. -/
structure Agrees (σ : BuddySystem) (lists : Nat → List Nat) : Prop where
  chain : ∀ o, IsChain σ.b.mem (σ.b.freeLists o) (lists o)
  acyclic : ∀ o, (lists o).Nodup
  once : ∀ o o' p, p ∈ lists o → p ∈ lists o' → o = o'
  free : σ.b.statFreeBlocks = ∑ o ∈ Finset.range buddyMaxOrders, (lists o).length
  integrity : ∃ n, ∀ fuel ≥ n, σ.b.checkIntegrity fuel = some 1
  used : σ.b.statUsed = (σ.live.map fun l => 2 ^ l.2).sum
  total : ∑ o ∈ Finset.range buddyMaxOrders, (lists o).length * 2 ^ o + σ.b.statUsed =
    σ.b.statTotal

/-- The live blocks lie in the region, and overlap neither each other nor a block of a free
list. -/
structure DisjointBlocks (σ : BuddySystem) : Prop where
  inside : ∀ l ∈ σ.live, σ.b.regionBase ≤ l.1 ∧ l.1 + 2 ^ l.2 ≤ σ.b.regionEnd
  live : σ.live.Pairwise fun x y => ∀ a, ¬(BlockCovers x.1 x.2 a ∧ BlockCovers y.1 y.2 a)
  free : ∀ l ∈ σ.live, ∀ o p, OnFreeList σ.b o p →
    ∀ a, ¬(BlockCovers l.1 l.2 a ∧ BlockCovers p o a)

end BuddySystem

end TP2Kernel
