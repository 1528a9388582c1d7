import TP2Kernel.System
import TP2Kernel.SemCalls
import TP2Kernel.Proofs.Frames
import TP2Kernel.Proofs.Creation

/-!
# The lifetime of semaphores

A semaphore's `refcount` is the number of handles that point to it, except inside a call
that has counted a handle it has not stored yet or has cleared a handle it has not
uncounted yet. A semaphore is freed when it is unlinked and nothing points to it any more.
-/

namespace TP2Kernel.Proofs
open Function

variable {k k' : Kernel} {o : Option Nat}

/-- The semaphore has been freed. -/
def SemFreed (k : Kernel) (s : Nat) : Prop := (⟨.sem, s⟩ : Block) ∈ k.heap.freed

/-- The reference counts match the handles, but `o` has one reference more. -/
structure SemsOwing (o : Option Nat) (k : Kernel) : Prop where
  count : ∀ s, (k.sems s).refcount = semHandleCount k s + if o = some s then 1 else 0
  owed : ∀ s, o = some s → s < k.heap.next
  once : ∀ s, k.heap.freed.count ⟨.sem, s⟩ ≤ 1
  freed : ∀ s, SemFreed k s → s < k.heap.next ∧ (k.sems s).unlinked = true ∧
    (k.sems s).refcount = 0 ∧ (k.sems s).waiters = []
  handle : ∀ i e, k.semHandles i = some e → e.sem < k.heap.next
  bucket : ∀ b, ∀ s ∈ k.semBuckets b, s < k.heap.next ∧ (k.sems s).unlinked = false ∧
    b = semHash (k.sems s).name
  nodup : ∀ b, (k.semBuckets b).Nodup

lemma semHandleCount_le (k : Kernel) (s : Nat) : semHandleCount k s ≤ ksemHandleMax := by
  unfold semHandleCount
  apply (Finset.card_le_univ _).trans
  simp

lemma semHandleCount_congr (h : k'.semHandles = k.semHandles) (s : Nat) :
    semHandleCount k' s = semHandleCount k s := by
  rw [semHandleCount, semHandleCount, h]

/-- Storing a handle in a free entry. -/
lemma semHandleCount_store {i : Fin ksemHandleMax} {e : SemHandle} (hi : k.semHandles i = none)
    (h : k'.semHandles = update k.semHandles i (some e)) (s : Nat) :
    semHandleCount k' s = semHandleCount k s + if e.sem = s then 1 else 0 := by
  have hset : (Finset.univ.filter fun j => (k'.semHandles j).map SemHandle.sem = some s) =
      if e.sem = s then insert i
        (Finset.univ.filter fun j => (k.semHandles j).map SemHandle.sem = some s)
      else Finset.univ.filter fun j => (k.semHandles j).map SemHandle.sem = some s := by
    ext j
    by_cases hj : j = i
    · subst hj
      split <;> simp_all
    · split <;> simp_all
  rw [semHandleCount, hset]
  split
  · rw [Finset.card_insert_of_notMem (by simp [hi])]
    rfl
  · rfl

/-- Clearing a handle. -/
lemma semHandleCount_clear {i : Fin ksemHandleMax} {e : SemHandle} (hi : k.semHandles i = some e)
    (h : k'.semHandles = update k.semHandles i none) (s : Nat) :
    semHandleCount k s = semHandleCount k' s + if e.sem = s then 1 else 0 := by
  apply semHandleCount_store (i := i)
  · rw [h, update_self]
  · rw [h, update_idem, ← hi, update_eq_self]

/-- Writes outside the semaphores that free none of them. -/
lemma SemsOwing.of_same (h : SemsOwing o k) (hs : k'.sems = k.sems)
    (hb : k'.semBuckets = k.semBuckets) (hh : k'.semHandles = k.semHandles)
    (hn : k.heap.next ≤ k'.heap.next)
    (hf : ∃ bs, k'.heap.freed = k.heap.freed ++ bs ∧ ∀ b ∈ bs, b.kind ≠ .sem) :
    SemsOwing o k' := by
  obtain ⟨bs, hf, hbs⟩ := hf
  have hmem : ∀ s, (⟨.sem, s⟩ : Block) ∉ bs := fun s hm => hbs _ hm rfl
  have hfr : ∀ s, SemFreed k' s ↔ SemFreed k s := by
    intro s
    rw [SemFreed, SemFreed, hf, List.mem_append, or_iff_left (hmem s)]
  refine ⟨fun s => ?_, fun s ho => ?_, fun s => ?_, fun s hs' => ?_, fun i e hi => ?_,
    fun b s hm => ?_, fun b => ?_⟩
  · rw [hs, semHandleCount_congr hh]
    exact h.count s
  · exact (h.owed s ho).trans_le hn
  · rw [hf, List.count_append, List.count_eq_zero_of_not_mem (hmem s)]
    exact h.once s
  · obtain ⟨h1, h2⟩ := h.freed s ((hfr s).mp hs')
    rw [hs]
    exact ⟨h1.trans_le hn, h2⟩
  · exact (h.handle i e (hh ▸ hi)).trans_le hn
  · obtain ⟨h1, h2⟩ := h.bucket b s (hb ▸ hm)
    rw [hs]
    exact ⟨h1.trans_le hn, h2⟩
  · rw [hb]
    exact h.nodup b

lemma SemsOwing.reapWrite (h : SemsOwing o k) (hw : ReapWrite k k') : SemsOwing o k' := by
  obtain ⟨bs, hf, hbs⟩ := hw.freed
  apply h.of_same hw.sems hw.semBuckets hw.semHandles hw.next.ge
  refine ⟨bs, hf, fun b hb he => ?_⟩
  have := hbs b hb
  rw [he] at this
  simp [BlockKind.reaped] at this

lemma SemsOwing.dispatchWrite (h : SemsOwing o k) (hw : DispatchWrite k k') : SemsOwing o k' := by
  apply h.of_same hw.sems hw.semBuckets hw.semHandles
  · rw [hw.heap]
  · exact ⟨[], by rw [hw.heap]; simp, by simp⟩

lemma SemsOwing.mmFree (h : SemsOwing o k) {b : Block} (hb : b.kind ≠ .sem) :
    SemsOwing o (k.mmFree b) :=
  h.of_same rfl rfl rfl le_rfl ⟨[b], rfl, by simpa using hb⟩

lemma SemsOwing.mmFrees (h : SemsOwing o k) (bs : List Block) (hb : ∀ b ∈ bs, b.kind ≠ .sem) :
    SemsOwing o (bs.foldl Kernel.mmFree k) := by
  induction bs generalizing k with
  | nil => exact h
  | cons b bs ih => exact ih (h.mmFree (hb b (by simp))) fun c hc => hb c (by simp [hc])

lemma SemsOwing.mmMalloc (h : SemsOwing o k) : SemsOwing o k.mmMalloc.1 :=
  h.of_same rfl rfl rfl (Nat.le_succ _) ⟨[], by simp [Kernel.mmMalloc], by simp⟩

/-- A write to one semaphore that leaves its lifetime alone. -/
lemma SemsOwing.modifySem (h : SemsOwing o k) (s : Nat) (f : Ksem → Ksem)
    (hf : (f (k.sems s)).refcount = (k.sems s).refcount ∧
      (f (k.sems s)).unlinked = (k.sems s).unlinked ∧ (f (k.sems s)).name = (k.sems s).name)
    (hw : SemFreed k s → (f (k.sems s)).waiters = []) : SemsOwing o (k.modifySem s f) := by
  have hs : ∀ t, ((k.modifySem s f).sems t).refcount = (k.sems t).refcount ∧
      ((k.modifySem s f).sems t).unlinked = (k.sems t).unlinked ∧
      ((k.modifySem s f).sems t).name = (k.sems t).name := by
    intro t
    by_cases ht : t = s
    · subst ht
      simpa [Kernel.modifySem] using hf
    · simp [Kernel.modifySem, ht]
  refine ⟨fun t => ?_, h.owed, h.once, fun t ht => ?_, h.handle, fun b t hm => ?_, h.nodup⟩
  · rw [(hs t).1]
    exact h.count t
  · obtain ⟨h1, h2, h3, h4⟩ := h.freed t ht
    rw [(hs t).1, (hs t).2.1]
    refine ⟨h1, h2, h3, ?_⟩
    by_cases e : t = s
    · subst e
      simpa [Kernel.modifySem] using hw ht
    · simpa [Kernel.modifySem, e] using h4
  · rw [(hs t).2.1, (hs t).2.2]
    exact h.bucket b t hm

/-- Counting and uncounting one reference. -/
lemma SemsOwing.recount {o' : Option Nat} (h : SemsOwing o k) {s : Nat} {n : Nat}
    (hf : ¬SemFreed k s) (hs : o' = some s → s < k.heap.next)
    (ho : ∀ t, t ≠ s → (o' = some t ↔ o = some t))
    (hn : n = semHandleCount k s + if o' = some s then 1 else 0) :
    SemsOwing o' (k.modifySem s fun c => { c with refcount := n }) := by
  refine ⟨fun t => ?_, fun t e => ?_, h.once, fun t ht => ?_, h.handle, fun b t hm => ?_, h.nodup⟩
  · by_cases ht : t = s
    · subst ht
      simp [Kernel.modifySem, hn, semHandleCount]
    · have := h.count t
      simp only [Kernel.modifySem, update_of_ne ht, ho t ht]
      exact this
  · by_cases ht : t = s
    · subst ht
      exact hs e
    · exact h.owed t ((ho t ht).mp e)
  · have hne : t ≠ s := fun e => hf (e ▸ ht)
    simpa [Kernel.modifySem, hne] using h.freed t ht
  · by_cases ht : t = s
    · subst ht
      simpa [Kernel.modifySem] using h.bucket b t hm
    · simpa [Kernel.modifySem, ht] using h.bucket b t hm

/-- A semaphore is destroyed when it is unlinked and has neither handles nor waiters. -/
lemma SemsOwing.destroyIfReady (h : SemsOwing none k) {s : Nat} (hs : s < k.heap.next)
    (hf : ¬SemFreed k s) : SemsOwing none (semDestroyIfReady k s) := by
  unfold semDestroyIfReady
  split
  · rename_i hr
    simp only [semReadyToDestroy, Bool.and_eq_true, Bool.not_eq_true', decide_eq_true_eq,
      List.isEmpty_iff] at hr
    obtain ⟨⟨⟨-, hu⟩, hr⟩, hw⟩ := hr
    have h1 : SemsOwing none (k.modifySem s fun c => { c with destroying := true }) :=
      h.modifySem s _ ⟨rfl, rfl, rfl⟩ fun ht => absurd ht hf
    have hw1 : ((k.modifySem s fun c => { c with destroying := true }).sems s).waiters = [] := by
      simpa [Kernel.modifySem] using hw
    have hu1 : ((k.modifySem s fun c => { c with destroying := true }).sems s).unlinked = true := by
      simpa [Kernel.modifySem] using hu
    have hr1 : ((k.modifySem s fun c => { c with destroying := true }).sems s).refcount = 0 := by
      simpa [Kernel.modifySem] using hr
    have hs1 : s < (k.modifySem s fun c => { c with destroying := true }).heap.next := hs
    have hf1 : ¬SemFreed (k.modifySem s fun c => { c with destroying := true }) s := hf
    generalize k.modifySem s (fun c => { c with destroying := true }) = k1 at h1 hw1 hu1 hr1 hs1 hf1
    have e : semFree k1 s = k1.mmFree ⟨.sem, s⟩ := by
      rw [semFree, hw1]
      rfl
    rw [e]
    refine ⟨h1.count, h1.owed, fun t => ?_, fun t ht => ?_, h1.handle, h1.bucket, h1.nodup⟩
    · rw [Kernel.mmFree, List.count_append]
      by_cases ht : t = s
      · subst ht
        rw [List.count_eq_zero_of_not_mem hf1]
        simp
      · have h0 : List.count (⟨.sem, t⟩ : Block) [⟨.sem, s⟩] = 0 :=
          List.count_eq_zero_of_not_mem (by simpa using ht)
        rw [h0]
        exact h1.once t
    · simp only [SemFreed, Kernel.mmFree, List.mem_append, List.mem_singleton, Block.mk.injEq,
        true_and] at ht
      rcases ht with ht | rfl
      · exact h1.freed t ht
      · exact ⟨hs1, hu1, hr1, hw1⟩
  · exact h

lemma SemsOwing.not_freed {s : Nat} (h : SemsOwing (some s) k) : ¬SemFreed k s := by
  intro hf
  have h1 := h.count s
  rw [(h.freed s hf).2.2.1, if_pos rfl] at h1
  omega

/-- `ksem_close` drops the reference that is not a handle's. -/
lemma SemsOwing.closed {s : Nat} (h : SemsOwing (some s) k) :
    SemsOwing none (ksemClose k s).1 := by
  have h1 := h.count s
  rw [if_pos rfl] at h1
  have hne : (k.sems s).refcount ≠ 0 := by omega
  rw [ksemClose, if_neg hne]
  apply SemsOwing.destroyIfReady
  · apply h.recount h.not_freed
    · simp
    · intro t ht
      simp [ht.symm]
    · simp [h1]
  · exact h.owed s rfl
  · exact h.not_freed

/-- Clearing a handle leaves its reference to be dropped. -/
lemma SemsOwing.clear {i : Fin ksemHandleMax} {e : SemHandle} (h : SemsOwing none k)
    (hi : k.semHandles i = some e) :
    SemsOwing (some e.sem) { k with semHandles := update k.semHandles i none } := by
  refine ⟨fun s => ?_, fun s hs => ?_, h.once, h.freed, fun j e' hj => ?_, h.bucket, h.nodup⟩
  · have hc := h.count s
    have := @semHandleCount_clear k { k with semHandles := update k.semHandles i none } i e hi rfl s
    simp only [reduceCtorEq, if_false, Option.some.injEq] at hc ⊢
    omega
  · rw [Option.some.injEq] at hs
    exact hs ▸ h.handle i e hi
  · apply h.handle j e'
    by_cases hji : j = i
    · subst hji
      simp at hj
    · simpa [hji] using hj

lemma findSem_some {name : CStr} {s : Nat} (h : findSem k name = some s) :
    s ∈ k.semBuckets (semHash name) ∧ (k.sems s).name = name := by
  refine ⟨List.mem_of_find?_eq_some h, ?_⟩
  have := List.find?_some h
  simp only [Bool.and_eq_true, decide_eq_true_eq] at this
  exact this.2

lemma semNameCopy_eq {name : CStr} (h : ¬(semNameLen name = 0 ∨ ksemNameMax ≤ semNameLen name)) :
    semNameCopy name = name := by
  have h1 : name.length < ksemNameMax := by
    rw [semNameLen] at h
    omega
  apply List.take_of_length_le
  omega

/-- A new semaphore is not in its bucket yet. -/
lemma findSem_fresh {name : CStr} {s : Nat} (h : SemsOwing o k) (hs : k.heap.next ≤ s)
    (hb : k'.semBuckets = k.semBuckets) (hk : ∀ t, t ≠ s → k'.sems t = k.sems t) :
    findSem k' name = findSem k name := by
  rw [findSem, findSem, hb]
  apply List.find?_congr
  intro t ht
  rw [hk t ((h.bucket _ t ht).1.trans_le hs).ne]

/-- No handle points to a block that has not been allocated. -/
lemma SemsOwing.count_fresh (h : SemsOwing o k) {s : Nat} (hs : k.heap.next ≤ s) :
    semHandleCount k s = 0 := by
  rw [semHandleCount, Finset.card_eq_zero, Finset.filter_eq_empty_iff]
  intro i _ hi
  obtain ⟨e, he, rfl⟩ := Option.map_eq_some_iff.mp hi
  have := h.handle i e he
  omega

/-- The state in which `ksem_open` has put a new semaphore in its bucket. -/
def semInserted (k : Kernel) (s : Nat) (name : CStr) (init : Nat) : Kernel :=
  let k := { k with heap := { k.heap with next := k.heap.next + 1 } }
  let k := k.modifySem s fun _ =>
    { name := semNameCopy name, count := init, refcount := 1, unlinked := false
      destroying := false, waiters := [] }
  { k with semBuckets := update k.semBuckets (semHash name) (s :: k.semBuckets (semHash name)) }

lemma SemsOwing.inserted (h : SemsOwing none k) {name : CStr} (hname : semNameCopy name = name)
    (init : Nat) : SemsOwing (some k.heap.next) (semInserted k k.heap.next name init) := by
  have hsem : ∀ t, t ≠ k.heap.next →
      (semInserted k k.heap.next name init).sems t = k.sems t := fun t ht => by
    simp [semInserted, Kernel.modifySem, ht]
  have hnew : (semInserted k k.heap.next name init).sems k.heap.next =
      ⟨name, init, 1, false, false, []⟩ := by
    simp [semInserted, Kernel.modifySem, hname]
  have hfr : ∀ t, SemFreed (semInserted k k.heap.next name init) t ↔ SemFreed k t :=
    fun _ => .rfl
  have hnext : (semInserted k k.heap.next name init).heap.next = k.heap.next + 1 := rfl
  refine ⟨fun t => ?_, fun t ht => ?_, h.once, fun t ht => ?_, fun i e hi => ?_,
    fun b t hm => ?_, fun b => ?_⟩
  · have hc : semHandleCount (semInserted k k.heap.next name init) t = semHandleCount k t :=
      semHandleCount_congr rfl t
    rw [hc]
    by_cases ht : t = k.heap.next
    · subst ht
      rw [hnew, h.count_fresh le_rfl, if_pos rfl]
    · rw [hsem t ht, h.count t, if_neg (by simp), if_neg (by simpa using Ne.symm ht)]
  · rw [Option.some.injEq] at ht
    omega
  · obtain ⟨h1, h2⟩ := h.freed t ((hfr t).mp ht)
    rw [hsem t h1.ne]
    exact ⟨by omega, h2⟩
  · have := h.handle i e hi
    omega
  · have hold : t ∈ k.semBuckets b → t < k.heap.next + 1 ∧
        ((semInserted k k.heap.next name init).sems t).unlinked = false ∧
        b = semHash ((semInserted k k.heap.next name init).sems t).name := by
      intro hm
      obtain ⟨h1, h2⟩ := h.bucket b t hm
      rw [hsem t h1.ne]
      exact ⟨by omega, h2⟩
    by_cases hb : b = semHash name
    · subst hb
      simp only [semInserted, Kernel.modifySem, update_self, List.mem_cons] at hm
      rcases hm with rfl | hm
      · rw [hnew]
        exact ⟨by omega, rfl, rfl⟩
      · exact hold hm
    · simp only [semInserted, Kernel.modifySem, update_of_ne hb] at hm
      exact hold hm
  · by_cases hb : b = semHash name
    · subst hb
      simp only [semInserted, Kernel.modifySem, update_self, List.nodup_cons]
      refine ⟨fun hm => ?_, h.nodup _⟩
      exact (h.bucket _ _ hm).1.ne rfl
    · simp only [semInserted, Kernel.modifySem, update_of_ne hb]
      exact h.nodup b

/-- `ksem_open` counts a reference that is not a handle's yet. -/
lemma SemsOwing.opened (h : SemsOwing none k) (name : CStr) (init : Nat) :
    (ksemOpen k name init).2 = none ∧ SemsOwing none (ksemOpen k name init).1 ∨
    ∃ s, (ksemOpen k name init).2 = some s ∧ SemsOwing (some s) (ksemOpen k name init).1 := by
  unfold ksemOpen
  split
  · exact .inl ⟨rfl, h⟩
  · rename_i hlen
    cases hfind : findSem k name with
    | some s =>
      obtain ⟨hm, -⟩ := findSem_some hfind
      obtain ⟨hs, hu, -⟩ := h.bucket _ s hm
      have hf : ¬SemFreed k s := fun hf => by simp [(h.freed s hf).2.1] at hu
      have hc := h.count s
      have hle := semHandleCount_le k s
      refine .inr ⟨s, rfl, ?_⟩
      apply h.recount hf
      · exact fun _ => hs
      · intro t ht
        simp [ht.symm]
      · simp only [reduceCtorEq, if_false, if_true] at hc ⊢
        rw [hc, incUnsigned, Nat.mod_eq_of_lt]
        have : uint32Max = 4294967295 := rfl
        have : ksemHandleMax = 128 := rfl
        omega
    | none =>
      dsimp only
      rcases hm : k.mmMalloc with ⟨k1, n⟩
      cases n with
      | none =>
        have e : k1 = k.mmMalloc.1 := by rw [hm]
        exact .inl ⟨rfl, e ▸ h.mmMalloc⟩
      | some s =>
        obtain ⟨rfl, rfl⟩ := mmMalloc_some hm
        have h1 : SemsOwing none { k with heap := { k.heap with next := k.heap.next + 1 } } := by
          have := h.mmMalloc
          exact this
        have hnone : findSem ({ k with heap := { k.heap with next := k.heap.next + 1 } }.modifySem
            k.heap.next fun _ => ⟨semNameCopy name, init, 1, false, false, []⟩) name = none := by
          rw [← hfind]
          apply findSem_fresh h le_rfl
          · rfl
          · intro t ht
            simp [Kernel.modifySem, ht]
        refine .inr ⟨k.heap.next, ?_⟩
        dsimp only
        rw [hnone]
        exact ⟨rfl, h.inserted (semNameCopy_eq hlen) init⟩

/-- Storing the handle of a semaphore that `ksem_open` returned. -/
lemma SemsOwing.store {i : Fin ksemHandleMax} {e : SemHandle} (h : SemsOwing (some e.sem) k)
    (hi : k.semHandles i = none) :
    SemsOwing none { k with semHandles := update k.semHandles i (some e) } := by
  refine ⟨fun s => ?_, fun s hs => by simp at hs, h.once, h.freed, fun j e' hj => ?_, h.bucket,
    h.nodup⟩
  · have hc := h.count s
    have := @semHandleCount_store k { k with semHandles := update k.semHandles i (some e) } i e hi
      rfl s
    simp only [reduceCtorEq, if_false, Option.some.injEq] at hc ⊢
    omega
  · by_cases hji : j = i
    · subst hji
      simp only [update_self, Option.some.injEq] at hj
      exact hj ▸ h.owed e.sem rfl
    · simp only [update_of_ne hji] at hj
      exact h.handle j e' hj

/-- `sys_sem_open`. -/
lemma SemsOwing.handed (h : SemsOwing none k) (name : CStr) (init : Nat) :
    SemsOwing none (sysSemOpen k name init).1 := by
  unfold sysSemOpen
  cases k.current with
  | none => exact h
  | some cur =>
    have ho := h.opened name init
    dsimp only
    generalize ksemOpen k name init = r at ho ⊢
    obtain ⟨k1, s⟩ := r
    rcases ho with ⟨rfl, h1⟩ | ⟨s, rfl, h1⟩
    · exact h1
    · dsimp only at h1 ⊢
      unfold semHandleAllocate
      split
      · rename_i i hi
        have hnone : k1.semHandles i = none := by simpa using List.find?_some hi
        rw [if_neg (by simp; omega)]
        exact SemsOwing.store (e := ⟨s, _⟩) h1 hnone
      · rw [if_pos (by simp)]
        exact h1.closed

/-- A handle that is in use. -/
lemma semHandlePeek_some {handle : Int} {s : Nat} (h : semHandlePeek k handle = some s) :
    ∃ i e, k.semHandles i = some e ∧ e.sem = s := by
  unfold semHandlePeek at h
  split at h
  · obtain ⟨e, he, rfl⟩ := Option.map_eq_some_iff.mp h
    exact ⟨_, e, he, rfl⟩
  · cases h

lemma semHandleDetach_cases (k : Kernel) (handle : Int) :
    semHandleDetach k handle = (k, none) ∨ ∃ i e, k.semHandles i = some e ∧
      semHandleDetach k handle =
        ({ k with semHandles := update k.semHandles i none }, some e.sem) := by
  unfold semHandleDetach
  split
  · dsimp only
    split
    · rename_i e he
      exact .inr ⟨_, e, he, rfl⟩
    · exact .inl rfl
  · exact .inl rfl

lemma SemsOwing.handle_not_freed (h : SemsOwing none k) {i : Fin ksemHandleMax} {e : SemHandle}
    (hi : k.semHandles i = some e) : ¬SemFreed k e.sem := by
  intro hf
  have hc := h.count e.sem
  have h0 := @semHandleCount_clear k { k with semHandles := update k.semHandles i none } i e hi rfl
    e.sem
  rw [(h.freed _ hf).2.2.1] at hc
  simp only [if_true] at h0
  omega

/-- `ksem_wait` on a semaphore that has not been freed. -/
lemma SemsOwing.waited (h : SemsOwing none k) (exec : Slot) {s : Nat} (hf : ¬SemFreed k s) :
    SemsOwing none (ksemWait k exec s).1 := by
  unfold ksemWait
  cases k.current with
  | none => exact h
  | some cur =>
    dsimp only
    rcases hm : k.mmMalloc with ⟨k1, n⟩
    have e : k1 = k.mmMalloc.1 := by rw [hm]
    have h1 : SemsOwing none k1 := e ▸ h.mmMalloc
    have hf1 : ¬SemFreed k1 s := by
      rw [e]
      exact hf
    cases n with
    | none => exact h1
    | some node =>
      dsimp only
      split
      · have h2 : SemsOwing none (k1.modifySem s fun c => { c with count := c.count - 1 }) :=
          h1.modifySem s _ ⟨rfl, rfl, rfl⟩ fun ht => absurd ht hf1
        exact h2.mmFree (by simp)
      · have h2 : SemsOwing none (k1.modifySem s fun c =>
            { c with waiters := c.waiters ++ [⟨node, cur⟩] }) :=
          h1.modifySem s _ ⟨rfl, rfl, rfl⟩ fun ht => absurd ht hf1
        exact h2.dispatchWrite (Redispatch.blockAndYield _ cur _).write

lemma SemsOwing.increment (h : SemsOwing none k) {s : Nat} (hf : ¬SemFreed k s) :
    SemsOwing none (semIncrement k s) := by
  unfold semIncrement
  split
  · exact h.modifySem s _ ⟨rfl, rfl, rfl⟩ fun ht => absurd ht hf
  · exact h

lemma semFreed_reapWrite (hw : ReapWrite k k') {s : Nat} (h : SemFreed k' s) : SemFreed k s := by
  obtain ⟨bs, e, hb⟩ := hw.freed
  rw [SemFreed, e, List.mem_append] at h
  apply h.resolve_right
  intro hm
  simpa [BlockKind.reaped] using hb _ hm

/-- `ksem_post` on a semaphore that has not been freed. -/
lemma SemsOwing.posted (h : SemsOwing none k) {s : Nat} (hf : ¬SemFreed k s) :
    SemsOwing none (ksemPost procUnblock k s).1 := by
  unfold ksemPost
  split
  · exact h.increment hf
  · rename_i w ws _
    have h1 : SemsOwing none (k.modifySem s fun c => { c with waiters := ws }) :=
      h.modifySem s _ ⟨rfl, rfl, rfl⟩ fun ht => absurd ht hf
    have hf1 : ¬SemFreed (k.modifySem s fun c => { c with waiters := ws }) s := hf
    dsimp only
    generalize (k.modifySem s fun c => { c with waiters := ws }) = k1 at h1 hf1
    have hw := reapWrite_loose.closed.procUnblock k1 (k1.procs w.proc).pid trivial
    have h2 := h1.reapWrite hw
    have hf2 : ¬SemFreed (procUnblock k1 (k1.procs w.proc).pid).1 s :=
      fun ht => hf1 (semFreed_reapWrite hw ht)
    apply SemsOwing.mmFree _ (by simp)
    split
    · exact h2
    · exact h2.increment hf2

/-- The state in which `ksem_unlink` has taken a semaphore from its bucket. -/
def semRemoved (k : Kernel) (s : Nat) (name : CStr) : Kernel :=
  let bucket := semHash name
  let k := { k with semBuckets := update k.semBuckets bucket ((k.semBuckets bucket).erase s) }
  k.modifySem s fun c => { c with unlinked := true }

lemma SemsOwing.removed {s : Nat} {name : CStr} (h : SemsOwing none k) (hname : (k.sems s).name = name)
    (hf : ¬SemFreed k s) : SemsOwing none (semRemoved k s name) := by
  have hsem : ∀ t, t ≠ s → (semRemoved k s name).sems t = k.sems t := fun t ht => by
    simp [semRemoved, Kernel.modifySem, ht]
  have hself : (semRemoved k s name).sems s = { k.sems s with unlinked := true } := by
    simp [semRemoved, Kernel.modifySem]
  have hmem : ∀ b, ∀ t ∈ (semRemoved k s name).semBuckets b, t ≠ s ∧ t ∈ k.semBuckets b := by
    intro b t ht
    simp only [semRemoved, Kernel.modifySem] at ht
    by_cases hb : b = semHash name
    · subst hb
      rw [update_self, (h.nodup _).mem_erase_iff] at ht
      exact ht
    · rw [update_of_ne hb] at ht
      refine ⟨fun e => hb ?_, ht⟩
      subst e
      rw [(h.bucket b t ht).2.2, hname]
  have hfr : ∀ t, SemFreed (semRemoved k s name) t ↔ SemFreed k t := fun _ => .rfl
  refine ⟨fun t => ?_, h.owed, h.once, fun t ht => ?_, h.handle, fun b t ht => ?_, fun b => ?_⟩
  · have hc : semHandleCount (semRemoved k s name) t = semHandleCount k t :=
      semHandleCount_congr rfl t
    rw [hc]
    by_cases e : t = s
    · subst e
      rw [hself]
      exact h.count t
    · rw [hsem t e]
      exact h.count t
  · have e : t ≠ s := fun e => hf (e ▸ (hfr t).mp ht)
    rw [hsem t e]
    exact h.freed t ht
  · obtain ⟨e, hb⟩ := hmem b t ht
    rw [hsem t e]
    exact h.bucket b t hb
  · simp only [semRemoved, Kernel.modifySem]
    by_cases hb : b = semHash name
    · subst hb
      rw [update_self]
      exact (h.nodup _).erase s
    · rw [update_of_ne hb]
      exact h.nodup b

/-- `ksem_unlink`. -/
lemma SemsOwing.unlinked (h : SemsOwing none k) (name : CStr) :
    SemsOwing none (ksemUnlink k name).1 := by
  unfold ksemUnlink
  split
  · exact h
  · split
    · exact h
    · rename_i s hfind
      obtain ⟨hm, hname⟩ := findSem_some hfind
      obtain ⟨hs, hu, -⟩ := h.bucket _ s hm
      have hf : ¬SemFreed k s := fun hf => by simp [(h.freed s hf).2.1] at hu
      have h1 := h.removed hname hf
      exact h1.destroyIfReady hs hf

lemma SemsOwing.cleanupHandles (h : SemsOwing none k) (pid : Int) :
    SemsOwing none (semCleanupProcessHandles k pid) := by
  have hstep : ∀ k, SemsOwing none k → ∀ i, SemsOwing none (semCleanupStep pid k i) := by
    intro k h i
    unfold semCleanupStep
    split
    · rename_i e he
      split
      · exact (h.clear he).closed
      · exact h
    · exact h
  unfold semCleanupProcessHandles
  induction List.finRange ksemHandleMax generalizing k with
  | nil => exact h
  | cons i l ih => exact ih (hstep k h i)

lemma SemsOwing.removeWaiters (h : SemsOwing none k) (p : Slot) :
    SemsOwing none (ksemRemoveWaitersFor k p) := by
  have hstep : ∀ k, SemsOwing none k → ∀ s, SemsOwing none (semRemoveProc p k s) := by
    intro k h s
    unfold semRemoveProc
    apply SemsOwing.mmFrees
    · apply h.modifySem s _ ⟨rfl, rfl, rfl⟩
      intro hf
      simp [(h.freed s hf).2.2.2]
    · intro b hb
      obtain ⟨w, -, rfl⟩ := List.mem_map.mp hb
      simp
  have hfold : ∀ (l : List Nat) k, SemsOwing none k → SemsOwing none (l.foldl (semRemoveProc p) k) := by
    intro l
    induction l with
    | nil => exact fun k h => h
    | cons s l ih => exact fun k h => ih _ (hstep k h s)
  unfold ksemRemoveWaitersFor
  induction List.finRange ksemHashBuckets generalizing k with
  | nil => exact h
  | cons b l ih => exact ih (hfold _ k h)

lemma SemsOwing.called (h : SemsOwing none k) (exec : Slot) {c : Syscall} (hc : c.onSem = true) :
    SemsOwing none (syscall k exec c).1 := by
  cases c with
  | semOpen name init => exact h.handed name init
  | semWait handle =>
    rw [syscall]
    split
    · exact h
    · rename_i s hs
      obtain ⟨i, e, hi, rfl⟩ := semHandlePeek_some hs
      exact h.waited exec (h.handle_not_freed hi)
  | semPost handle =>
    rw [syscall]
    split
    · exact h
    · rename_i s hs
      obtain ⟨i, e, hi, rfl⟩ := semHandlePeek_some hs
      exact h.posted (h.handle_not_freed hi)
  | semClose handle =>
    rw [syscall]
    rcases semHandleDetach_cases k handle with e | ⟨i, e, he, hd⟩
    · rw [e]
      exact h
    · rw [hd]
      exact (h.clear he).closed
  | semUnlink name => exact h.unlinked name
  | _ => simp [Syscall.onSem] at hc

lemma semsOwing_fresh (h : SemSystem.Fresh k) : SemsOwing none k := by
  have h0 : ∀ s, semHandleCount k s = 0 := by
    intro s
    simp [semHandleCount, h.handles]
  refine ⟨fun s => ?_, fun s hs => by simp at hs, fun s => ?_, fun s hs => absurd hs (h.freed s),
    fun i e hi => ?_, fun b s hs => ?_, fun b => ?_⟩
  · simp [h0, h.sems]
  · rw [List.count_eq_zero_of_not_mem (h.freed s)]
    omega
  · simp [h.handles] at hi
  · simp [h.buckets] at hs
  · simp [h.buckets]

lemma semsOwing_step {e : SemEvent} (h : SemsOwing none k) (hs : SemSystem.step k e = some k') :
    SemsOwing none k' := by
  cases e with
  | call exec c =>
    simp only [SemSystem.step, Option.ite_none_right_eq_some, Option.some.injEq] at hs
    obtain ⟨hc, rfl⟩ := hs
    exact h.called exec hc
  | cleanup pid =>
    rw [SemSystem.step, Option.some.injEq] at hs
    rw [← hs]
    exact h.cleanupHandles pid
  | removeWaiters proc =>
    rw [SemSystem.step, Option.some.injEq] at hs
    rw [← hs]
    exact h.removeWaiters proc
  | elsewhere k1 allocs =>
    rw [SemSystem.step, Option.some.injEq] at hs
    rw [← hs]
    exact h.of_same rfl rfl rfl (Nat.le_add_right _ _) ⟨[], by simp [SemSystem.graft], by simp⟩

/-- In every run the reference counts are the numbers of handles, a semaphore is freed at most
once and then has neither name nor handle nor waiter, and nothing points to a freed one. -/
theorem sem_lifetime
    (h : Transition.Reach SemSystem.Fresh SemSystem.step (fun _ _ => True) k) :
    (∀ s, (k.sems s).refcount = semHandleCount k s) ∧
    (∀ s, k.heap.freed.count ⟨.sem, s⟩ ≤ 1) ∧
    (∀ s, SemFreed k s → (k.sems s).unlinked = true ∧ semHandleCount k s = 0 ∧
      (k.sems s).waiters = []) ∧
    (∀ i e, k.semHandles i = some e → ¬SemFreed k e.sem) ∧
    ∀ b, ∀ s ∈ k.semBuckets b, ¬SemFreed k s := by
  have hi : SemsOwing none k := by
    apply Transition.Reach.invariant _ _ h
    · exact fun k h => semsOwing_fresh h
    · exact fun k e k' h _ hs => semsOwing_step h hs
  have hc : ∀ s, (k.sems s).refcount = semHandleCount k s := fun s => by simpa using hi.count s
  refine ⟨hc, hi.once, fun s hs => ?_, fun i e he => hi.handle_not_freed he, fun b s hm hs => ?_⟩
  · obtain ⟨-, hu, hr, hw⟩ := hi.freed s hs
    exact ⟨hu, by rw [← hc, hr], hw⟩
  · have := (hi.bucket b s hm).2.1
    simp [(hi.freed s hs).2.1] at this

/-- A kernel without semaphores in which process 1 is current. -/
def sampleNoSems : Kernel := { kernelZero fun _ => false with current := some 1 }

lemma sampleNoSems_fresh : SemSystem.Fresh sampleNoSems :=
  ⟨fun _ => rfl, fun _ => rfl, fun _ => rfl, fun _ => List.not_mem_nil⟩

/-- The semaphore `"a"` is opened twice, unlinked, and closed twice. -/
def sampleClosed : Kernel :=
  Transition.final SemSystem.step (fun _ _ => true) sampleNoSems
    [.call 1 (.semOpen [97] 1), .call 1 (.semOpen [97] 1), .call 1 (.semUnlink [97]),
      .call 1 (.semClose 2), .call 1 (.semClose 1)]

lemma sampleClosed_reach :
    Transition.Reach SemSystem.Fresh SemSystem.step (fun _ _ => True) sampleClosed :=
  (Transition.Reach.final _ sampleNoSems_fresh (by decide +kernel)).mono fun _ _ _ => trivial

theorem sem_lifetime_sample : SemFreed sampleClosed 0 ∧
    sampleClosed.heap.freed.count ⟨.sem, 0⟩ ≤ 1 ∧ (sampleClosed.sems 0).unlinked = true ∧
    semHandleCount sampleClosed 0 = 0 ∧ (sampleClosed.sems 0).waiters = [] := by
  have hf : SemFreed sampleClosed 0 := by
    unfold SemFreed
    decide +kernel
  have h := sem_lifetime sampleClosed_reach
  exact ⟨hf, h.2.1 0, h.2.2.1 0 hf⟩

end TP2Kernel.Proofs
